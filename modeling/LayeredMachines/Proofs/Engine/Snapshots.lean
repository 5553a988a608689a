import LayeredMachines.Engine.Basic
import LayeredMachines.Proofs.Hierarchy.Likeness
import LayeredMachines.Proofs.Pass.Walks
import Mathlib.Data.List.Forall2

/-!
# What is seen of layers

A layer is seen with its own state and variables, and with the identity of the layer above it.
Layers that correspond in hierarchies of the same shape are therefore seen to correspond.
-/

namespace LayeredMachines.Hierarchy

/-- The identity of the layer above the one in a slot. -/
def parentId? (hierarchy : Hierarchy) (slot : Nat) : Option LayerId :=
  ((hierarchy.parent? slot).bind hierarchy.layer?).map Layer.id

/-- A layer is seen with the identity of the layer above it. -/
theorem snapshot?_of_layer? {hierarchy : Hierarchy} {slot : Nat} {layer : Layer}
    (hlayer : hierarchy.layer? slot = some layer) :
    hierarchy.snapshot? slot = some (Snapshot.ofLayer layer (hierarchy.parentId? slot)) := by
  rw [snapshot?, hlayer, Option.map_some]
  rfl

/-- Nothing is seen in a slot without a layer. -/
theorem snapshot?_eq_none {hierarchy : Hierarchy} {slot : Nat}
    (hlayer : hierarchy.layer? slot = none) : hierarchy.snapshot? slot = none := by
  rw [snapshot?, hlayer, Option.map_none]

namespace Alike

variable {alike : Layer → Layer → Prop} {related : LayerId → LayerId → Prop}
  {seen : Snapshot → Snapshot → Prop} {left right : Hierarchy}

/-- The layers above correspond, and so do their identities. -/
theorem rel_parentId? (h : left.Alike alike right)
    (hid : ∀ layer other, alike layer other → related layer.id other.id) (slot : Nat) :
    Option.Rel related (left.parentId? slot) (right.parentId? slot) := by
  rw [parentId?, parentId?, h.parent?_eq]
  cases left.parent? slot with
  | none => exact .none
  | some parent =>
    rw [Option.bind_some, Option.bind_some]
    rcases rel_cases (h.layer? parent) with ⟨hleft, hright⟩ | ⟨above, other, hleft, hright, habove⟩
    · rw [hleft, hright]
      exact .none
    · rw [hleft, hright]
      exact .some (hid above other habove)

/-- The layers in a slot are seen to correspond. -/
theorem rel_snapshot? (h : left.Alike alike right)
    (hid : ∀ layer other, alike layer other → related layer.id other.id)
    (hseen : ∀ layer other parent otherParent, alike layer other →
      Option.Rel related parent otherParent →
      seen (Snapshot.ofLayer layer parent) (Snapshot.ofLayer other otherParent)) (slot : Nat) :
    Option.Rel seen (left.snapshot? slot) (right.snapshot? slot) := by
  rcases rel_cases (h.layer? slot) with ⟨hleft, hright⟩ | ⟨layer, other, hleft, hright, hlayer⟩
  · rw [snapshot?_eq_none hleft, snapshot?_eq_none hright]
    exact .none
  · rw [snapshot?_of_layer? hleft, snapshot?_of_layer? hright]
    exact .some (hseen layer other _ _ hlayer (h.rel_parentId? hid slot))

/-- The attached layers are seen to correspond one by one. -/
theorem forall₂_snapshots (h : left.Alike alike right)
    (hid : ∀ layer other, alike layer other → related layer.id other.id)
    (hseen : ∀ layer other parent otherParent, alike layer other →
      Option.Rel related parent otherParent →
      seen (Snapshot.ofLayer layer parent) (Snapshot.ofLayer other otherParent)) :
    List.Forall₂ seen (left.attachedSlots.filterMap left.snapshot?)
      (right.attachedSlots.filterMap right.snapshot?) := by
  rw [h.attachedSlots_eq]
  refine List.rel_filterMap ?_ (List.forall₂_same.mpr fun _ _ => rfl)
  rintro slot _ rfl
  exact h.rel_snapshot? hid hseen slot

end Alike

end LayeredMachines.Hierarchy
