import LayeredMachines.Proofs.Hierarchy.Slots
import Mathlib.Logic.Relation

/-!
# The order of slots

A child is attached after its parent, and nothing moves afterwards. Parents therefore have smaller
slots than their children, only the first slot has no parent, and every chain of parents ends
there. This file states the order and shows that every operation keeps it.
-/

namespace LayeredMachines.Hierarchy

variable {hierarchy : Hierarchy} {slot above : Nat}

/-- Parents have smaller slots, the first slot alone has no parent, and its layer stays attached. -/
structure Ordered (hierarchy : Hierarchy) : Prop where
  parent_lt : ∀ {slot parent}, hierarchy.parent? slot = some parent → parent < slot
  parent?_eq_none : ∀ {slot}, slot < hierarchy.size → (hierarchy.parent? slot = none ↔ slot = 0)
  root_attached : 0 < hierarchy.size → hierarchy.isAttached 0 = true

/-- One slot is the parent of another. -/
def IsParent (hierarchy : Hierarchy) (below above : Nat) : Prop :=
  hierarchy.parent? below = some above

/-- A chain of one or more parents leads from one slot to another. -/
def IsBelow (hierarchy : Hierarchy) : Nat → Nat → Prop :=
  Relation.TransGen hierarchy.IsParent

/-! ### Chains of parents -/

/-- In an ordered hierarchy the ancestors of a slot are its parent and the parent's ancestors. -/
theorem Ordered.ancestors_of_parent? (hordered : hierarchy.Ordered)
    (hparent : hierarchy.parent? slot = some above) :
    hierarchy.ancestors slot = above :: hierarchy.ancestors above := by
  rw [ancestors, hparent]
  exact if_pos (hordered.parent_lt hparent)

/-- Ancestors are reached along parents. -/
theorem isBelow_of_mem_ancestors (habove : above ∈ hierarchy.ancestors slot) :
    hierarchy.IsBelow slot above := by
  fun_induction ancestors hierarchy slot with
  | case1 slot parent hparent _ ih =>
    rcases List.mem_cons.mp habove with rfl | hmem
    · exact .single hparent
    · exact .head hparent (ih hmem)
  | case2 => simp at habove
  | case3 => simp at habove

/-- In an ordered hierarchy the ancestors of a slot are all slots that it is below. -/
theorem Ordered.mem_ancestors_iff (hordered : hierarchy.Ordered) :
    above ∈ hierarchy.ancestors slot ↔ hierarchy.IsBelow slot above := by
  refine ⟨isBelow_of_mem_ancestors, fun hbelow => ?_⟩
  induction hbelow using Relation.TransGen.head_induction_on with
  | single hparent =>
    rw [hordered.ancestors_of_parent? hparent]
    exact List.mem_cons_self
  | head hparent _ ih =>
    rw [hordered.ancestors_of_parent? hparent]
    exact List.mem_cons_of_mem _ ih

/-- In an ordered hierarchy every chain of parents leads to the first slot. -/
theorem Ordered.leads_to_root (hordered : hierarchy.Ordered) (hslot : slot < hierarchy.size) :
    Relation.ReflTransGen hierarchy.IsParent slot 0 := by
  induction slot using Nat.strongRecOn with
  | ind slot ih =>
    cases hparent : hierarchy.parent? slot with
    | none =>
      rw [(hordered.parent?_eq_none hslot).mp hparent]
    | some parent =>
      have hlt := hordered.parent_lt hparent
      exact .head hparent (ih parent hlt (by omega))

/-! ### Operations keep the order -/

/-- The order depends on the parents and on the attachment of the first slot only. -/
theorem Ordered.congr {changed : Hierarchy} (hordered : hierarchy.Ordered)
    (hsize : changed.size = hierarchy.size)
    (hparent : ∀ slot, changed.parent? slot = hierarchy.parent? slot)
    (hroot : hierarchy.isAttached 0 = true → changed.isAttached 0 = true) : changed.Ordered where
  parent_lt h := hordered.parent_lt (hparent _ ▸ h)
  parent?_eq_none h := by rw [hparent]; exact hordered.parent?_eq_none (hsize ▸ h)
  root_attached h := hroot (hordered.root_attached (hsize ▸ h))

/-- The hierarchy without layers is ordered. -/
theorem ordered_empty : empty.Ordered where
  parent_lt h := by simp [parent?, empty] at h
  parent?_eq_none h := absurd h (Nat.not_lt_zero _)
  root_attached h := absurd h (Nat.lt_irrefl 0)

/-- A root alone is ordered. -/
theorem ordered_root (layer : Layer) : (empty.attach none layer).Ordered where
  parent_lt h := by
    rw [parent?_attach] at h
    split at h
    · simp at h
    · exact ordered_empty.parent_lt h
  parent?_eq_none h := by
    rename_i slot
    have hzero : slot = 0 := by simpa [size, empty, attach] using h
    simp [hzero, parent?_attach, size, empty]
  root_attached _ := by simp [isAttached_attach, size, empty]

/-- A child of a layer that is there keeps the order. -/
theorem Ordered.attach {parent : Nat} (hordered : hierarchy.Ordered)
    (hparent : parent < hierarchy.size) (layer : Layer) :
    (hierarchy.attach (some parent) layer).Ordered where
  parent_lt h := by
    rw [parent?_attach] at h
    split at h
    · simp only [Option.some.injEq] at h
      omega
    · exact hordered.parent_lt h
  parent?_eq_none h := by
    rw [size_attach] at h
    rw [parent?_attach]
    split
    · simp only [reduceCtorEq, false_iff]
      omega
    · exact hordered.parent?_eq_none (by omega)
  root_attached _ := by
    rw [isAttached_attach]
    split
    · rfl
    · exact hordered.root_attached (by omega)

/-- Detaching a layer keeps the order, since the first slot has no parent. -/
theorem Ordered.detach (hordered : hierarchy.Ordered) (slot : Nat) :
    (hierarchy.detach slot).Ordered := by
  refine hordered.congr size_detach (fun _ => parent?_detach) fun hroot => ?_
  have hnone := (hordered.parent?_eq_none (lt_size_of_isAttached hroot)).mpr rfl
  rw [isAttached_detach, if_neg]
  · exact hroot
  · rintro ⟨rfl, hsome⟩
    simp [hnone] at hsome

/-- Taking a layer out keeps the order. -/
theorem Ordered.take (hordered : hierarchy.Ordered) (slot : Nat) :
    (hierarchy.take slot).Ordered :=
  hordered.congr size_take (fun _ => parent?_take) fun hroot => by rwa [isAttached_take]

/-- Putting a layer back keeps the order. -/
theorem Ordered.restore (hordered : hierarchy.Ordered) (slot : Nat) (layer : Layer) :
    (hierarchy.restore slot layer).Ordered :=
  hordered.congr (size_restore layer) (fun _ => parent?_restore layer) fun hroot => by
    rwa [isAttached_restore]

/-- Changing a layer keeps the order. -/
theorem Ordered.modifyLayer (hordered : hierarchy.Ordered) (slot : Nat)
    (change : Layer → Layer) : (hierarchy.modifyLayer slot change).Ordered :=
  hordered.congr (size_modifyLayer change) (fun _ => parent?_modifyLayer change) fun hroot => by
    rwa [isAttached_modifyLayer]

end LayeredMachines.Hierarchy
