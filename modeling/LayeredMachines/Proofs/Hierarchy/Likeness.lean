import LayeredMachines.Proofs.Hierarchy.Compaction

/-!
# Hierarchies with layers that correspond

Two hierarchies are alike if they have the same slots, the same links to parents and the same
attachment, and if the layers in each slot correspond in some sense. Whatever is read from links and
attachment is then the same in both, and the operations keep the likeness.
-/

namespace LayeredMachines.Hierarchy

/-- The same slots, parents and attachment, with corresponding layers in the records. -/
structure Alike (alike : Layer → Layer → Prop) (left right : Hierarchy) : Prop where
  size_eq : right.size = left.size
  parent?_eq : ∀ slot, right.parent? slot = left.parent? slot
  isAttached_eq : ∀ slot, right.isAttached slot = left.isAttached slot
  layer? : ∀ slot, Option.Rel alike (left.layer? slot) (right.layer? slot)

namespace Alike

variable {alike : Layer → Layer → Prop} {left right : Hierarchy} {layer other : Layer}

/-- A hierarchy is like itself if every layer corresponds to itself. -/
theorem refl (halike : ∀ layer, alike layer layer) (hierarchy : Hierarchy) :
    Alike alike hierarchy hierarchy where
  size_eq := rfl
  parent?_eq _ := rfl
  isAttached_eq _ := rfl
  layer? slot := by
    cases hierarchy.layer? slot with
    | none => exact .none
    | some layer => exact .some (halike layer)

/-! ### What is read from both -/

theorem attachedSlots_eq (h : Alike alike left right) :
    right.attachedSlots = left.attachedSlots :=
  attachedSlots_congr h.size_eq h.isAttached_eq

theorem descendants_eq (h : Alike alike left right) (slot : Nat) :
    right.descendants slot = left.descendants slot :=
  descendants_congr h.size_eq h.isAttached_eq h.parent?_eq slot

theorem keptSlots_eq (h : Alike alike left right) : right.keptSlots = left.keptSlots := by
  rw [keptSlots, keptSlots, h.size_eq]
  refine List.filter_congr fun slot _ => ?_
  simp only [isKept, h.isAttached_eq, h.descendants_eq]

/-- What is asked of the layers has the same answer on both sides if it is the same for
corresponding layers. -/
theorem any_layer?_eq (h : Alike alike left right) {test otherTest : Layer → Bool}
    (htest : ∀ layer other, alike layer other → otherTest other = test layer) (slot : Nat) :
    (right.layer? slot).any otherTest = (left.layer? slot).any test := by
  have hlayer := h.layer? slot
  generalize left.layer? slot = found at hlayer ⊢
  generalize right.layer? slot = corresponding at hlayer ⊢
  cases hlayer with
  | none => rfl
  | some hsame => exact htest _ _ hsame

/-- Layers are found in the same slot if corresponding layers are looked for. -/
theorem find?_congr (h : Alike alike left right) {id name : LayerId}
    (hid : ∀ layer other, alike layer other → (other.id == name) = (layer.id == id)) :
    right.find? name = left.find? id := by
  have htest (slot : Nat) : ((right.layer? slot).any fun layer => layer.id == name) =
      (left.layer? slot).any fun layer => layer.id == id := h.any_layer?_eq hid slot
  simp only [find?, h.attachedSlots_eq, htest]

/-- The layer with an identity is found in the same slot, if corresponding layers share theirs. -/
theorem find?_eq (h : Alike alike left right)
    (hid : ∀ layer other, alike layer other → other.id = layer.id) (id : LayerId) :
    right.find? id = left.find? id :=
  h.find?_congr fun layer other hsame => by rw [hid layer other hsame]

/-! ### Operations -/

theorem attach (h : Alike alike left right) (parent : Option Nat) (hlayer : alike layer other) :
    Alike alike (left.attach parent layer) (right.attach parent other) where
  size_eq := by rw [size_attach, size_attach, h.size_eq]
  parent?_eq slot := by rw [parent?_attach, parent?_attach, h.size_eq, h.parent?_eq]
  isAttached_eq slot := by
    rw [isAttached_attach, isAttached_attach, h.size_eq, h.isAttached_eq]
  layer? slot := by
    rw [layer?_attach, layer?_attach, h.size_eq]
    split
    · exact .some hlayer
    · exact h.layer? slot

theorem detach (h : Alike alike left right) (slot : Nat) :
    Alike alike (left.detach slot) (right.detach slot) where
  size_eq := by rw [size_detach, size_detach, h.size_eq]
  parent?_eq other := by rw [parent?_detach, parent?_detach, h.parent?_eq]
  isAttached_eq other := by
    rw [isAttached_detach, isAttached_detach, h.parent?_eq, h.isAttached_eq]
  layer? other := by
    rw [layer?_detach, layer?_detach]
    exact h.layer? other

theorem take (h : Alike alike left right) (slot : Nat) :
    Alike alike (left.take slot) (right.take slot) where
  size_eq := by rw [size_take, size_take, h.size_eq]
  parent?_eq other := by rw [parent?_take, parent?_take, h.parent?_eq]
  isAttached_eq other := by rw [isAttached_take, isAttached_take, h.isAttached_eq]
  layer? other := by
    rw [layer?_take, layer?_take]
    split
    · exact .none
    · exact h.layer? other

theorem restore (h : Alike alike left right) (slot : Nat) (hlayer : alike layer other) :
    Alike alike (left.restore slot layer) (right.restore slot other) where
  size_eq := by rw [size_restore, size_restore, h.size_eq]
  parent?_eq below := by rw [parent?_restore, parent?_restore, h.parent?_eq]
  isAttached_eq below := by rw [isAttached_restore, isAttached_restore, h.isAttached_eq]
  layer? below := by
    rw [layer?_restore, layer?_restore, h.size_eq]
    split
    · exact .some hlayer
    · exact h.layer? below

theorem modifyLayer (h : Alike alike left right) (slot : Nat) {change : Layer → Layer}
    (hchange : ∀ layer other, alike layer other → alike (change layer) (change other)) :
    Alike alike (left.modifyLayer slot change) (right.modifyLayer slot change) where
  size_eq := by rw [size_modifyLayer, size_modifyLayer, h.size_eq]
  parent?_eq other := by rw [parent?_modifyLayer, parent?_modifyLayer, h.parent?_eq]
  isAttached_eq other := by rw [isAttached_modifyLayer, isAttached_modifyLayer, h.isAttached_eq]
  layer? other := by
    rw [layer?_modifyLayer, layer?_modifyLayer]
    split
    · have hlayer := h.layer? slot
      generalize left.layer? slot = found at hlayer ⊢
      generalize right.layer? slot = corresponding at hlayer ⊢
      cases hlayer with
      | none => exact .none
      | some hsame => exact .some (hchange _ _ hsame)
    · exact h.layer? other

theorem compact (h : Alike alike left right) : Alike alike left.compact right.compact where
  size_eq := by rw [size_compact, size_compact, h.keptSlots_eq]
  parent?_eq slot := by simp only [parent?_compact, h.keptSlots_eq, h.parent?_eq]
  isAttached_eq slot := by
    rw [isAttached_compact, isAttached_compact, h.keptSlots_eq]
    cases left.keptSlots[slot]? with
    | none => rfl
    | some kept => exact h.isAttached_eq kept
  layer? slot := by
    rw [layer?_compact, layer?_compact, h.keptSlots_eq]
    cases left.keptSlots[slot]? with
    | none => exact .none
    | some kept => exact h.layer? kept

end Alike

end LayeredMachines.Hierarchy
