import LayeredMachines.Hierarchy
import Mathlib.Tactic.ByContra

/-!
# Slots after an operation

A hierarchy is read through the parent, the layer and the attachment of each slot. This file says
what every operation does to the three of them, so that nothing else looks into the records.
-/

namespace LayeredMachines.Hierarchy

variable {hierarchy : Hierarchy} {slot other : Nat}

/-! ### What is in the slots -/

/-- A slot with an attached layer is a slot of the hierarchy. -/
theorem lt_size_of_isAttached (hattached : hierarchy.isAttached slot = true) :
    slot < hierarchy.size := by
  by_contra hsize
  have hnone : hierarchy.records[slot]? = none := Array.getElem?_eq_none (Nat.not_lt.mp hsize)
  simp [isAttached, hnone] at hattached

/-- A slot with a layer is a slot of the hierarchy. -/
theorem lt_size_of_layer? {layer : Layer} (hlayer : hierarchy.layer? slot = some layer) :
    slot < hierarchy.size := by
  by_contra hsize
  have hnone : hierarchy.records[slot]? = none := Array.getElem?_eq_none (Nat.not_lt.mp hsize)
  simp [layer?, hnone] at hlayer

/-- A slot with a parent is a slot of the hierarchy. -/
theorem lt_size_of_parent? {parent : Nat} (hparent : hierarchy.parent? slot = some parent) :
    slot < hierarchy.size := by
  by_contra hsize
  have hnone : hierarchy.records[slot]? = none := Array.getElem?_eq_none (Nat.not_lt.mp hsize)
  simp [parent?, hnone] at hparent

/-- The attached slots are the slots that are attached. -/
@[simp] theorem mem_attachedSlots :
    slot ∈ hierarchy.attachedSlots ↔ hierarchy.isAttached slot = true := by
  simp only [attachedSlots, List.mem_filter, List.mem_range, and_iff_right_iff_imp]
  exact lt_size_of_isAttached

/-- No slot is found exactly if no attached layer has the identity. -/
theorem find?_eq_none_iff {id : LayerId} :
    hierarchy.find? id = none ↔ ∀ slot layer, hierarchy.isAttached slot = true →
      hierarchy.layer? slot = some layer → layer.id ≠ id := by
  simp only [find?, List.find?_eq_none, mem_attachedSlots, Option.any_eq_true, beq_iff_eq,
    not_exists, not_and]
  exact ⟨fun h slot layer hattached => h slot hattached layer, fun h slot hattached layer =>
    h slot layer hattached⟩

/-- The attached slots are listed from the smallest on. -/
theorem pairwise_attachedSlots (hierarchy : Hierarchy) :
    hierarchy.attachedSlots.Pairwise (· < ·) :=
  List.pairwise_lt_range.filter _

/-- The descendants of a slot are the attached slots that have it above them. -/
@[simp] theorem mem_descendants :
    other ∈ hierarchy.descendants slot ↔
      hierarchy.isAttached other = true ∧ slot ∈ hierarchy.ancestors other := by
  simp [descendants]

/-! ### What depends on links and attachment only -/

/-- The attached slots depend on nothing but what is attached. -/
theorem attachedSlots_congr {changed : Hierarchy} (hsize : changed.size = hierarchy.size)
    (hattached : ∀ slot, changed.isAttached slot = hierarchy.isAttached slot) :
    changed.attachedSlots = hierarchy.attachedSlots := by
  rw [attachedSlots, attachedSlots, hsize]
  exact List.filter_congr fun slot _ => hattached slot

/-- The ancestors depend on nothing but the links to parents. -/
theorem ancestors_congr {changed : Hierarchy}
    (hparent : ∀ slot, changed.parent? slot = hierarchy.parent? slot) (slot : Nat) :
    changed.ancestors slot = hierarchy.ancestors slot := by
  induction slot using Nat.strongRecOn with
  | ind slot ih =>
    rw [ancestors, ancestors, hparent]
    cases hierarchy.parent? slot with
    | none => rfl
    | some parent =>
      by_cases hlt : parent < slot
      · simp only [hlt, if_true, ih parent hlt]
      · simp only [hlt, if_false]

/-- The descendants depend on nothing but what is attached and the links to parents. -/
theorem descendants_congr {changed : Hierarchy} (hsize : changed.size = hierarchy.size)
    (hattached : ∀ slot, changed.isAttached slot = hierarchy.isAttached slot)
    (hparent : ∀ slot, changed.parent? slot = hierarchy.parent? slot) (slot : Nat) :
    changed.descendants slot = hierarchy.descendants slot := by
  simp only [descendants, attachedSlots_congr hsize hattached, ancestors_congr hparent]

/-! ### A new layer -/

theorem parent?_attach (hierarchy : Hierarchy) (parent : Option Nat) (layer : Layer)
    (slot : Nat) :
    (hierarchy.attach parent layer).parent? slot =
      if slot = hierarchy.size then parent else hierarchy.parent? slot := by
  by_cases hslot : slot = hierarchy.records.size <;>
    simp [parent?, attach, size, Array.getElem?_push, hslot]

theorem isAttached_attach (hierarchy : Hierarchy) (parent : Option Nat) (layer : Layer)
    (slot : Nat) :
    (hierarchy.attach parent layer).isAttached slot =
      if slot = hierarchy.size then true else hierarchy.isAttached slot := by
  by_cases hslot : slot = hierarchy.records.size <;>
    simp [isAttached, attach, size, Array.getElem?_push, hslot]

theorem layer?_attach (hierarchy : Hierarchy) (parent : Option Nat) (layer : Layer)
    (slot : Nat) :
    (hierarchy.attach parent layer).layer? slot =
      if slot = hierarchy.size then some layer else hierarchy.layer? slot := by
  by_cases hslot : slot = hierarchy.records.size <;>
    simp [layer?, attach, size, Array.getElem?_push, hslot]

/-! ### Changes of one record -/

/-- A change reaches the layer of its own slot only. -/
theorem layer?_modify (change : Record → Record) :
    (hierarchy.modify slot change).layer? other =
      if other = slot then hierarchy.records[slot]?.bind fun record => (change record).layer
      else hierarchy.layer? other := by
  by_cases heq : other = slot
  · subst heq
    cases hrecord : hierarchy.records[other]? <;>
      simp [layer?, modify, Array.getElem?_modify, hrecord]
  · simp [layer?, modify, Array.getElem?_modify, heq, Ne.symm heq]

@[simp] theorem size_detach : (hierarchy.detach slot).size = hierarchy.size :=
  size_modify ..

@[simp] theorem size_take : (hierarchy.take slot).size = hierarchy.size :=
  size_modify ..

@[simp] theorem size_restore (layer : Layer) :
    (hierarchy.restore slot layer).size = hierarchy.size :=
  size_modify ..

@[simp] theorem size_modifyLayer (change : Layer → Layer) :
    (hierarchy.modifyLayer slot change).size = hierarchy.size :=
  size_modify ..

@[simp] theorem parent?_detach :
    (hierarchy.detach slot).parent? other = hierarchy.parent? other :=
  parent?_modify _ _ _ fun record => by cases h : record.parent <;> simp [h]

@[simp] theorem parent?_take : (hierarchy.take slot).parent? other = hierarchy.parent? other :=
  parent?_modify _ _ _ fun _ => rfl

@[simp] theorem parent?_restore (layer : Layer) :
    (hierarchy.restore slot layer).parent? other = hierarchy.parent? other :=
  parent?_modify _ _ _ fun _ => rfl

@[simp] theorem parent?_modifyLayer (change : Layer → Layer) :
    (hierarchy.modifyLayer slot change).parent? other = hierarchy.parent? other :=
  parent?_modify _ _ _ fun _ => rfl

@[simp] theorem isAttached_take :
    (hierarchy.take slot).isAttached other = hierarchy.isAttached other :=
  isAttached_modify _ _ _ fun _ => rfl

@[simp] theorem isAttached_restore (layer : Layer) :
    (hierarchy.restore slot layer).isAttached other = hierarchy.isAttached other :=
  isAttached_modify _ _ _ fun _ => rfl

@[simp] theorem isAttached_modifyLayer (change : Layer → Layer) :
    (hierarchy.modifyLayer slot change).isAttached other = hierarchy.isAttached other :=
  isAttached_modify _ _ _ fun _ => rfl

/-- A layer that is taken out has the descendants that it had. -/
@[simp] theorem descendants_take :
    (hierarchy.take slot).descendants other = hierarchy.descendants other :=
  descendants_congr size_take (fun _ => isAttached_take) (fun _ => parent?_take) other

/-- Only the slot itself is detached, and only if it has a parent. -/
theorem isAttached_detach :
    (hierarchy.detach slot).isAttached other =
      if other = slot ∧ (hierarchy.parent? slot).isSome then false
      else hierarchy.isAttached other := by
  by_cases heq : other = slot
  · subst heq
    cases hrecord : hierarchy.records[other]? with
    | none => simp [isAttached, detach, modify, Array.getElem?_modify, hrecord]
    | some record =>
      cases hparent : record.parent <;>
        simp [isAttached, detach, modify, parent?, Array.getElem?_modify, hrecord, hparent]
  · simp [isAttached, detach, modify, Array.getElem?_modify, heq, Ne.symm heq]

@[simp] theorem layer?_detach : (hierarchy.detach slot).layer? other = hierarchy.layer? other := by
  rw [detach, layer?_modify]
  split
  · next heq =>
    subst heq
    cases hrecord : hierarchy.records[other]? with
    | none => simp [layer?, hrecord]
    | some record => cases hparent : record.parent <;> simp [layer?, hrecord, hparent]
  · rfl

theorem layer?_take :
    (hierarchy.take slot).layer? other =
      if other = slot then none else hierarchy.layer? other := by
  rw [take, layer?_modify]
  cases hierarchy.records[slot]? <;> rfl

theorem layer?_restore (layer : Layer) :
    (hierarchy.restore slot layer).layer? other =
      if other = slot ∧ slot < hierarchy.size then some layer else hierarchy.layer? other := by
  rw [restore, layer?_modify]
  by_cases heq : other = slot
  · subst heq
    by_cases hsize : other < hierarchy.size
    · have hrecord : hierarchy.records[other]? = some hierarchy.records[other] :=
        Array.getElem?_eq_getElem hsize
      simp [hrecord, hsize]
    · have hrecord : hierarchy.records[other]? = none :=
        Array.getElem?_eq_none (Nat.not_lt.mp hsize)
      simp [layer?, hrecord, hsize]
  · simp [heq]

theorem layer?_modifyLayer (change : Layer → Layer) :
    (hierarchy.modifyLayer slot change).layer? other =
      if other = slot then (hierarchy.layer? slot).map change else hierarchy.layer? other := by
  rw [modifyLayer, layer?_modify]
  split
  · rw [layer?]
    cases hierarchy.records[slot]? <;> rfl
  · rfl

end LayeredMachines.Hierarchy
