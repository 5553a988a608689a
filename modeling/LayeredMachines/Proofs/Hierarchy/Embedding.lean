import LayeredMachines.Proofs.Hierarchy.Order
import Mathlib.Data.List.Sort
import Mathlib.Order.Monotone.Basic
import Mathlib.Order.WellFounded

/-!
# Hierarchies inside others

One hierarchy embeds into another if its records stand there in the same order, with the same
layers and with links to the same parents, among other records that are all detached. Whatever
is read from attached layers and their ancestors is then the same in both, up to the place of the
slots. Later layers take corresponding slots, so the operations keep the embedding.
-/

namespace LayeredMachines.Hierarchy

/-- The records of `small` stand in `large` at their places, and all others there are detached. -/
structure Embeds (place : Nat → Nat) (small large : Hierarchy) : Prop where
  strictMono : StrictMono place
  place_size_add : ∀ n, place (small.size + n) = large.size + n
  parent?_place : ∀ slot, large.parent? (place slot) = (small.parent? slot).map place
  isAttached_place : ∀ slot, large.isAttached (place slot) = small.isAttached slot
  layer?_place : ∀ slot, large.layer? (place slot) = small.layer? slot
  not_attached : ∀ slot, (∀ kept, place kept ≠ slot) → large.isAttached slot = false

namespace Embeds

variable {place next : Nat → Nat} {small middle large : Hierarchy} {slot : Nat}

/-- Every hierarchy embeds into itself. -/
theorem refl (hierarchy : Hierarchy) : Embeds id hierarchy hierarchy where
  strictMono := strictMono_id
  place_size_add _ := rfl
  parent?_place _ := Option.map_id.symm ▸ rfl
  isAttached_place _ := rfl
  layer?_place _ := rfl
  not_attached slot h := absurd rfl (h slot)

/-- An embedding can be followed by another one. -/
theorem trans (hfirst : Embeds place small middle) (hnext : Embeds next middle large) :
    Embeds (next ∘ place) small large where
  strictMono := hnext.strictMono.comp hfirst.strictMono
  place_size_add n := by
    rw [Function.comp_apply, hfirst.place_size_add, hnext.place_size_add]
  parent?_place slot := by
    rw [Function.comp_apply, hnext.parent?_place, hfirst.parent?_place, Option.map_map]
  isAttached_place slot := by
    rw [Function.comp_apply, hnext.isAttached_place, hfirst.isAttached_place]
  layer?_place slot := by
    rw [Function.comp_apply, hnext.layer?_place, hfirst.layer?_place]
  not_attached slot h := by
    by_cases hmiddle : ∃ kept, next kept = slot
    · obtain ⟨kept, rfl⟩ := hmiddle
      rw [hnext.isAttached_place]
      exact hfirst.not_attached kept fun first heq => h first (congrArg next heq)
    · exact hnext.not_attached slot fun kept heq => hmiddle ⟨kept, heq⟩

/-- Different slots have different places. -/
theorem place_eq_iff (h : Embeds place small large) {a b : Nat} : place a = place b ↔ a = b :=
  h.strictMono.injective.eq_iff

/-- The next slot of the one hierarchy is placed at the next slot of the other. -/
theorem place_size (h : Embeds place small large) : place small.size = large.size :=
  h.place_size_add 0

/-- The slots of a hierarchy are placed at slots of the other. -/
theorem place_lt_iff (h : Embeds place small large) :
    place slot < large.size ↔ slot < small.size := by
  rw [← h.place_size, h.strictMono.lt_iff_lt]

/-! ### What is read through an embedding -/

/-- The attached layers are the same, in the same order. -/
theorem attachedSlots_eq (h : Embeds place small large) :
    large.attachedSlots = small.attachedSlots.map place := by
  have hsmall : (small.attachedSlots.map place).Pairwise (· < ·) :=
    small.pairwise_attachedSlots.map place fun _ _ hlt => h.strictMono hlt
  refine large.pairwise_attachedSlots.eq_of_mem_iff hsmall fun slot => ?_
  rw [mem_attachedSlots, List.mem_map]
  constructor
  · intro hattached
    by_contra hnone
    have hdetached := h.not_attached slot fun kept heq => hnone
      ⟨kept, mem_attachedSlots.mpr (by rw [← h.isAttached_place, heq]; exact hattached), heq⟩
    simp [hdetached] at hattached
  · rintro ⟨kept, hkept, rfl⟩
    rw [h.isAttached_place]
    exact mem_attachedSlots.mp hkept

/-- The number of attached layers is the same. -/
theorem attachedCount_eq (h : Embeds place small large) :
    large.attachedCount = small.attachedCount := by
  simp [attachedCount, h.attachedSlots_eq]

/-- The ancestors are the same. -/
theorem ancestors_place (h : Embeds place small large) (slot : Nat) :
    large.ancestors (place slot) = (small.ancestors slot).map place := by
  induction slot using Nat.strongRecOn with
  | ind slot ih =>
    rw [ancestors, ancestors, h.parent?_place]
    cases small.parent? slot with
    | none => rfl
    | some parent =>
      simp only [Option.map_some, h.strictMono.lt_iff_lt]
      split
      · next hlt => rw [ih parent hlt, List.map_cons]
      · rfl

/-- The descendants are the same. -/
theorem descendants_place (h : Embeds place small large) (slot : Nat) :
    large.descendants (place slot) = (small.descendants slot).map place := by
  rw [descendants, descendants, h.attachedSlots_eq, List.filter_map]
  congr 1
  refine List.filter_congr fun below _ => ?_
  simp only [Function.comp_apply, h.ancestors_place, List.contains_eq_mem,
    List.mem_map_of_injective h.strictMono.injective]

/-- A record is kept in both hierarchies or in none. -/
theorem isKept_place (h : Embeds place small large) (slot : Nat) :
    large.isKept (place slot) = small.isKept slot := by
  simp [isKept, h.isAttached_place, h.descendants_place]

/-- The layer with an identity is found at its place. -/
theorem find?_eq (h : Embeds place small large) (id : LayerId) :
    large.find? id = (small.find? id).map place := by
  simp only [find?, h.attachedSlots_eq, List.find?_map, Function.comp_def, h.layer?_place]

/-- An attached root is placed at the root. -/
theorem place_zero (h : Embeds place small large) (hroot : large.isAttached 0 = true) :
    place 0 = 0 := by
  by_contra hzero
  have hdetached : large.isAttached 0 = false := by
    refine h.not_attached 0 fun kept heq => hzero ?_
    have hle : kept ≤ place kept := h.strictMono.le_apply
    rw [heq, Nat.le_zero] at hle
    exact hle ▸ heq
  simp [hdetached] at hroot

/-- A hierarchy inside an ordered one is ordered. -/
theorem ordered (h : Embeds place small large) (hlarge : large.Ordered) : small.Ordered := by
  have hplace (hsize : 0 < small.size) : place 0 = 0 :=
    h.place_zero (hlarge.root_attached (Nat.zero_lt_of_lt (h.place_lt_iff.mpr hsize)))
  constructor
  · intro slot parent hparent
    have hlarger : large.parent? (place slot) = some (place parent) := by
      rw [h.parent?_place, hparent, Option.map_some]
    exact h.strictMono.lt_iff_lt.mp (hlarge.parent_lt hlarger)
  · intro slot hslot
    have hzero := hplace (Nat.zero_lt_of_lt hslot)
    rw [← h.place_eq_iff (b := 0), hzero,
      ← hlarge.parent?_eq_none (h.place_lt_iff.mpr hslot), h.parent?_place, Option.map_eq_none_iff]
  · intro hsize
    rw [← h.isAttached_place, hplace hsize]
    exact hlarge.root_attached (Nat.zero_lt_of_lt (h.place_lt_iff.mpr hsize))

/-! ### Operations keep an embedding -/

/-- A new layer below corresponding parents is placed at the next slot. -/
theorem attach (h : Embeds place small large) (parent : Option Nat) (layer : Layer) :
    Embeds place (small.attach parent layer) (large.attach (parent.map place) layer) where
  strictMono := h.strictMono
  place_size_add n := by
    rw [size_attach, size_attach, Nat.add_assoc, h.place_size_add, Nat.add_assoc]
  parent?_place slot := by
    simp only [parent?_attach, ← h.place_size, h.place_eq_iff, h.parent?_place]
    split <;> rfl
  isAttached_place slot := by
    simp only [isAttached_attach, ← h.place_size, h.place_eq_iff, h.isAttached_place]
  layer?_place slot := by
    simp only [layer?_attach, ← h.place_size, h.place_eq_iff, h.layer?_place]
  not_attached slot hslot := by
    rw [isAttached_attach, if_neg fun heq => hslot small.size (h.place_size.trans heq.symm)]
    exact h.not_attached slot hslot

/-- Corresponding layers can be detached. -/
theorem detach (h : Embeds place small large) (slot : Nat) :
    Embeds place (small.detach slot) (large.detach (place slot)) where
  strictMono := h.strictMono
  place_size_add n := by rw [size_detach, size_detach, h.place_size_add]
  parent?_place other := by rw [parent?_detach, parent?_detach, h.parent?_place]
  isAttached_place other := by
    simp only [isAttached_detach, h.place_eq_iff, h.parent?_place, h.isAttached_place,
      Option.isSome_map]
  layer?_place other := by rw [layer?_detach, layer?_detach, h.layer?_place]
  not_attached other hother := by
    rw [isAttached_detach]
    split
    · rfl
    · exact h.not_attached other hother

/-- Changes of the layers alone keep an embedding if they correspond. -/
private theorem changeLayers (h : Embeds place small large) {small' large' : Hierarchy}
    (hsmall : small'.size = small.size) (hlarge : large'.size = large.size)
    (hsmallParent : ∀ slot, small'.parent? slot = small.parent? slot)
    (hlargeParent : ∀ slot, large'.parent? slot = large.parent? slot)
    (hsmallAttached : ∀ slot, small'.isAttached slot = small.isAttached slot)
    (hlargeAttached : ∀ slot, large'.isAttached slot = large.isAttached slot)
    (hlayer : ∀ slot, large'.layer? (place slot) = small'.layer? slot) :
    Embeds place small' large' where
  strictMono := h.strictMono
  place_size_add n := by rw [hsmall, hlarge, h.place_size_add]
  parent?_place slot := by rw [hlargeParent, hsmallParent, h.parent?_place]
  isAttached_place slot := by rw [hlargeAttached, hsmallAttached, h.isAttached_place]
  layer?_place := hlayer
  not_attached slot hslot := by rw [hlargeAttached, h.not_attached slot hslot]

/-- Corresponding layers can be taken out. -/
theorem take (h : Embeds place small large) (slot : Nat) :
    Embeds place (small.take slot) (large.take (place slot)) :=
  h.changeLayers size_take size_take (fun _ => parent?_take) (fun _ => parent?_take)
    (fun _ => isAttached_take) (fun _ => isAttached_take) fun other => by
      simp only [layer?_take, h.place_eq_iff, h.layer?_place]

/-- The same layer can be put into corresponding slots. -/
theorem restore (h : Embeds place small large) (slot : Nat) (layer : Layer) :
    Embeds place (small.restore slot layer) (large.restore (place slot) layer) :=
  h.changeLayers (size_restore layer) (size_restore layer) (fun _ => parent?_restore layer)
    (fun _ => parent?_restore layer) (fun _ => isAttached_restore layer)
    (fun _ => isAttached_restore layer) fun other => by
      simp only [layer?_restore, h.place_eq_iff, h.place_lt_iff, h.layer?_place]

/-- Corresponding layers can be changed alike. -/
theorem modifyLayer (h : Embeds place small large) (slot : Nat) (change : Layer → Layer) :
    Embeds place (small.modifyLayer slot change) (large.modifyLayer (place slot) change) :=
  h.changeLayers (size_modifyLayer change) (size_modifyLayer change)
    (fun _ => parent?_modifyLayer change) (fun _ => parent?_modifyLayer change)
    (fun _ => isAttached_modifyLayer change) (fun _ => isAttached_modifyLayer change)
    fun other => by simp only [layer?_modifyLayer, h.place_eq_iff, h.layer?_place]

end Embeds

end LayeredMachines.Hierarchy
