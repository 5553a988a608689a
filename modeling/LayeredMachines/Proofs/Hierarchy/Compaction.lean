import LayeredMachines.Proofs.Hierarchy.Embedding

/-!
# Compaction

Compaction keeps the attached records and all their ancestors, in their order, and links each of
them to the new slot of its parent. This file proves that the compacted hierarchy embeds into
the one that it was made from. The order of the slots is what makes this work: it guarantees that
the parent of a record that is kept is kept as well.
-/

namespace LayeredMachines.Hierarchy

variable {hierarchy : Hierarchy} {slot : Nat}

/-- Every layer is in its record. -/
def IsFull (hierarchy : Hierarchy) : Prop :=
  ∀ slot < hierarchy.size, (hierarchy.layer? slot).isSome

/-- Every record is attached or above an attached one. -/
def IsCompact (hierarchy : Hierarchy) : Prop :=
  ∀ slot < hierarchy.size, hierarchy.isKept slot = true

/-- The slot that the record in a slot of the compacted hierarchy comes from. Slots that are free
in both hierarchies correspond in order. -/
def origin (hierarchy : Hierarchy) (slot : Nat) : Nat :=
  if h : slot < hierarchy.keptSlots.length then hierarchy.keptSlots[slot]
  else hierarchy.size + (slot - hierarchy.keptSlots.length)

/-! ### The records that are kept -/

theorem mem_keptSlots :
    slot ∈ hierarchy.keptSlots ↔ slot < hierarchy.size ∧ hierarchy.isKept slot = true := by
  rw [keptSlots, List.mem_filter, List.mem_range]

/-- A record is kept if and only if it is attached or an attached one is below it. -/
theorem isKept_iff :
    hierarchy.isKept slot = true ↔ hierarchy.isAttached slot = true ∨
      ∃ below, hierarchy.isAttached below = true ∧ slot ∈ hierarchy.ancestors below := by
  simp [isKept, List.eq_nil_iff_forall_not_mem]

/-- The parent of a record that is kept is kept. -/
theorem Ordered.parent_mem_keptSlots (hordered : hierarchy.Ordered) {parent : Nat}
    (hslot : slot ∈ hierarchy.keptSlots) (hparent : hierarchy.parent? slot = some parent) :
    parent ∈ hierarchy.keptSlots := by
  obtain ⟨hsize, hkept⟩ := mem_keptSlots.mp hslot
  have hlt := hordered.parent_lt hparent
  refine mem_keptSlots.mpr ⟨by omega, isKept_iff.mpr (.inr ?_)⟩
  rcases isKept_iff.mp hkept with hattached | ⟨below, hattached, habove⟩
  · exact ⟨slot, hattached, hordered.mem_ancestors_iff.mpr (.single hparent)⟩
  · have hbelow := (hordered.mem_ancestors_iff.mp habove).tail hparent
    exact ⟨below, hattached, hordered.mem_ancestors_iff.mpr hbelow⟩

/-- The records of slots that are there stand in the order of the slots. -/
private theorem getElem?_filterMap_records {slots : List Nat}
    (hslots : ∀ kept ∈ slots, kept < hierarchy.size) (n : Nat) :
    (slots.filterMap fun kept => hierarchy.records[kept]?)[n]? =
      slots[n]?.bind fun kept => hierarchy.records[kept]? := by
  induction slots generalizing n with
  | nil => rfl
  | cons kept rest ih =>
    have hkept : kept < hierarchy.records.size := hslots kept List.mem_cons_self
    have hrest : ∀ other ∈ rest, other < hierarchy.size :=
      fun other h => hslots other (List.mem_cons_of_mem _ h)
    have hsome : hierarchy.records[kept]? = some hierarchy.records[kept] :=
      Array.getElem?_eq_getElem hkept
    rw [List.filterMap_cons_some hsome]
    cases n with
    | zero => simp [hsome]
    | succ n => simpa using ih hrest n

/-- The record in a slot of the compacted hierarchy is the one that was kept there, with the link
to its parent changed. -/
theorem records_compact (hierarchy : Hierarchy) (slot : Nat) :
    hierarchy.compact.records[slot]? = hierarchy.keptSlots[slot]?.bind fun kept =>
      hierarchy.records[kept]?.map fun record =>
        { record with parent := record.parent.bind fun parent =>
            hierarchy.keptSlots.idxOf? parent } := by
  simp only [compact, List.getElem?_toArray, List.getElem?_map]
  rw [getElem?_filterMap_records fun kept h => (mem_keptSlots.mp h).1, Option.map_bind]
  rfl

@[simp] theorem size_compact (hierarchy : Hierarchy) :
    hierarchy.compact.size = hierarchy.keptSlots.length := by
  have hbound (slot : Nat) :
      slot < hierarchy.compact.size ↔ slot < hierarchy.keptSlots.length := by
    have hsome : (hierarchy.compact.records[slot]?).isSome ↔
        slot < hierarchy.compact.records.size := by simp
    rw [size, ← hsome, records_compact]
    by_cases hslot : slot < hierarchy.keptSlots.length
    · have hkept := (mem_keptSlots.mp (List.getElem_mem hslot)).1
      have hrecord := Array.getElem?_eq_getElem hkept
      simp [hslot, hrecord]
    · simp [hslot]
  exact Nat.le_antisymm (Nat.le_of_not_lt fun h => Nat.lt_irrefl _ ((hbound _).mp h))
    (Nat.le_of_not_lt fun h => Nat.lt_irrefl _ ((hbound _).mpr h))

/-- A record that is kept has the new slot of its parent. -/
theorem parent?_compact (hierarchy : Hierarchy) (slot : Nat) :
    hierarchy.compact.parent? slot = hierarchy.keptSlots[slot]?.bind fun kept =>
      (hierarchy.parent? kept).bind fun parent => hierarchy.keptSlots.idxOf? parent := by
  rw [parent?, records_compact]
  cases hierarchy.keptSlots[slot]? with
  | none => rfl
  | some kept => cases hrecord : hierarchy.records[kept]? <;> simp [parent?, hrecord]

/-- A record that is kept stays attached or detached. -/
theorem isAttached_compact (hierarchy : Hierarchy) (slot : Nat) :
    hierarchy.compact.isAttached slot = hierarchy.keptSlots[slot]?.any hierarchy.isAttached := by
  rw [isAttached, records_compact]
  cases hierarchy.keptSlots[slot]? with
  | none => rfl
  | some kept => cases hrecord : hierarchy.records[kept]? <;> simp [isAttached, hrecord]

/-- A record that is kept keeps its layer. -/
theorem layer?_compact (hierarchy : Hierarchy) (slot : Nat) :
    hierarchy.compact.layer? slot = hierarchy.keptSlots[slot]?.bind hierarchy.layer? := by
  rw [layer?, records_compact]
  cases hierarchy.keptSlots[slot]? with
  | none => rfl
  | some kept => cases hrecord : hierarchy.records[kept]? <;> simp [layer?, hrecord]

/-! ### The compacted hierarchy embeds -/

theorem origin_of_lt (hslot : slot < hierarchy.keptSlots.length) :
    hierarchy.origin slot = hierarchy.keptSlots[slot] :=
  dif_pos hslot

theorem origin_of_le (hslot : hierarchy.keptSlots.length ≤ slot) :
    hierarchy.origin slot = hierarchy.size + (slot - hierarchy.keptSlots.length) :=
  dif_neg (Nat.not_lt.mpr hslot)

theorem strictMono_origin (hierarchy : Hierarchy) : StrictMono hierarchy.origin := by
  refine strictMono_nat_of_lt_succ fun slot => ?_
  have hsorted : hierarchy.keptSlots.Pairwise (· < ·) := List.pairwise_lt_range.filter _
  by_cases hnext : slot + 1 < hierarchy.keptSlots.length
  · rw [origin_of_lt (by omega), origin_of_lt hnext]
    exact List.pairwise_iff_getElem.mp hsorted slot (slot + 1) (by omega) hnext (by omega)
  · rw [origin_of_le (Nat.not_lt.mp hnext)]
    by_cases hslot : slot < hierarchy.keptSlots.length
    · have hkept := (mem_keptSlots.mp (List.getElem_mem hslot)).1
      rw [origin_of_lt hslot]
      omega
    · rw [origin_of_le (Nat.not_lt.mp hslot)]
      omega

/-- Beyond the records of the compacted hierarchy come the slots beyond those of the other. -/
theorem records_origin (hierarchy : Hierarchy) (slot : Nat) :
    hierarchy.records[hierarchy.origin slot]? =
      hierarchy.keptSlots[slot]?.bind (hierarchy.records[·]?) := by
  by_cases hslot : slot < hierarchy.keptSlots.length
  · rw [origin_of_lt hslot, List.getElem?_eq_getElem hslot, Option.bind_some]
  · have hnone : hierarchy.records[hierarchy.origin slot]? = none := by
      rw [origin_of_le (Nat.not_lt.mp hslot)]
      exact Array.getElem?_eq_none (Nat.le_add_right _ _)
    rw [hnone, List.getElem?_eq_none (Nat.not_lt.mp hslot), Option.bind_none]

/-- The new slot of a record that is kept is the one that it is the origin of. -/
theorem map_origin_idxOf? (hslot : slot ∈ hierarchy.keptSlots) :
    (hierarchy.keptSlots.idxOf? slot).map hierarchy.origin = some slot := by
  cases hindex : hierarchy.keptSlots.idxOf? slot with
  | none => exact absurd hslot (List.idxOf?_eq_none_iff.mp hindex)
  | some index =>
    obtain ⟨hlt, heq, _⟩ := List.idxOf?_eq_some_iff.mp hindex
    rw [Option.map_some, origin_of_lt hlt, heq]

/-- The compacted hierarchy embeds into the one that it is made from. -/
theorem Ordered.embeds_compact (hordered : hierarchy.Ordered) :
    Embeds hierarchy.origin hierarchy.compact hierarchy where
  strictMono := hierarchy.strictMono_origin
  place_size_add n := by
    rw [size_compact, origin_of_le (Nat.le_add_right _ _), Nat.add_sub_cancel_left]
  parent?_place slot := by
    rw [parent?, records_origin, parent?_compact]
    cases hkept : hierarchy.keptSlots[slot]? with
    | none => rfl
    | some kept =>
      rw [Option.bind_some, Option.bind_some, ← parent?]
      cases hparent : hierarchy.parent? kept with
      | none => rfl
      | some parent =>
        have hmem := hordered.parent_mem_keptSlots (List.mem_of_getElem? hkept) hparent
        rw [Option.bind_some, map_origin_idxOf? hmem]
  isAttached_place slot := by
    rw [isAttached, records_origin, isAttached_compact]
    cases hierarchy.keptSlots[slot]? <;> rfl
  layer?_place slot := by
    rw [layer?, records_origin, layer?_compact]
    cases hierarchy.keptSlots[slot]? <;> rfl
  not_attached slot hslot := by
    by_contra hattached
    have htrue : hierarchy.isAttached slot = true := by simpa using hattached
    have hmem : slot ∈ hierarchy.keptSlots :=
      mem_keptSlots.mpr ⟨lt_size_of_isAttached htrue, isKept_iff.mpr (.inl htrue)⟩
    obtain ⟨index, _, heq⟩ := Option.map_eq_some_iff.mp (map_origin_idxOf? hmem)
    exact hslot index heq

/-- Compaction keeps the order. -/
theorem Ordered.compact (hordered : hierarchy.Ordered) : hierarchy.compact.Ordered :=
  hordered.embeds_compact.ordered hordered

/-- Compaction loses no layer from its record. -/
theorem IsFull.compact (hfull : hierarchy.IsFull) (hordered : hierarchy.Ordered) :
    hierarchy.compact.IsFull := by
  intro slot hslot
  rw [← hordered.embeds_compact.layer?_place]
  exact hfull _ (hordered.embeds_compact.place_lt_iff.mpr hslot)

/-- After a compaction there is nothing left to drop. -/
theorem Ordered.isCompact_compact (hordered : hierarchy.Ordered) : hierarchy.compact.IsCompact := by
  intro slot hslot
  rw [← hordered.embeds_compact.isKept_place]
  rw [size_compact] at hslot
  rw [origin_of_lt hslot]
  exact (mem_keptSlots.mp (List.getElem_mem hslot)).2

/-- A number stands in its own place among the numbers from zero on. -/
private theorem idxOf?_range {slot size : Nat} (hslot : slot < size) :
    (List.range size).idxOf? slot = some slot := by
  refine List.idxOf?_eq_some_iff.mpr ⟨by rwa [List.length_range], List.getElem_range _, ?_⟩
  intro other hother
  rw [List.getElem_range]
  exact Nat.ne_of_lt hother

/-- Where there is nothing to drop, compaction changes nothing. -/
theorem Ordered.compact_eq_self (hordered : hierarchy.Ordered) (hcompact : hierarchy.IsCompact) :
    hierarchy.compact = hierarchy := by
  have hkept : hierarchy.keptSlots = List.range hierarchy.size :=
    List.filter_eq_self.mpr fun slot hslot => hcompact slot (List.mem_range.mp hslot)
  have hrecords : hierarchy.compact.records = hierarchy.records := by
    refine Array.ext_getElem? fun slot => ?_
    rw [records_compact, hkept]
    by_cases hslot : slot < hierarchy.size
    · rw [List.getElem?_range hslot, Option.bind_some]
      cases hrecord : hierarchy.records[slot]? with
      | none => rfl
      | some record =>
        have hlink : hierarchy.parent? slot = record.parent := by
          rw [parent?, hrecord, Option.bind_some]
        have hsame : (record.parent.bind fun parent =>
            (List.range hierarchy.size).idxOf? parent) = record.parent := by
          cases hparent : record.parent with
          | none => rfl
          | some parent =>
            have hlt := hordered.parent_lt (hlink.trans hparent)
            rw [Option.bind_some, idxOf?_range (Nat.lt_trans hlt hslot)]
        rw [Option.map_some, hsame]
    · have hsize : hierarchy.size ≤ slot := Nat.not_lt.mp hslot
      rw [List.getElem?_eq_none (by rwa [List.length_range]), Option.bind_none]
      exact (Array.getElem?_eq_none hsize).symm
  exact congrArg Hierarchy.mk hrecords

end LayeredMachines.Hierarchy
