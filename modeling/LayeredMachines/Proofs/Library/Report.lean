import LayeredMachines.Proofs.Machine.Validity

/-!
# The report of a library

The check of a library runs through its document once and writes down a violation wherever it finds
one. This file keeps the place of each violation beside it. No place is visited twice, and what is
found at a place is what the library has wrong there, said without regard to the check.
-/

namespace LayeredMachines

/-- A violation with its place in the document: the numbers that lead there from the outside. -/
abbrev Finding : Type := List Nat × Violation

/-- The findings of a check, in their order. -/
abbrev Report : Type := List Finding

/-- A finding comes before another one in the order of the document. -/
def Finding.Before (first next : Finding) : Prop :=
  List.Lex (· < ·) first.1 next.1

namespace Report

variable {α : Type} {place : List Nat} {violation : Violation}

/-- What is found at a place that has no places below it. -/
def ofCheck (violations : List Violation) : Report :=
  violations.map ([], ·)

/-- What is found below a place. -/
def under (report : Report) (number : Nat) : Report :=
  report.map fun finding => (number :: finding.1, finding.2)

/-- What is found in the items of a list, one after the other. -/
def ofItems (items : List α) (report : α → Nat → Report) : Report :=
  items.zipIdx.flatMap fun (item, position) => (report item position).under position

/-- What is found in several respects, one after the other. -/
def ofParts (parts : List Report) : Report :=
  ofItems parts fun part _ => part

/-! ### What is in a report -/

theorem mem_ofCheck {violations : List Violation} :
    (place, violation) ∈ ofCheck violations ↔ place = [] ∧ violation ∈ violations := by
  simp only [ofCheck, List.mem_map, Prod.mk.injEq]
  constructor
  · rintro ⟨found, hfound, rfl, rfl⟩
    exact ⟨rfl, hfound⟩
  · rintro ⟨rfl, hviolation⟩
    exact ⟨violation, hviolation, rfl, rfl⟩

theorem mem_under {report : Report} {number : Nat} :
    (place, violation) ∈ report.under number ↔
      ∃ rest, place = number :: rest ∧ (rest, violation) ∈ report := by
  simp only [under, List.mem_map, Prod.mk.injEq]
  constructor
  · rintro ⟨⟨rest, _⟩, hmem, rfl, rfl⟩
    exact ⟨rest, rfl, hmem⟩
  · rintro ⟨rest, rfl, hmem⟩
    exact ⟨(rest, violation), hmem, rfl, rfl⟩

theorem mem_ofItems {items : List α} {report : α → Nat → Report} :
    (place, violation) ∈ ofItems items report ↔
      ∃ position item rest, items[position]? = some item ∧ place = position :: rest ∧
        (rest, violation) ∈ report item position := by
  simp only [ofItems, List.mem_flatMap, mem_under]
  constructor
  · rintro ⟨⟨item, position⟩, hitem, rest, rfl, hmem⟩
    exact ⟨position, item, rest, List.mem_zipIdx_iff_getElem?.mp hitem, rfl, hmem⟩
  · rintro ⟨position, item, rest, hitem, rfl, hmem⟩
    exact ⟨(item, position), List.mem_zipIdx_iff_getElem?.mpr hitem, rest, rfl, hmem⟩

theorem mem_ofParts {parts : List Report} :
    (place, violation) ∈ ofParts parts ↔
      ∃ position part rest, parts[position]? = some part ∧ place = position :: rest ∧
        (rest, violation) ∈ part :=
  mem_ofItems

/-! ### The order of a report -/

/-- The findings follow each other in the order of the document, and no two are at one place. -/
def IsOrdered (report : Report) : Prop :=
  report.Pairwise Finding.Before

theorem isOrdered_ofCheck {violations : List Violation} (hlength : violations.length ≤ 1) :
    (ofCheck violations).IsOrdered := by
  match violations, hlength with
  | [], _ => exact .nil
  | [violation], _ => exact List.pairwise_singleton _ _

theorem IsOrdered.under {report : Report} (hreport : report.IsOrdered) (number : Nat) :
    (report.under number).IsOrdered :=
  hreport.map _ fun _ _ hbefore => List.Lex.cons hbefore

/-- The positions of the items of a list grow. -/
private theorem pairwise_zipIdx (items : List α) :
    items.zipIdx.Pairwise fun first next => first.2 < next.2 := by
  have hpositions : (items.zipIdx.map Prod.snd).Pairwise (· < ·) := by
    rw [List.zipIdx_map_snd]
    exact List.pairwise_lt_range'
  exact List.pairwise_map.mp hpositions

theorem isOrdered_ofItems {items : List α} {report : α → Nat → Report}
    (hreport : ∀ position item, items[position]? = some item →
      (report item position).IsOrdered) :
    (ofItems items report).IsOrdered := by
  refine List.pairwise_flatMap.mpr ⟨?_, ?_⟩
  · rintro ⟨item, position⟩ hitem
    exact (hreport position item (List.mem_zipIdx_iff_getElem?.mp hitem)).under position
  · refine (pairwise_zipIdx items).imp ?_
    rintro ⟨first, i⟩ ⟨next, j⟩ hlt ⟨place, violation⟩ hfirst ⟨later, other⟩ hnext
    obtain ⟨rest, rfl, _⟩ := mem_under.mp hfirst
    obtain ⟨more, rfl, _⟩ := mem_under.mp hnext
    exact List.Lex.rel hlt

theorem isOrdered_ofParts {parts : List Report} (hparts : ∀ part ∈ parts, part.IsOrdered) :
    (ofParts parts).IsOrdered :=
  isOrdered_ofItems fun _ part hpart => hparts part (List.mem_of_getElem? hpart)

/-! ### The violations of a report -/

theorem map_snd_ofCheck (violations : List Violation) :
    (ofCheck violations).map Prod.snd = violations := by
  rw [ofCheck, List.map_map]
  exact List.map_id violations

theorem map_snd_ofItems (items : List α) (report : α → Nat → Report) :
    (ofItems items report).map Prod.snd =
      items.zipIdx.flatMap fun entry => (report entry.1 entry.2).map Prod.snd := by
  simp only [ofItems, under, List.map_flatMap, List.map_map]
  rfl

/-- Where positions do not matter, a list need not be numbered. -/
theorem flatMap_zipIdx {β : Type} (items : List α) (next : α → List β) :
    (items.zipIdx.flatMap fun entry => next entry.1) = items.flatMap next := by
  have hmap := List.flatMap_map (f := Prod.fst) (g := next) (l := items.zipIdx)
  rw [← hmap, List.zipIdx_map_fst]

theorem map_snd_ofParts (parts : List Report) :
    (ofParts parts).map Prod.snd = parts.flatMap (List.map Prod.snd) := by
  rw [ofParts, map_snd_ofItems, flatMap_zipIdx]

/-- What is found in one item of a list is found at the places that begin with its position. -/
theorem countP_ofItems {items : List α} {report : α → Nat → Report} {position : Nat} {item : α}
    (hitem : items[position]? = some item) (counts : Violation → Bool) :
    (ofItems items report).countP
        (fun finding => finding.1.head? == some position && counts finding.2) =
      ((report item position).map Prod.snd).countP counts := by
  obtain ⟨hlt, rfl⟩ := List.getElem?_eq_some_iff.mp hitem
  have hsplit : items.zipIdx = items.zipIdx.take position ++
      (items[position], position) :: items.zipIdx.drop (position + 1) := by
    have hdrop := List.drop_eq_getElem_cons (l := items.zipIdx) (i := position) (by simpa using hlt)
    rw [List.getElem_zipIdx, Nat.zero_add] at hdrop
    rw [← hdrop, List.take_append_drop]
  -- The items on both sides have other positions.
  have hother {entries : List (α × Nat)} (hentries : ∀ entry ∈ entries, entry.2 ≠ position) :
      (entries.flatMap fun (item, n) => (report item n).under n).countP
        (fun finding => finding.1.head? == some position && counts finding.2) = 0 := by
    rw [List.countP_eq_zero]
    rintro ⟨place, violation⟩ hfinding
    obtain ⟨⟨other, n⟩, hentry, hunder⟩ := List.mem_flatMap.mp hfinding
    obtain ⟨rest, rfl, _⟩ := mem_under.mp hunder
    simp [hentries _ hentry]
  have hpositions := pairwise_zipIdx items
  rw [hsplit, List.pairwise_append, List.pairwise_cons] at hpositions
  obtain ⟨_, ⟨hafter, _⟩, hbefore⟩ := hpositions
  have hleft := hother fun entry hentry =>
    Nat.ne_of_lt (hbefore entry hentry _ List.mem_cons_self)
  have hright := hother fun entry hentry => Nat.ne_of_gt (hafter entry hentry)
  rw [ofItems, hsplit, List.flatMap_append, List.flatMap_cons, List.countP_append,
    List.countP_append, hleft, hright, Nat.zero_add, Nat.add_zero]
  simp only [under, List.countP_map]
  exact List.countP_congr fun finding _ => by simp

end Report

end LayeredMachines
