import LayeredMachines.Instant.Calendar
import Mathlib.Data.Nat.Basic
import Mathlib.Tactic.SplitIfs

/-!
# The calendar and its day numbers

Every day, as far before or after 1970 as one likes, has a date that exists in the calendar, and its
number can be told from the date. Its year is the one that has begun on that day while the next one
has not, its month the one that the days of the year that have passed reach into.
-/

namespace LayeredMachines

namespace Date

variable {lengths : List Nat} {offset : Nat} {date : Date}

/-- The number of days of months with the given lengths. -/
def daysOf (lengths : List Nat) : Nat :=
  lengths.foldl Nat.add 0

@[simp] theorem daysOf_nil : daysOf [] = 0 := rfl

@[simp] theorem daysOf_cons (length : Nat) (lengths : List Nat) :
    daysOf (length :: lengths) = length + daysOf lengths := by
  have hfrom (start : Nat) : lengths.foldl Nat.add start = start + daysOf lengths := by
    rw [daysOf]
    induction lengths generalizing start with
    | nil => rfl
    | cons length rest ih =>
      rw [List.foldl_cons, List.foldl_cons, ih, ih (Nat.add 0 length)]
      simp only [Nat.add_eq]
      omega
  rw [daysOf, List.foldl_cons, hfrom, Nat.add_eq, Nat.zero_add]

/-! ### Years -/

/-- A year ends where the next one begins. -/
theorem yearStart_succ (year : Int) :
    yearStart (year + 1) = yearStart year + daysOf (monthLengths (isLeap year)) := by
  have hcommon : daysOf (monthLengths false) = 365 := rfl
  have hleap : daysOf (monthLengths true) = 366 := rfl
  cases h : isLeap year with
  | false =>
    simp only [isLeap, Bool.and_eq_false_iff, Bool.or_eq_false_iff, beq_eq_false_iff_ne,
      bne_eq_false_iff_eq] at h
    rw [hcommon]
    simp only [yearStart]
    omega
  | true =>
    simp only [isLeap, Bool.and_eq_true, Bool.or_eq_true, beq_iff_eq, bne_iff_ne] at h
    rw [hleap]
    simp only [yearStart]
    omega

/-- The first day of a year is off by less than two days from where it would be if all years were
equally long. -/
theorem yearStart_bounds (year : Int) :
    146097 * (year - 1970) - 800 < 400 * yearStart year ∧
      400 * yearStart year < 146097 * (year - 1970) + 800 := by
  simp only [yearStart]
  omega

/-- A day is in its year. -/
theorem yearStart_yearOf (number : Int) :
    yearStart (yearOf number) ≤ number ∧ number < yearStart (yearOf number + 1) := by
  simp only [yearOf]
  generalize hestimate : 400 * number / 146097 + 1970 = estimate
  -- The estimate is right if all years are equally long, so it is off by one year at most.
  have hbefore := yearStart_bounds (estimate - 1)
  have hafter := yearStart_bounds (estimate + 1 + 1)
  split_ifs with hearly hlate
  · rw [Int.sub_add_cancel]
    omega
  · omega
  · omega

/-! ### Months -/

/-- The days before a day of the year are those of whole months and the days before it in its own
month. -/
theorem monthOf_eq (month : Nat) (hoffset : offset < daysOf lengths) :
    ∃ passed length day, monthOf month lengths offset = (month + passed, day) ∧
      lengths[passed]? = some length ∧ 1 ≤ day ∧ day ≤ length ∧
      daysOf (lengths.take passed) + day = offset + 1 := by
  induction lengths generalizing month offset with
  | nil => exact absurd hoffset (Nat.not_lt_zero _)
  | cons length rest ih =>
    rw [daysOf_cons] at hoffset
    rw [monthOf]
    split
    · next hfirst => exact ⟨0, length, offset + 1, rfl, rfl, by omega, by omega, by simp⟩
    · next hfirst =>
      have hbehind : offset - length < daysOf rest := by omega
      obtain ⟨passed, length', day, hmonth, hlength, hday, hle, hdays⟩ := ih (month + 1) hbehind
      refine ⟨passed + 1, length', day, ?_, ?_, hday, hle, ?_⟩
      · rw [hmonth, Nat.add_assoc, Nat.add_comm 1]
      · rw [List.getElem?_cons_succ, hlength]
      · rw [List.take_succ_cons, daysOf_cons]
        omega

/-! ### Dates -/

/-- A date that exists is within the months of its year and the days of its month. -/
theorem isValid_iff : date.isValid ↔
    1 ≤ date.month ∧ 1 ≤ date.day ∧
      ∃ length, (monthLengths (isLeap date.year))[date.month - 1]? = some length ∧
        date.day ≤ length := by
  rw [isValid]
  split
  · next length hlength => simp [hlength, and_assoc]
  · next hnone => simp [hnone]

/-- Months and days have two digits. -/
theorem lt_of_isValid (hvalid : date.isValid) : date.month < 100 ∧ date.day < 100 := by
  obtain ⟨_, _, length, hlength, hle⟩ := isValid_iff.mp hvalid
  have hmonth : date.month - 1 < 12 := by
    obtain ⟨hlt, _⟩ := List.getElem?_eq_some_iff.mp hlength
    simpa [monthLengths] using hlt
  have hmost : ∀ length ∈ monthLengths (isLeap date.year), length ≤ 31 := by
    cases isLeap date.year <;> decide
  have hday := hmost length (List.mem_of_getElem? hlength)
  omega

/-- The date of a day exists, is in the year of the day, and has its number. -/
theorem ofDayNumber_spec (number : Int) :
    (ofDayNumber number).isValid ∧ (ofDayNumber number).year = yearOf number ∧
      (ofDayNumber number).dayNumber = number := by
  obtain ⟨hbegun, hnext⟩ := yearStart_yearOf number
  rw [yearStart_succ] at hnext
  have hoffset : (number - yearStart (yearOf number)).toNat <
      daysOf (monthLengths (isLeap (yearOf number))) := by omega
  obtain ⟨passed, length, day, hmonth, hlength, hday, hle, hdays⟩ := monthOf_eq 1 hoffset
  have hdate : ofDayNumber number = ⟨yearOf number, 1 + passed, day⟩ := by
    simp only [ofDayNumber, hmonth]
  rw [hdate]
  refine ⟨isValid_iff.mpr ⟨Nat.le_add_right .., hday, length, ?_, hle⟩, rfl, ?_⟩
  · simpa using hlength
  · simp only [dayNumber, Nat.add_sub_cancel_left]
    rw [← daysOf]
    omega

end Date

end LayeredMachines
