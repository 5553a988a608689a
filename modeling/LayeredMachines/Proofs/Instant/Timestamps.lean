import LayeredMachines.Instant.Timestamp
import LayeredMachines.Proofs.Instant.Calendar
import LayeredMachines.Proofs.Text.Decimal
import Mathlib.Data.List.TakeWhile

/-!
# Timestamps and their instants

An instant is read back from its timestamp. Every reader takes from the start of a timestamp what
was written for it, whatever stands behind, and the parts together make up the instant again.
-/

namespace LayeredMachines

namespace Instant

open Decimal (IsNumeral isNumeral_padded length_padded)

/-- The instant lies in a year that an instant can lie in, and its fraction is too large by a second
only if it is the last one of a minute, which a leap second follows. -/
structure IsRepresentable (time : Instant) : Prop where
  year : yearInRange (Date.yearOf (time.seconds / daySeconds))
  nanos : time.nanos < secondNanos ∨ time.seconds % 60 = 59 ∧ time.nanos < 2 * secondNanos

/-- An instant at a whole millisecond is not within a leap second. -/
theorem isRepresentable_ofMillis {millis : Int}
    (hyear : yearInRange (Date.yearOf (millis / 1000 / daySeconds))) :
    (ofMillis millis).IsRepresentable where
  year := hyear
  nanos := by
    left
    simp only [ofMillis, secondNanos]
    omega

variable {written rest : List Char} {c mark : Char} {n : Nat}

/-! ### Marks and numbers -/

/-- Digits are not blank. -/
theorem isBlank_of_isDigit (hc : c.isDigit = true) : isBlank c = false := by
  have hlt := (Decimal.digit_digitValue hc).1
  have hcode : 48 ≤ c.toNat := by
    rw [Char.isDigit, Bool.and_eq_true, decide_eq_true_eq] at hc
    exact UInt32.le_iff_toNat_le.mp hc.1
  rw [Decimal.digitValue] at hlt
  simp only [isBlank, Bool.or_eq_false_iff, Bool.and_eq_false_iff, decide_eq_false_iff_not,
    beq_eq_false_iff_ne]
  omega

/-- What does not begin with a blank character has none to leave out. -/
theorem trimStart_cons (hc : isBlank c = false) (rest : List Char) :
    trimStart (c :: rest) = c :: rest :=
  List.dropWhile_cons_of_neg (by simp [hc])

theorem readMark_cons (hmark : isBlank mark = false) (rest : List Char) :
    readMark mark (mark :: rest) = some ((), rest) := by
  rw [readMark, trimStart_cons hmark]
  exact if_pos rfl

/-- The digits of a numeral end before a character that is none. -/
theorem takeWhile_isDigit (h : IsNumeral written n) (hmark : mark.isDigit = false)
    (rest : List Char) : (written ++ mark :: rest).takeWhile Char.isDigit = written := by
  have hdigits : ∀ c ∈ written, c.isDigit = true := List.all_eq_true.mp h.all_isDigit
  rw [List.takeWhile_append_of_pos hdigits, List.takeWhile_cons_of_neg (by simp [hmark]),
    List.append_nil]

/-- Blank characters are left out before a numeral, which has none. -/
theorem trimStart_numeral (h : IsNumeral written n) (rest : List Char) :
    trimStart (written ++ rest) = written ++ rest := by
  obtain ⟨c, tail, rfl, hc⟩ := h.exists_eq_cons
  exact trimStart_cons (isBlank_of_isDigit hc) _

/-- A numeral with as many digits as may be read is read, whatever stands behind it. -/
theorem readNumber_append (h : IsNumeral written n) (rest : List Char) :
    readNumber written.length (written ++ rest) = some (n, rest) := by
  have hdigits : written.takeWhile Char.isDigit = written :=
    List.takeWhile_eq_self_iff.mpr (List.all_eq_true.mp h.all_isDigit)
  simp only [readNumber, trimStart_numeral h, List.take_left, hdigits, List.drop_left, h.value_eq]
  exact if_neg (by simpa using h.ne_nil)

theorem readNumber_padded {width : Nat} (hwidth : 1 ≤ width) (hn : n < Nat.pow 10 width)
    (rest : List Char) :
    readNumber width (Decimal.padded width n ++ rest) = some (n, rest) := by
  have hread := readNumber_append (isNumeral_padded width n) rest
  rwa [length_padded hwidth hn] at hread

/-- A numeral of any length is read, up to a character that is not a digit. -/
theorem readLongNumber_append (h : IsNumeral written n) (hmark : mark.isDigit = false)
    (rest : List Char) : readLongNumber (written ++ mark :: rest) = some (n, mark :: rest) := by
  rw [readLongNumber, takeWhile_isDigit h hmark]
  split
  · exact absurd rfl h.ne_nil
  · rw [List.drop_left, h.value_eq]

/-! ### Years and fractions -/

/-- A text that begins with a digit is read as a year of up to four digits. -/
theorem readYear_numeral (h : IsNumeral written n) (rest : List Char) :
    readYear (written ++ rest) =
      (readNumber 4 (written ++ rest)).map fun (year, rest) => ((year : Int), rest) := by
  have hsign {c : Char} (hc : c.isDigit = false) (rest' : List Char) :
      written ++ rest ≠ c :: rest' := by
    obtain ⟨d, tail, rfl, hd⟩ := h.exists_eq_cons
    rintro ⟨⟩
    rw [hc] at hd
    cases hd
  rw [readYear, trimStart_numeral h]
  split
  · next heq => exact absurd heq (hsign (by decide) _)
  · next heq => exact absurd heq (hsign (by decide) _)
  · rfl

/-- A year is read back, with any number of digits and a sign or with four digits and none. -/
theorem readYear_renderYear (year : Int) (hmark : mark.isDigit = false) (rest : List Char) :
    readYear (renderYear year ++ mark :: rest) = some (year, mark :: rest) := by
  have hlong := readLongNumber_append (isNumeral_padded 4 year.natAbs) hmark rest
  rw [renderYear]
  split
  · next hshort =>
    rw [Bool.and_eq_true, decide_eq_true_eq, decide_eq_true_eq] at hshort
    have hn : year.toNat < Nat.pow 10 4 := by
      have hpow : Nat.pow 10 4 = 10000 := rfl
      omega
    rw [readYear_numeral (isNumeral_padded 4 _), readNumber_padded (by decide) hn,
      Option.map_some]
    simp only [Int.toNat_of_nonneg hshort.1]
  · split
    · next hnegative =>
      rw [List.cons_append, readYear, trimStart_cons (by decide)]
      simp only [hlong, Option.map_some]
      rw [Int.ofNat_natAbs_of_nonpos (by omega), Int.neg_neg]
    · next hnegative =>
      rw [List.cons_append, readYear, trimStart_cons (by decide)]
      simp only [hlong, Option.map_some]
      rw [Int.natAbs_of_nonneg (by omega)]

/-- Up to nine digits behind a point are a fraction in nanoseconds. -/
theorem readFraction_padded {width : Nat} (hwidth : 1 ≤ width) (hle : width ≤ 9)
    (hn : n < Nat.pow 10 width) (hmark : mark.isDigit = false) (rest : List Char) :
    readFraction ('.' :: Decimal.padded width n ++ mark :: rest) =
      some (n * Nat.pow 10 (9 - width), mark :: rest) := by
  have hnumeral := isNumeral_padded width n
  have hlength := length_padded hwidth hn
  have hkept : (Decimal.padded width n).take 9 = Decimal.padded width n :=
    List.take_of_length_le (by omega)
  simp only [List.cons_append, readFraction, takeWhile_isDigit hnumeral hmark, hkept,
    hnumeral.value_eq, hlength, List.drop_left' hlength]
  exact if_neg (by simpa using hnumeral.ne_nil)

/-- A fraction is read back, in three, six or nine digits or none. -/
theorem readFraction_renderFraction (hn : n < secondNanos) (hmark : mark.isDigit = false)
    (hpoint : mark ≠ '.') (rest : List Char) :
    readFraction (renderFraction n ++ mark :: rest) = some (n, mark :: rest) := by
  rw [secondNanos] at hn
  simp only [renderFraction, beq_iff_eq]
  split
  · next hzero =>
    rw [List.nil_append, readFraction, hzero]
    simpa using hpoint
  · split
    · next hmillis =>
      have hfits : n / 1000000 < Nat.pow 10 3 := Nat.div_lt_of_lt_mul hn
      rw [readFraction_padded (by decide) (by decide) hfits hmark,
        Nat.div_mul_cancel (Nat.dvd_of_mod_eq_zero hmillis)]
    · split
      · next hmicros =>
        have hfits : n / 1000 < Nat.pow 10 6 := Nat.div_lt_of_lt_mul hn
        rw [readFraction_padded (by decide) (by decide) hfits hmark,
          Nat.div_mul_cancel (Nat.dvd_of_mod_eq_zero hmicros)]
      · rw [readFraction_padded (by decide) (by decide) hn hmark, Nat.mul_one]

/-! ### Instants -/

/-- The second and the fraction that are written stand for those of the instant: a leap second is
written as the sixtieth one. -/
theorem second_nanos_eq {time : Instant} (h : time.IsRepresentable) {second : Nat}
    (hsecond : (second : Int) = time.seconds % 60) :
    let written := second + if time.inLeapSecond then 1 else 0
    (if written == 60 then (59, secondNanos + time.nanos % secondNanos)
      else (written, time.nanos % secondNanos)) = (second, time.nanos) := by
  have hnanos := h.nanos
  simp only [inLeapSecond, decide_eq_true_eq, beq_iff_eq]
  rw [secondNanos] at hnanos ⊢
  split
  · next hleap =>
    rw [if_pos (by omega), Prod.mk.injEq]
    omega
  · next hleap =>
    rw [if_neg (by omega), Prod.mk.injEq]
    omega

/-- A day has so many seconds. -/
theorem toNat_secondOfDay_lt (time : Instant) : time.secondOfDay.toNat < 86400 := by
  rw [secondOfDay, daySeconds]
  omega

/-- The seconds since 1970 are those of whole days, and the hours, minutes and seconds of the last
one. -/
theorem seconds_eq (time : Instant) :
    time.seconds / daySeconds * daySeconds + (time.secondOfDay.toNat / 3600 : Nat) * 3600 +
      (time.secondOfDay.toNat / 60 % 60 : Nat) * 60 + (time.secondOfDay.toNat % 60 : Nat) =
        time.seconds := by
  rw [secondOfDay, daySeconds]
  omega

/-- An instant is made up again of the date and the time of day that are written. -/
theorem ofParts?_of_isRepresentable {time : Instant} (h : time.IsRepresentable) :
    ofParts? (Date.ofDayNumber (time.seconds / daySeconds)) (time.secondOfDay.toNat / 3600)
      (time.secondOfDay.toNat / 60 % 60)
      (time.secondOfDay.toNat % 60 + if time.inLeapSecond then 1 else 0)
      (time.nanos % secondNanos) 0 = some time := by
  obtain ⟨hvalid, hyear, hnumber⟩ := Date.ofDayNumber_spec (time.seconds / daySeconds)
  have hsecond : ((time.secondOfDay.toNat % 60 : Nat) : Int) = time.seconds % 60 := by
    rw [secondOfDay, daySeconds]
    omega
  have hhour : time.secondOfDay.toNat / 3600 < 24 := by
    have hlt := time.toNat_secondOfDay_lt
    omega
  have hexists : ((Date.ofDayNumber (time.seconds / daySeconds)).isValid &&
      yearInRange (Date.ofDayNumber (time.seconds / daySeconds)).year &&
      decide (time.secondOfDay.toNat / 3600 < 24) &&
      decide (time.secondOfDay.toNat / 60 % 60 < 60) &&
      decide (time.secondOfDay.toNat % 60 < 60) && decide ((0 : Int).natAbs < 86400)) = true := by
    simp [hvalid, hyear, h.year, hhour, Nat.mod_lt]
  rw [ofParts?, second_nanos_eq h hsecond]
  simp only [if_pos hexists, hnumber, Int.sub_zero, seconds_eq, if_pos h.year]

/-- An instant is read back from its timestamp. -/
theorem read?_render {time : Instant} (h : time.IsRepresentable) :
    read? time.render = some time := by
  have hpair {n : Nat} (hn : n < 100) (rest : List Char) :
      readNumber 2 (Decimal.padded 2 n ++ rest) = some (n, rest) :=
    readNumber_padded (by decide) hn rest
  obtain ⟨hmonth, hday⟩ :=
    Date.lt_of_isValid (Date.ofDayNumber_spec (time.seconds / daySeconds)).1
  have hsecond := time.toNat_secondOfDay_lt
  have hhour : time.secondOfDay.toNat / 3600 < 100 := by omega
  have hminute : time.secondOfDay.toNat / 60 % 60 < 100 := by omega
  have hleap : time.secondOfDay.toNat % 60 + (if time.inLeapSecond then 1 else 0) < 100 := by
    split <;> omega
  have hnanos : time.nanos % secondNanos < secondNanos := Nat.mod_lt _ (by decide)
  have hdash : isBlank '-' = false := by decide
  have hcolon : isBlank ':' = false := by decide
  have hend : readOffset ['Z'] = some (0, []) := by decide
  -- Every reader finds its part at the start of what the readers before it have left.
  simp only [read?, render, List.append_assoc, List.cons_append]
  rw [readYear_renderYear _ (by decide)]
  simp only [Option.bind_eq_bind, Option.bind_some, readMark_cons hdash, readMark_cons hcolon,
    hpair hmonth, hpair hday, hpair hhour, hpair hminute, hpair hleap]
  rw [if_pos (by decide), readFraction_renderFraction hnanos (by decide) (by decide)]
  simp only [Option.bind_some, hend]
  exact (if_pos (by decide)).trans (ofParts?_of_isRepresentable h)

end Instant

end LayeredMachines
