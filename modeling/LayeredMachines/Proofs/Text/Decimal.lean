import LayeredMachines.Text.Decimal
import Mathlib.Data.List.Basic
import Mathlib.Data.List.Induction

/-!
# Decimal numerals

What texts denote natural numbers and integers in decimal, independently of how they are read. They
are read exactly if they do. Of all numerals of an integer the one that it is written as is the only
one without a plus sign, without leading zeros and without a sign before zero. A number that is not
too large has one numeral of any given width.
-/

namespace LayeredMachines

namespace Decimal

/-- One or more ASCII digits denote a natural number, the last one counting once and those before it
ten times. -/
inductive IsNumeral : List Char → Nat → Prop where
  | digit {d : Nat} (hd : d < 10) : IsNumeral [Decimal.digit d] d
  | append {text : List Char} {n d : Nat} (h : IsNumeral text n) (hd : d < 10) :
    IsNumeral (text ++ [Decimal.digit d]) (10 * n + d)

/-- A numeral behind an optional sign denotes an integer. -/
inductive IsInteger : List Char → Int → Prop where
  | plain {text : List Char} {n : Nat} (h : IsNumeral text n) : IsInteger text n
  | plus {text : List Char} {n : Nat} (h : IsNumeral text n) : IsInteger ('+' :: text) n
  | minus {text : List Char} {n : Nat} (h : IsNumeral text n) : IsInteger ('-' :: text) (-n)

/-- The numeral does not begin with a zero, unless that is its only digit. -/
def IsShort (text : List Char) : Prop :=
  text.head? = some '0' → text = ['0']

/-- The canonical numerals of integers: there is a sign only before negative ones, and the digits do
not begin with a zero without need. -/
inductive IsCanonical : List Char → Int → Prop where
  | plain {text : List Char} {n : Nat} (h : IsNumeral text n) (hshort : IsShort text) :
    IsCanonical text n
  | minus {text : List Char} {n : Nat} (h : IsNumeral text n) (hshort : IsShort text)
    (hn : n ≠ 0) : IsCanonical ('-' :: text) (-n)

/-- The text denotes a signed 64-bit integer. -/
structure IsSigned64 (text : String) (n : Int) : Prop where
  isInteger : IsInteger text.toList n
  least_le : Signed64.least ≤ n
  le_greatest : n ≤ Signed64.greatest

variable {text : List Char} {n : Nat} {c : Char}

/-! ### Digits -/

/-- A digit is the digit of its value, which is below ten. -/
theorem digit_digitValue (hc : c.isDigit = true) :
    digitValue c < 10 ∧ digit (digitValue c) = c := by
  rw [Char.isDigit, Bool.and_eq_true, decide_eq_true_eq, decide_eq_true_eq] at hc
  have hlow : 48 ≤ c.toNat := UInt32.le_iff_toNat_le.mp hc.1
  have hhigh : c.toNat ≤ 57 := UInt32.le_iff_toNat_le.mp hc.2
  refine ⟨by rw [digitValue]; omega, ?_⟩
  rw [digit, digitValue, Nat.add_sub_cancel' hlow, Char.ofNat_toNat]

/-- One more digit counts once and those before it ten times. -/
theorem value_append (text : List Char) (c : Char) :
    value (text ++ [c]) = 10 * value text + digitValue c := by
  simp [value]

/-- A numeral consists of digits. -/
theorem IsNumeral.all_isDigit (h : IsNumeral text n) : text.all Char.isDigit = true := by
  induction h with
  | digit hd => simp [isDigit_digit hd]
  | append _ hd ih => simp [ih, isDigit_digit hd]

theorem IsNumeral.ne_nil (h : IsNumeral text n) : text ≠ [] := by
  cases h <;> simp

/-- A numeral begins with a digit. -/
theorem IsNumeral.exists_eq_cons (h : IsNumeral text n) :
    ∃ c rest, text = c :: rest ∧ c.isDigit = true := by
  obtain ⟨c, rest, rfl⟩ := List.exists_cons_of_ne_nil h.ne_nil
  exact ⟨c, rest, rfl, List.all_eq_true.mp h.all_isDigit c List.mem_cons_self⟩

/-- A numeral denotes its value. -/
theorem IsNumeral.value_eq (h : IsNumeral text n) : value text = n := by
  induction h with
  | digit hd => simp [value, digitValue_digit hd]
  | append _ hd ih => rw [value_append, ih, digitValue_digit hd]

/-- Digits are a numeral of their value. -/
theorem isNumeral_value (hne : text ≠ []) (hdigits : text.all Char.isDigit = true) :
    IsNumeral text (value text) := by
  induction text using List.reverseRecOn with
  | nil => exact absurd rfl hne
  | append_singleton text c ih =>
    rw [List.all_append, List.all_cons, List.all_nil, Bool.and_true, Bool.and_eq_true] at hdigits
    obtain ⟨hlt, hc⟩ := digit_digitValue hdigits.2
    by_cases htext : text = []
    · have hone := IsNumeral.digit hlt
      rw [hc] at hone
      simpa [htext, value] using hone
    · have hmore := (ih htext hdigits.1).append hlt
      rwa [hc, ← value_append] at hmore

/-- The digits of a number are a numeral of it. -/
theorem isNumeral_digits (n : Nat) : IsNumeral (digits n) n := by
  have hdigits : (digits n).all Char.isDigit = true :=
    List.all_eq_true.mpr fun c hc => isDigit_of_mem_digits hc
  have h := isNumeral_value (digits_ne_nil n) hdigits
  rwa [value_digits] at h

/-- A natural number is read from its numerals, and from no other texts. -/
theorem natural?_eq_some_iff : natural? text = some n ↔ IsNumeral text n := by
  constructor
  · intro hread
    rw [natural?] at hread
    split at hread
    · cases hread
    · next hnot =>
      rw [Bool.or_eq_true, not_or, List.isEmpty_iff, Bool.not_eq_true', Bool.not_eq_false] at hnot
      cases hread
      exact isNumeral_value hnot.1 hnot.2
  · intro h
    rw [natural?, h.all_isDigit, h.value_eq, if_neg (by simpa using h.ne_nil)]

/-! ### Canonical numerals -/

/-- The digits of a number do not begin with a zero without need. -/
theorem isShort_digits (n : Nat) : IsShort (digits n) := by
  fun_induction digits n with
  | case1 n hn =>
    intro hzero
    rw [Option.some.inj hzero]
  | case2 n hn ih =>
    intro hzero
    rw [List.head?_append_of_ne_nil _ (digits_ne_nil _)] at hzero
    have hvalue := value_digits (n / 10)
    rw [ih hzero] at hvalue
    have hnone : n / 10 = 0 := hvalue.symm
    omega

/-- A numeral that does not begin with a zero without need consists of the digits of its number. -/
theorem IsNumeral.eq_digits (h : IsNumeral text n) (hshort : IsShort text) : text = digits n := by
  induction h with
  | digit hd => rw [digits, if_pos hd]
  | @append text n d h hd ih =>
    have hzero : text.head? ≠ some '0' := by
      intro hzero
      rw [← List.head?_append_of_ne_nil _ h.ne_nil] at hzero
      have hlength := congrArg List.length (hshort hzero)
      exact h.ne_nil (List.length_eq_zero_iff.mp (by simpa using hlength))
    have htext : text = digits n := ih fun h => absurd h hzero
    have hn : n ≠ 0 := by
      rintro rfl
      rw [htext, digits, if_pos (by decide)] at hzero
      exact hzero rfl
    have hdiv : (10 * n + d) / 10 = n := by omega
    have hmod : (10 * n + d) % 10 = d := by omega
    rw [digits, if_neg (by omega), hdiv, hmod, ← htext]

theorem toList_ofInt (n : Int) :
    (ofInt n).toList = if n < 0 then '-' :: digits n.natAbs else digits n.natAbs := by
  rw [ofInt]
  split <;> simp [ofNat]

@[simp] theorem ofInt_zero : ofInt 0 = "0" := by decide +kernel

/-- An integer is written as its canonical numeral, which is the only one. -/
theorem isCanonical_iff {n : Int} : IsCanonical text n ↔ text = (ofInt n).toList := by
  rw [toList_ofInt]
  constructor
  · rintro (⟨h, hshort⟩ | ⟨h, hshort, hn⟩)
    · rw [if_neg (by omega), Int.natAbs_natCast]
      exact h.eq_digits hshort
    · rw [if_pos (by omega), Int.natAbs_neg, Int.natAbs_natCast]
      exact congrArg _ (h.eq_digits hshort)
  · rintro rfl
    have hnumeral := isNumeral_digits n.natAbs
    have hshort := isShort_digits n.natAbs
    split
    · next hneg =>
      have hcanonical := IsCanonical.minus hnumeral hshort (by omega)
      rwa [Int.ofNat_natAbs_of_nonpos (by omega), Int.neg_neg] at hcanonical
    · next hneg =>
      have hcanonical := IsCanonical.plain hnumeral hshort
      rwa [Int.natAbs_of_nonneg (by omega)] at hcanonical

/-! ### Numerals of a width -/

/-- A number below a power of ten has no more digits than that. -/
theorem length_digits_le {width : Nat} (hwidth : 1 ≤ width) (hn : n < Nat.pow 10 width) :
    (digits n).length ≤ width := by
  induction width generalizing n with
  | zero => omega
  | succ width ih =>
    rw [digits]
    split
    · exact hwidth
    · next hlong =>
      have hpow : Nat.pow 10 (width + 1) = Nat.pow 10 width * 10 := rfl
      have hpositive : width ≠ 0 := by
        rintro rfl
        exact hlong hn
      have hbefore : (digits (n / 10)).length ≤ width := ih (by omega) (by omega)
      rw [List.length_append, List.length_singleton]
      omega

/-- A number below a power of ten is written with as many digits as that. -/
theorem length_padded {width : Nat} (hwidth : 1 ≤ width) (hn : n < Nat.pow 10 width) :
    (padded width n).length = width := by
  rw [padded, List.length_append, List.length_replicate]
  exact Nat.sub_add_cancel (length_digits_le hwidth hn)

/-- Zeros in front do not change the number that is denoted. -/
theorem isNumeral_padded (width n : Nat) : IsNumeral (padded width n) n := by
  have hzeros (zeros : Nat) : value (List.replicate zeros '0' ++ digits n) = n := by
    induction zeros with
    | zero => exact value_digits n
    | succ zeros ih => exact ih
  have hne : padded width n ≠ [] := List.append_ne_nil_of_right_ne_nil _ (digits_ne_nil n)
  have hdigits : (padded width n).all Char.isDigit = true := by
    rw [padded, List.all_append, (isNumeral_digits n).all_isDigit, Bool.and_true]
    exact List.all_eq_true.mpr fun c hc => by rw [List.eq_of_mem_replicate hc]; rfl
  have h := isNumeral_value hne hdigits
  rwa [padded, hzeros] at h

/-! ### Integers -/

/-- A canonical numeral denotes its integer. -/
theorem IsCanonical.isInteger {n : Int} (h : IsCanonical text n) : IsInteger text n := by
  cases h with
  | plain h => exact .plain h
  | minus h => exact .minus h

/-- An integer is read from the texts that denote it, and from no other ones. -/
theorem integer?_eq_some_iff {n : Int} : integer? text = some n ↔ IsInteger text n := by
  have hsign {c : Char} {rest : List Char} {m : Nat} (h : IsNumeral (c :: rest) m) :
      c.isDigit = true := by
    obtain ⟨_, _, ⟨⟩, hc⟩ := h.exists_eq_cons
    exact hc
  constructor
  · intro hread
    unfold integer? at hread
    split at hread
    all_goals
      obtain ⟨_, hlift, rfl⟩ := Option.map_eq_some_iff.mp hread
      obtain ⟨m, hm, heq⟩ := Option.bind_eq_some_iff.mp hlift
      rw [natural?_eq_some_iff] at hm
      cases heq
    · exact .plus hm
    · exact .minus hm
    · exact .plain hm
  · intro h
    cases h with
    | plus h =>
      rw [integer?, natural?_eq_some_iff.mpr h]
      rfl
    | minus h =>
      rw [integer?, natural?_eq_some_iff.mpr h]
      rfl
    | plain h =>
      unfold integer?
      split
      · exact absurd (hsign h) (by decide)
      · exact absurd (hsign h) (by decide)
      · rw [natural?_eq_some_iff.mpr h]
        rfl

/-- An integer that is checked is between the least and the greatest one. -/
theorem checked_eq_some_iff {n m : Int} :
    Signed64.checked n = some m ↔ n = m ∧ Signed64.least ≤ m ∧ m ≤ Signed64.greatest := by
  rw [Signed64.checked, Signed64.fits]
  split
  · next hfits =>
    rw [Bool.and_eq_true, decide_eq_true_eq, decide_eq_true_eq] at hfits
    constructor
    · rintro ⟨⟩
      exact ⟨rfl, hfits⟩
    · rintro ⟨rfl, -⟩
      rfl
  · next hnot =>
    rw [Bool.and_eq_true, decide_eq_true_eq, decide_eq_true_eq] at hnot
    constructor
    · rintro ⟨⟩
    · rintro ⟨rfl, hfits⟩
      exact absurd hfits hnot

/-- A signed 64-bit integer is read from the texts that denote it, and from no other ones. -/
theorem signed64?_eq_some_iff {text : String} {n : Int} :
    signed64? text = some n ↔ IsSigned64 text n := by
  simp only [signed64?, Option.bind_eq_some_iff, integer?_eq_some_iff, checked_eq_some_iff]
  constructor
  · rintro ⟨m, hm, rfl, hleast, hgreatest⟩
    exact ⟨hm, hleast, hgreatest⟩
  · rintro ⟨h, hleast, hgreatest⟩
    exact ⟨n, h, rfl, hleast, hgreatest⟩

/-- An integer that fits is denoted by its canonical numeral. -/
theorem isSigned64_ofInt {n : Int} (hleast : Signed64.least ≤ n)
    (hgreatest : n ≤ Signed64.greatest) : IsSigned64 (ofInt n) n :=
  ⟨(isCanonical_iff.mpr rfl).isInteger, hleast, hgreatest⟩

/-- A text denotes at most one integer. -/
theorem IsInteger.unique {n m : Int} (h : IsInteger text n) (hother : IsInteger text m) :
    n = m := by
  rw [← integer?_eq_some_iff] at h hother
  exact Option.some.inj (h.symm.trans hother)

end Decimal

end LayeredMachines
