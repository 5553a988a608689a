import LayeredMachines.Text.Caseless

/-!
# Equality up to case is an equivalence

Two texts are equal up to case if and only if they have the same lower-case form: comparing the
ASCII letters alone accepts no other texts. Labels, names and events may therefore be exchanged
for each other wherever they are compared, also as parts of longer texts.
-/

namespace LayeredMachines

/-- A character that is not a capital ASCII letter is its own ASCII lower-case form. -/
private theorem toLower_eq_self {c : Char} (hc : c.toNat < 65 ∨ 90 < c.toNat) : c.toLower = c := by
  have hcapital : ¬ (c.val ≥ 'A'.val ∧ c.val ≤ 'Z'.val) := by
    rintro ⟨hfirst, hlast⟩
    have hlow : 65 ≤ c.toNat := UInt32.le_iff_toNat_le.mp hfirst
    have hhigh : c.toNat ≤ 90 := UInt32.le_iff_toNat_le.mp hlast
    omega
  exact dif_neg hcapital

/-- The ASCII lower-case form of a capital ASCII letter is 32 places further on. -/
private theorem toNat_toLower {c : Char} (hc : 65 ≤ c.toNat ∧ c.toNat ≤ 90) :
    c.toLower.toNat = c.toNat + 32 := by
  have hcapital : c.val ≥ 'A'.val ∧ c.val ≤ 'Z'.val :=
    ⟨UInt32.le_iff_toNat_le.mpr hc.1, UInt32.le_iff_toNat_le.mpr hc.2⟩
  have hsum : c.toLower.val = c.val + 32 := congrArg Char.val (dif_pos hcapital)
  have hbound : c.val.toNat + 32 < 2 ^ 32 := by
    have := hc.2
    simp only [Char.toNat] at this
    omega
  simp only [Char.toNat, hsum, UInt32.toNat_add]
  exact Nat.mod_eq_of_lt hbound

/-- A character and its ASCII lower-case form have the same lower-case form. -/
theorem lowercase_toLower (c : Char) : lowercase c.toLower = lowercase c := by
  by_cases hc : 65 ≤ c.toNat ∧ c.toNat ≤ 90
  · have hlower := toNat_toLower hc
    have hself : c.toLower.toLower = c.toLower := toLower_eq_self (by omega)
    rw [lowercase_ascii (by omega), lowercase_ascii (by omega), hself]
  · rw [toLower_eq_self (by omega)]

/-- The lower-case form of a text depends on the ASCII lower-case forms of its characters only. -/
theorem lowercaseForm_eq (text : String) :
    lowercaseForm text = (text.toList.map Char.toLower).flatMap lowercase := by
  rw [lowercaseForm, List.flatMap_map]
  congr 1
  funext c
  exact (lowercase_toLower c).symm

/-- Texts that are equal up to the case of ASCII letters have the same lower-case form. -/
theorem lowercaseForm_eq_of_asciiCaselessEq {a b : String} (hascii : asciiCaselessEq a b = true) :
    lowercaseForm a = lowercaseForm b := by
  have hlower : a.toList.map Char.toLower = b.toList.map Char.toLower := beq_iff_eq.mp hascii
  rw [lowercaseForm_eq, lowercaseForm_eq, hlower]

/-- Two texts are equal up to case if and only if their lower-case forms are equal. -/
theorem caselessEq_iff {a b : String} :
    caselessEq a b = true ↔ lowercaseForm a = lowercaseForm b := by
  simp only [caselessEq, Bool.or_eq_true, beq_iff_eq]
  constructor
  · rintro (hascii | hform)
    · exact lowercaseForm_eq_of_asciiCaselessEq hascii
    · exact hform
  · exact Or.inr

@[simp] theorem caselessEq_refl (a : String) : caselessEq a a = true :=
  caselessEq_iff.mpr rfl

theorem caselessEq_comm (a b : String) : caselessEq a b = caselessEq b a := by
  rw [Bool.eq_iff_iff, caselessEq_iff, caselessEq_iff]
  exact eq_comm

/-- A text may be exchanged for one that is equal up to case. -/
theorem caselessEq_congr_left {a b : String} (heq : caselessEq a b = true) (c : String) :
    caselessEq a c = caselessEq b c := by
  rw [Bool.eq_iff_iff, caselessEq_iff, caselessEq_iff, caselessEq_iff.mp heq]

/-- A text that is equal up to case may be put on the right of a comparison. -/
theorem caselessEq_congr_right {a b : String} (hsame : caselessEq a b = true) (c : String) :
    caselessEq c a = caselessEq c b := by
  rw [caselessEq_comm c a, caselessEq_comm c b, caselessEq_congr_left hsame]

/-- Only the empty text has an empty lower-case form. -/
theorem lowercaseForm_eq_nil {a : String} : lowercaseForm a = [] ↔ a = "" := by
  rw [lowercaseForm, List.flatMap_eq_nil_iff, ← String.toList_eq_nil_iff,
    List.eq_nil_iff_forall_not_mem]
  exact forall₂_congr fun c _ => by simp [lowercase_ne_nil c]

/-- Of two texts that are equal up to case both are empty or none is. -/
theorem isEmpty_eq_of_caselessEq {a b : String} (hsame : caselessEq a b = true) :
    a.isEmpty = b.isEmpty := by
  have hform := caselessEq_iff.mp hsame
  rw [Bool.eq_iff_iff, String.isEmpty_iff, String.isEmpty_iff, ← lowercaseForm_eq_nil, hform,
    lowercaseForm_eq_nil]

/-- No other text is equal to the empty one up to case. -/
theorem caselessEq_empty_iff {a : String} : caselessEq a "" = true ↔ a = "" := by
  have hempty : lowercaseForm "" = [] := lowercaseForm_eq_nil.mpr rfl
  rw [caselessEq_iff, hempty, lowercaseForm_eq_nil]

/-- The lower-case form of two texts put together is that of the one, then that of the other. -/
theorem lowercaseForm_append (a b : String) :
    lowercaseForm (a ++ b) = lowercaseForm a ++ lowercaseForm b := by
  rw [lowercaseForm, String.toList_append, List.flatMap_append, lowercaseForm, lowercaseForm]

/-- Texts that are equal up to case remain so when such texts are put behind them. -/
theorem caselessEq_append {a b c d : String} (hfront : caselessEq a b = true)
    (hback : caselessEq c d = true) : caselessEq (a ++ c) (b ++ d) = true := by
  rw [caselessEq_iff] at hfront hback ⊢
  rw [lowercaseForm_append, lowercaseForm_append, hfront, hback]

/-- Two texts are equal up to case exactly if the lower-case forms of their characters, one after
the other, are the same. Comparing the ASCII letters first accepts no other texts and might be left
out. Equality up to case is therefore an equivalence, it is kept when texts are put together, and
the empty text is equal to none but itself. -/
theorem caselessEq_is_congruence :
    (∀ a b, caselessEq a b = true ↔ a.toList.flatMap lowercase = b.toList.flatMap lowercase) ∧
      (∀ a b, asciiCaselessEq a b = true →
        a.toList.flatMap lowercase = b.toList.flatMap lowercase) ∧
      Equivalence (fun a b => caselessEq a b = true) ∧
      (∀ a b c d, caselessEq a b = true → caselessEq c d = true →
        caselessEq (a ++ c) (b ++ d) = true) ∧
      ∀ a, caselessEq a "" = true ↔ a = "" := by
  refine ⟨fun a b => caselessEq_iff, fun a b => lowercaseForm_eq_of_asciiCaselessEq, ?_,
    fun a b c d => caselessEq_append, fun a => caselessEq_empty_iff⟩
  constructor
  case refl => exact caselessEq_refl
  case symm =>
    intro a b hsame
    rw [caselessEq_comm, hsame]
  case trans =>
    intro a b c hsame hother
    rw [caselessEq_congr_left hsame, hother]

/-- Texts of different lengths may be equal up to case: a capital with a dot above becomes two
characters. -/
example : caselessEq "\u0130D" "i\u0307d" = true := by decide

end LayeredMachines
