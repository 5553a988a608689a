/-!
# Decimal integers

Natural numbers and integers in decimal digits, without leading zeros, and the reading of signed
64-bit integers: an optional sign, then one or more ASCII digits, with a value in range.
-/

namespace LayeredMachines

namespace Signed64

/-- The least signed 64-bit integer. -/
def least : Int := -Int.pow 2 63

/-- The greatest signed 64-bit integer. -/
def greatest : Int := Int.pow 2 63 - 1

/-- An integer fits if it is between the least and the greatest one. -/
def fits (n : Int) : Bool :=
  decide (least ≤ n) && decide (n ≤ greatest)

/-- An integer that fits, and nothing otherwise. -/
def checked (n : Int) : Option Int :=
  if fits n then some n else none

/-- The nearest integer that fits. -/
def clamp (n : Int) : Int :=
  max least (min greatest n)

end Signed64

namespace Decimal

/-- The decimal digit of a number below ten. -/
def digit (n : Nat) : Char :=
  Char.ofNat (48 + n)

/-- The digits of a natural number, the most significant one first. -/
def digits (n : Nat) : List Char :=
  if n < 10 then [digit n] else digits (n / 10) ++ [digit (n % 10)]
termination_by n

/-- A natural number in decimal. -/
def ofNat (n : Nat) : String :=
  String.ofList (digits n)

/-- An integer in decimal, with a sign only if it is negative. -/
def ofInt (n : Int) : String :=
  if n < 0 then String.ofList ('-' :: digits n.natAbs) else ofNat n.natAbs

/-- The digits of a number, filled up with zeros on the left to a least width. -/
def padded (width n : Nat) : List Char :=
  let written := digits n
  List.replicate (width - written.length) '0' ++ written

/-- The value of an ASCII digit. -/
def digitValue (c : Char) : Nat :=
  c.toNat - 48

/-- The number that ASCII digits denote. -/
def value (text : List Char) : Nat :=
  text.foldl (fun n c => 10 * n + digitValue c) 0

/-- One or more ASCII digits, read as a number. -/
def natural? (text : List Char) : Option Nat :=
  if text.isEmpty || !text.all Char.isDigit then none else some (value text)

/-- An optional sign and a natural number. -/
def integer? : List Char → Option Int
  | '+' :: rest => (natural? rest).map fun n => (n : Int)
  | '-' :: rest => (natural? rest).map fun n => -(n : Int)
  | text => (natural? text).map fun n => (n : Int)

/-- A signed 64-bit integer in decimal. -/
def signed64? (text : String) : Option Int :=
  (integer? text.toList).bind Signed64.checked

/-- The digit of a number below ten has that number as its value. -/
theorem digitValue_digit {n : Nat} (hn : n < 10) : digitValue (digit n) = n := by
  have h : ∀ n : Fin 10, digitValue (digit n) = n := by decide
  exact h ⟨n, hn⟩

/-- The digit of a number below ten is a digit. -/
theorem isDigit_digit {n : Nat} (hn : n < 10) : (digit n).isDigit = true := by
  have h : ∀ n : Fin 10, (digit n).isDigit = true := by decide
  exact h ⟨n, hn⟩

/-- The digits of a number denote it. -/
theorem value_digits (n : Nat) : value (digits n) = n := by
  fun_induction digits n with
  | case1 n hn => simp [value, digitValue_digit hn]
  | case2 n hn ih =>
    have hdigit := digitValue_digit (Nat.mod_lt n (by decide : 0 < 10))
    simp only [value, List.foldl_append, List.foldl_cons, List.foldl_nil] at ih ⊢
    rw [ih, hdigit]
    omega

/-- Digits are what the name says. -/
theorem isDigit_of_mem_digits {n : Nat} {c : Char} (hc : c ∈ digits n) : c.isDigit = true := by
  fun_induction digits n with
  | case1 n hn => simp_all [isDigit_digit hn]
  | case2 n hn ih =>
    rcases List.mem_append.1 hc with hc | hc
    · exact ih hc
    · rw [List.mem_singleton.1 hc]
      exact isDigit_digit (Nat.mod_lt n (by decide))

/-- Every number has a digit. -/
theorem digits_ne_nil (n : Nat) : digits n ≠ [] := by
  unfold digits
  split <;> simp

/-- A number is read back from its digits. -/
theorem natural?_digits (n : Nat) : natural? (digits n) = some n := by
  have hdigits : (digits n).all Char.isDigit = true :=
    List.all_eq_true.2 fun c hc => isDigit_of_mem_digits hc
  simp [natural?, digits_ne_nil, hdigits, value_digits]

end Decimal

end LayeredMachines
