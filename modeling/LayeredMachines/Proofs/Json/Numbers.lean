import LayeredMachines.Json.Token

/-!
# The grammar of numbers in JSON

A number has a sign, a whole part, a fraction and an exponent, of which only the whole part has to
be there. What may follow each part of a number is told from the grammar, and is what the lexer
accepts behind that part.
-/

namespace LayeredMachines.Json

variable {text rest : List Char} {part next : NumberPart} {c : Char}

/-- Digits, or nothing. -/
def AreDigits (text : List Char) : Prop :=
  ∀ c ∈ text, c.isDigit = true

/-- One or more digits. -/
structure IsDigits (text : List Char) : Prop where
  ne_nil : text ≠ []
  areDigits : AreDigits text

/-- Digits that do not begin with a zero, unless it is the only one. -/
structure IsWhole (text : List Char) : Prop extends IsDigits text where
  eq_zero : text.head? = some '0' → text = ['0']

/-- A point and digits, or nothing. -/
inductive IsFraction : List Char → Prop where
  | none : IsFraction []
  | some {digits : List Char} (hdigits : IsDigits digits) : IsFraction ('.' :: digits)

/-- A sign of an exponent, which may be left out, and digits. -/
inductive IsPower : List Char → Prop where
  | plain {digits : List Char} (hdigits : IsDigits digits) : IsPower digits
  | signed {sign : Char} {digits : List Char} (hsign : sign = '+' ∨ sign = '-')
    (hdigits : IsDigits digits) : IsPower (sign :: digits)

/-- The letter for an exponent and what it is, or nothing. -/
inductive IsExponent : List Char → Prop where
  | none : IsExponent []
  | some {letter : Char} {power : List Char} (hletter : letter = 'e' ∨ letter = 'E')
    (hpower : IsPower power) : IsExponent (letter :: power)

/-- What stands behind the whole part of a number. -/
inductive IsTail : List Char → Prop where
  | mk {fraction exponent : List Char} (hfraction : IsFraction fraction)
    (hexponent : IsExponent exponent) : IsTail (fraction ++ exponent)

/-- A number without a sign. -/
inductive IsUnsigned : List Char → Prop where
  | mk {whole tail : List Char} (hwhole : IsWhole whole) (htail : IsTail tail) :
    IsUnsigned (whole ++ tail)

/-- A number, with or without a minus sign. -/
inductive IsNumber : List Char → Prop where
  | plain {text : List Char} (h : IsUnsigned text) : IsNumber text
  | minus {text : List Char} (h : IsUnsigned text) : IsNumber ('-' :: text)

theorem AreDigits.cons (hc : c.isDigit = true) (h : AreDigits text) : AreDigits (c :: text) :=
  List.forall_mem_cons.mpr ⟨hc, h⟩

theorem AreDigits.isDigits (hc : c.isDigit = true) (h : AreDigits text) : IsDigits (c :: text) :=
  ⟨List.cons_ne_nil c text, h.cons hc⟩

theorem AreDigits.isWhole (hc : c.isDigit = true) (hzero : c ≠ '0') (h : AreDigits text) :
    IsWhole (c :: text) where
  toIsDigits := h.isDigits hc
  eq_zero := by simp [hzero]

theorem isWhole_zero : IsWhole ['0'] where
  ne_nil := List.cons_ne_nil '0' []
  areDigits := by simp [AreDigits]
  eq_zero := fun _ => rfl

theorem isTail_nil : IsTail [] :=
  .mk .none .none

theorem IsExponent.isTail (h : IsExponent text) : IsTail text :=
  .mk .none h

namespace NumberPart

/-- What may follow a part of a number. -/
inductive MayPrecede : NumberPart → List Char → Prop where
  | minus {text : List Char} (h : IsUnsigned text) : MayPrecede .minus text
  | zero {tail : List Char} (htail : IsTail tail) : MayPrecede .zero tail
  | integer {digits tail : List Char} (hdigits : AreDigits digits) (htail : IsTail tail) :
    MayPrecede .integer (digits ++ tail)
  | point {digits exponent : List Char} (hdigits : IsDigits digits)
    (hexponent : IsExponent exponent) : MayPrecede .point (digits ++ exponent)
  | fraction {digits exponent : List Char} (hdigits : AreDigits digits)
    (hexponent : IsExponent exponent) : MayPrecede .fraction (digits ++ exponent)
  | exponent {power : List Char} (hpower : IsPower power) : MayPrecede .exponent power
  | exponentSign {digits : List Char} (hdigits : IsDigits digits) :
    MayPrecede .exponentSign digits
  | exponentDigits {digits : List Char} (hdigits : AreDigits digits) :
    MayPrecede .exponentDigits digits

/-- Nothing has to follow a part with which a number may end. -/
theorem mayPrecede_nil (hcomplete : part.isComplete = true) : part.MayPrecede [] := by
  have hnone : AreDigits [] := List.forall_mem_nil _
  cases part with
  | zero => exact .zero isTail_nil
  | integer => exact .integer hnone isTail_nil
  | fraction => exact .fraction hnone .none
  | exponentDigits => exact .exponentDigits hnone
  | _ => cases hcomplete

/-- Behind a whole part stands a point with digits, or an exponent. -/
theorem isTail_of_afterInteger (hnext : next?.afterInteger c = some next)
    (h : next.MayPrecede text) : IsTail (c :: text) := by
  unfold next?.afterInteger at hnext
  split at hnext
  · next hpoint =>
    cases hnext
    cases h with
    | @point digits exponent hdigits hexponent =>
      rw [hpoint]
      exact IsTail.mk (.some hdigits) hexponent
  · split at hnext
    · next hletter =>
      cases hnext
      cases h with
      | exponent hpower => exact (IsExponent.some (by simpa using hletter) hpower).isTail
    · cases hnext

/-- What may follow the part that a character leads to may follow the part before it together with
that character. -/
theorem MayPrecede.cons (hnext : part.next? c = some next) (h : next.MayPrecede text) :
    part.MayPrecede (c :: text) := by
  cases part with
  | minus =>
    simp only [next?] at hnext
    split at hnext
    · next hzero =>
      cases hnext
      cases h with
      | zero htail =>
        rw [hzero]
        exact .minus (.mk isWhole_zero htail)
    · next hzero =>
      split at hnext
      · next hc =>
        cases hnext
        cases h with
        | integer hdigits htail => exact .minus (.mk (hdigits.isWhole hc hzero) htail)
      · cases hnext
  | zero => exact .zero (isTail_of_afterInteger hnext h)
  | integer =>
    simp only [next?] at hnext
    split at hnext
    · next hc =>
      cases hnext
      cases h with
      | integer hdigits htail => exact .integer (hdigits.cons hc) htail
    · have hnone : AreDigits [] := List.forall_mem_nil _
      exact .integer hnone (isTail_of_afterInteger hnext h)
  | point =>
    simp only [next?] at hnext
    split at hnext
    · next hc =>
      cases hnext
      cases h with
      | fraction hdigits hexponent => exact .point (hdigits.isDigits hc) hexponent
    · cases hnext
  | fraction =>
    simp only [next?] at hnext
    split at hnext
    · next hc =>
      cases hnext
      cases h with
      | fraction hdigits hexponent => exact .fraction (hdigits.cons hc) hexponent
    · split at hnext
      · next hletter =>
        have hnone : AreDigits [] := List.forall_mem_nil _
        cases hnext
        cases h with
        | exponent hpower => exact .fraction hnone (.some (by simpa using hletter) hpower)
      · cases hnext
  | exponent =>
    simp only [next?] at hnext
    split at hnext
    · next hsign =>
      cases hnext
      cases h with
      | exponentSign hdigits => exact .exponent (.signed (by simpa using hsign) hdigits)
    · split at hnext
      · next hc =>
        cases hnext
        cases h with
        | exponentDigits hdigits => exact .exponent (.plain (hdigits.isDigits hc))
      · cases hnext
  | exponentSign =>
    simp only [next?] at hnext
    split at hnext
    · next hc =>
      cases hnext
      cases h with
      | exponentDigits hdigits => exact .exponentSign (hdigits.isDigits hc)
    · cases hnext
  | exponentDigits =>
    simp only [next?] at hnext
    split at hnext
    · next hc =>
      cases hnext
      cases h with
      | exponentDigits hdigits => exact .exponentDigits (hdigits.cons hc)
    · cases hnext

/-- The text leads from the part to one with which a number may end. -/
def Accepts (part : NumberPart) (text : List Char) : Prop :=
  ∃ last, text.foldlM next? part = some last ∧ last.isComplete = true

theorem accepts_nil (hcomplete : part.isComplete = true) : part.Accepts [] :=
  ⟨part, rfl, hcomplete⟩

theorem Accepts.cons (hnext : part.next? c = some next) (h : next.Accepts text) :
    part.Accepts (c :: text) := by
  obtain ⟨last, hlast, hcomplete⟩ := h
  exact ⟨last, by rw [List.foldlM_cons, hnext]; exact hlast, hcomplete⟩

/-- A part that goes on with every digit accepts digits before what it accepts. -/
theorem Accepts.digits (hstays : ∀ c, c.isDigit = true → part.next? c = some part)
    (h : part.Accepts rest) (hdigits : AreDigits text) : part.Accepts (text ++ rest) := by
  induction text with
  | nil => exact h
  | cons c text ih =>
    obtain ⟨hc, htext⟩ := List.forall_mem_cons.mp hdigits
    exact .cons (hstays c hc) (ih htext)

/-- A part from which every digit leads to one that goes on with every digit accepts digits before
what that one accepts. -/
theorem Accepts.isDigits (hnext : ∀ c, c.isDigit = true → part.next? c = some next)
    (hstays : ∀ c, c.isDigit = true → next.next? c = some next) (h : next.Accepts rest)
    (hdigits : IsDigits text) : part.Accepts (text ++ rest) := by
  obtain ⟨c, text, rfl⟩ := List.exists_cons_of_ne_nil hdigits.ne_nil
  obtain ⟨hc, htext⟩ := List.forall_mem_cons.mp hdigits.areDigits
  exact .cons (hnext c hc) (h.digits hstays htext)

theorem accepts_of_isPower (h : IsPower text) : exponent.Accepts text := by
  have hdigits {part : NumberPart} {digits : List Char}
      (hnext : ∀ c, c.isDigit = true → part.next? c = some .exponentDigits)
      (hdigits : IsDigits digits) : part.Accepts digits := by
    have haccepts := Accepts.isDigits hnext (fun _ hc => if_pos hc) (accepts_nil rfl) hdigits
    rwa [List.append_nil] at haccepts
  cases h with
  | plain h =>
    refine hdigits (fun c hc => ?_) h
    have hplus : c ≠ '+' := by rintro rfl; exact absurd hc (by decide)
    have hminus : c ≠ '-' := by rintro rfl; exact absurd hc (by decide)
    simp [next?, hplus, hminus, hc]
  | signed hsign h =>
    have hrest : exponentSign.Accepts _ := hdigits (fun _ hc => if_pos hc) h
    rcases hsign with rfl | rfl
    · exact .cons rfl hrest
    · exact .cons rfl hrest

/-- A part with which a number may end accepts an exponent if it goes on with its letter. -/
theorem accepts_of_isExponent (hcomplete : part.isComplete = true)
    (hlower : part.next? 'e' = some .exponent) (hupper : part.next? 'E' = some .exponent)
    (h : IsExponent text) : part.Accepts text := by
  cases h with
  | none => exact accepts_nil hcomplete
  | some hletter hpower =>
    rcases hletter with rfl | rfl
    · exact .cons hlower (accepts_of_isPower hpower)
    · exact .cons hupper (accepts_of_isPower hpower)

/-- A whole part accepts whatever may stand behind one. -/
theorem accepts_of_isTail (hpart : part = .zero ∨ part = .integer) (h : IsTail text) :
    part.Accepts text := by
  cases h with
  | mk hfraction hexponent =>
    cases hfraction with
    | none => rcases hpart with rfl | rfl <;> exact accepts_of_isExponent rfl rfl rfl hexponent
    | some hdigits =>
      have hpoint : part.next? '.' = some .point := by rcases hpart with rfl | rfl <;> rfl
      have hend : fraction.Accepts _ := accepts_of_isExponent rfl rfl rfl hexponent
      exact .cons hpoint
        (.isDigits (fun _ hc => if_pos hc) (fun _ hc => if_pos hc) hend hdigits)

/-- The part of a number without a sign that its first digit is. -/
def ofDigit (c : Char) : NumberPart :=
  if c = '0' then .zero else .integer

/-- A number without a sign begins with a digit and is accepted behind it. -/
theorem exists_accepts_of_isUnsigned (h : IsUnsigned text) :
    ∃ c rest, text = c :: rest ∧ c.isDigit = true ∧ (ofDigit c).Accepts rest := by
  cases h with
  | @mk whole tail hwhole htail =>
    obtain ⟨c, rest, rfl⟩ := List.exists_cons_of_ne_nil hwhole.ne_nil
    obtain ⟨hc, hrest⟩ := List.forall_mem_cons.mp hwhole.areDigits
    refine ⟨c, rest ++ tail, rfl, hc, ?_⟩
    by_cases hzero : c = '0'
    · obtain rfl : rest = [] := by simpa [hzero] using hwhole.eq_zero
      rw [ofDigit, if_pos hzero]
      exact accepts_of_isTail (.inl rfl) htail
    · rw [ofDigit, if_neg hzero]
      exact (accepts_of_isTail (.inr rfl) htail).digits (fun _ hdigit => if_pos hdigit) hrest

end NumberPart

/-- A number begins with a character that the lexer takes for one, and is accepted behind it. -/
theorem exists_begin?_of_isNumber (h : IsNumber text) :
    ∃ c rest part, text = c :: rest ∧ Lexer.begin? c = some (.number [c] part) ∧
      part.Accepts rest := by
  cases h with
  | plain h =>
    obtain ⟨c, rest, rfl, hc, haccepts⟩ := NumberPart.exists_accepts_of_isUnsigned h
    refine ⟨c, rest, _, rfl, ?_, haccepts⟩
    have hquote : c ≠ '"' := by rintro rfl; exact absurd hc (by decide)
    have hminus : c ≠ '-' := by rintro rfl; exact absurd hc (by decide)
    rw [Lexer.begin?, if_neg hquote, if_neg hminus, NumberPart.ofDigit]
    split <;> simp_all
  | @minus text h =>
    obtain ⟨c, rest, rfl, hc, haccepts⟩ := NumberPart.exists_accepts_of_isUnsigned h
    refine ⟨'-', c :: rest, .minus, rfl, rfl, .cons ?_ haccepts⟩
    rw [NumberPart.next?, NumberPart.ofDigit]
    split <;> simp_all

/-- What the lexer takes for the beginning of a number is one together with what may follow. -/
theorem isNumber_of_begin? {read : List Char}
    (hbegin : Lexer.begin? c = some (.number read part)) :
    read = [c] ∧ ∀ rest, part.MayPrecede rest → IsNumber (c :: rest) := by
  unfold Lexer.begin? at hbegin
  split at hbegin
  · cases hbegin
  split at hbegin
  · next hminus =>
    cases hbegin
    refine ⟨rfl, fun rest h => ?_⟩
    cases h with
    | minus h => exact hminus ▸ .minus h
  split at hbegin
  · next hzero =>
    cases hbegin
    refine ⟨rfl, fun rest h => ?_⟩
    cases h with
    | zero htail => exact hzero ▸ .plain (.mk isWhole_zero htail)
  split at hbegin
  · next hzero hc =>
    cases hbegin
    refine ⟨rfl, fun rest h => ?_⟩
    cases h with
    | integer hdigits htail => exact .plain (.mk (hdigits.isWhole hc hzero) htail)
  repeat' split at hbegin
  all_goals cases hbegin

end LayeredMachines.Json
