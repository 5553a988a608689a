import LayeredMachines.Json.Escape

/-!
# The grammar of strings in JSON

What may stand between the quotation marks of a string, and which characters it denotes. Not all
that may stand there denotes anything: an escaped half of a surrogate pair needs its other half.
Every sequence of characters is denoted, by its escaped form among others.
-/

namespace LayeredMachines.Json

variable {a b c d letter : Char} {n high low : Nat} {body text : List Char} {unit : Unit16}
  {units : List Unit16}

/-- The code unit that four hexadecimal digits denote. -/
def codeUnit? (a b c d : Char) : Option Nat := do
  let a ← hexValue? a
  let b ← hexValue? b
  let c ← hexValue? c
  let d ← hexValue? d
  some (((a * 16 + b) * 16 + c) * 16 + d)

/-- Only hexadecimal digits denote a code unit. -/
theorem isSome_of_codeUnit? (hcode : (codeUnit? a b c d).isSome) :
    (hexValue? a).isSome ∧ (hexValue? b).isSome ∧ (hexValue? c).isSome ∧
      (hexValue? d).isSome := by
  obtain ⟨n, hn⟩ := Option.isSome_iff_exists.mp hcode
  simp only [codeUnit?, Option.bind_eq_bind, Option.bind_eq_some_iff] at hn
  obtain ⟨_, ha, _, hb, _, hc, _, hd, _⟩ := hn
  exact ⟨Option.isSome_of_mem ha, Option.isSome_of_mem hb, Option.isSome_of_mem hc,
    Option.isSome_of_mem hd⟩

/-- What may stand between the quotation marks of a string: characters other than the quotation
mark, the backslash and the control characters, and escapes. -/
inductive IsBody : List Char → Prop where
  | nil : IsBody []
  | plain {c : Char} {body : List Char} (hquote : c ≠ '"') (hbackslash : c ≠ '\\')
    (hcontrol : isControl c = false) (hrest : IsBody body) : IsBody (c :: body)
  | short {letter : Char} {body : List Char} (hletter : (shortEscape? letter).isSome)
    (hrest : IsBody body) : IsBody ('\\' :: letter :: body)
  | code {a b c d : Char} {body : List Char} (hcode : (codeUnit? a b c d).isSome)
    (hrest : IsBody body) : IsBody ('\\' :: 'u' :: a :: b :: c :: d :: body)

/-- The characters that are denoted by what stands between quotation marks. A code unit that is
no surrogate denotes the character with its number, and a surrogate pair one character. -/
inductive Denotes : List Char → List Char → Prop where
  | nil : Denotes [] []
  | plain {c : Char} {body text : List Char} (hbackslash : c ≠ '\\') (hrest : Denotes body text) :
    Denotes (c :: body) (c :: text)
  | short {letter c : Char} {body text : List Char} (hletter : shortEscape? letter = some c)
    (hrest : Denotes body text) : Denotes ('\\' :: letter :: body) (c :: text)
  | code {a b c d : Char} {n : Nat} {body text : List Char} (hcode : codeUnit? a b c d = some n)
    (hhigh : isHighSurrogate n = false) (hlow : isLowSurrogate n = false)
    (hrest : Denotes body text) :
    Denotes ('\\' :: 'u' :: a :: b :: c :: d :: body) (Char.ofNat n :: text)
  | pair {a b c d e f g h : Char} {high low : Nat} {body text : List Char}
    (hfirst : codeUnit? a b c d = some high) (hsecond : codeUnit? e f g h = some low)
    (hhigh : isHighSurrogate high = true) (hlow : isLowSurrogate low = true)
    (hrest : Denotes body text) :
    Denotes ('\\' :: 'u' :: a :: b :: c :: d :: '\\' :: 'u' :: e :: f :: g :: h :: body)
      (pairChar high low :: text)

/-! ### Reading -/

/-- The letter of a short escape is no `u`. -/
theorem ne_u_of_shortEscape? (hletter : shortEscape? letter = some c) : letter ≠ 'u' := by
  rintro rfl
  have hnone : shortEscape? 'u' = none := by decide
  simp [hnone] at hletter

theorem units?_plain (hbackslash : c ≠ '\\') :
    units? (c :: body) = (units? body).map (.char c :: ·) := by
  rw [units?.eq_def]
  split <;> simp_all

theorem units?_short (hletter : shortEscape? letter = some c) :
    units? ('\\' :: letter :: body) = (units? body).map (.char c :: ·) := by
  have hu := ne_u_of_shortEscape? hletter
  rw [units?, hletter]
  · cases units? body <;> rfl
  · rintro _ _ _ _ _ rfl
    exact absurd rfl hu

theorem units?_code (hcode : codeUnit? a b c d = some n) :
    units? ('\\' :: 'u' :: a :: b :: c :: d :: body) = (units? body).map (.code n :: ·) := by
  rw [units?]
  simp only [codeUnit?, Option.bind_eq_bind, Option.bind_eq_some_iff] at hcode
  obtain ⟨a, ha, b, hb, c, hc, d, hd, hn⟩ := hcode
  cases hn
  simp only [ha, hb, hc, hd]
  cases units? body <;> rfl

/-- What the first thing written in a string is, and where it stands. -/
theorem units?_eq_cons (hunits : units? body = some (unit :: units)) :
    (∃ c rest, unit = .char c ∧ body = c :: rest ∧ c ≠ '\\' ∧ units? rest = some units) ∨
    (∃ letter c rest, unit = .char c ∧ body = '\\' :: letter :: rest ∧
      shortEscape? letter = some c ∧ units? rest = some units) ∨
    (∃ a b c d n rest, unit = .code n ∧ body = '\\' :: 'u' :: a :: b :: c :: d :: rest ∧
      codeUnit? a b c d = some n ∧ units? rest = some units) := by
  rw [units?.eq_def] at hunits
  split at hunits
  · cases hunits
  · next a b c d rest =>
    simp only [Option.bind_eq_bind, Option.bind_eq_some_iff] at hunits
    obtain ⟨a', ha, b', hb, c', hc, d', hd, units', hrest, heq⟩ := hunits
    cases heq
    refine .inr (.inr ⟨a, b, c, d, _, rest, rfl, rfl, ?_, hrest⟩)
    simp [codeUnit?, ha, hb, hc, hd]
  · next letter rest _ =>
    simp only [Option.bind_eq_bind, Option.bind_eq_some_iff] at hunits
    obtain ⟨c, hletter, units', hrest, heq⟩ := hunits
    cases heq
    exact .inr (.inl ⟨letter, c, rest, rfl, rfl, hletter, hrest⟩)
  · next c rest _ _ =>
    split at hunits
    · cases hunits
    · next hbackslash =>
      obtain ⟨units', hrest, heq⟩ := Option.map_eq_some_iff.mp hunits
      cases heq
      exact .inl ⟨c, rest, rfl, rfl, hbackslash, hrest⟩

/-- Where a code unit that is written first in a string stands. -/
theorem units?_eq_code (hunits : units? body = some (.code n :: units)) :
    ∃ a b c d rest, body = '\\' :: 'u' :: a :: b :: c :: d :: rest ∧
      codeUnit? a b c d = some n ∧ units? rest = some units := by
  rcases units?_eq_cons hunits with ⟨_, _, hunit, _⟩ | ⟨_, _, _, hunit, _⟩ |
    ⟨a, b, c, d, _, rest, hunit, hcode⟩
  · cases hunit
  · cases hunit
  · cases hunit
    exact ⟨a, b, c, d, rest, hcode⟩

theorem units?_eq_nil (hunits : units? body = some []) : body = [] := by
  rw [units?.eq_def] at hunits
  split at hunits
  · rfl
  all_goals simp [Option.bind_eq_some_iff] at hunits

theorem characters?_code (hhigh : isHighSurrogate n = false) (hlow : isLowSurrogate n = false) :
    characters? (.code n :: units) = (characters? units).map (Char.ofNat n :: ·) := by
  rw [characters?.eq_def]
  split <;> simp_all

theorem characters?_pair (hhigh : isHighSurrogate high = true)
    (hlow : isLowSurrogate low = true) :
    characters? (.code high :: .code low :: units) =
      (characters? units).map (pairChar high low :: ·) := by
  simp [characters?, hhigh, hlow]

/-- What is denoted is read in two stages. -/
theorem exists_units_of_denotes (h : Denotes body text) :
    ∃ units, units? body = some units ∧ characters? units = some text := by
  induction h with
  | nil => exact ⟨[], rfl, rfl⟩
  | plain hbackslash _ ih =>
    obtain ⟨units, hunits, htext⟩ := ih
    exact ⟨_, by rw [units?_plain hbackslash, hunits]; rfl, by rw [characters?, htext]; rfl⟩
  | short hletter _ ih =>
    obtain ⟨units, hunits, htext⟩ := ih
    exact ⟨_, by rw [units?_short hletter, hunits]; rfl, by rw [characters?, htext]; rfl⟩
  | code hcode hhigh hlow _ ih =>
    obtain ⟨units, hunits, htext⟩ := ih
    exact ⟨_, by rw [units?_code hcode, hunits]; rfl,
      by rw [characters?_code hhigh hlow, htext]; rfl⟩
  | pair hfirst hsecond hhigh hlow _ ih =>
    obtain ⟨units, hunits, htext⟩ := ih
    exact ⟨_, by rw [units?_code hfirst, units?_code hsecond, hunits]; rfl,
      by rw [characters?_pair hhigh hlow, htext]; rfl⟩

/-- What is read in two stages is denoted. -/
theorem denotes_of_units (hunits : units? body = some units)
    (htext : characters? units = some text) : Denotes body text := by
  have hcode {n : Nat} {units : List Unit16} {body text : List Char}
      (hunits : units? body = some (.code n :: units)) (hhigh : isHighSurrogate n = false)
      (hlow : isLowSurrogate n = false)
      (htext : (characters? units).map (Char.ofNat n :: ·) = some text)
      (ih : ∀ {body text : List Char}, units? body = some units →
        characters? units = some text → Denotes body text) : Denotes body text := by
    obtain ⟨a, b, c, d, rest, rfl, hcode, hunits⟩ := units?_eq_code hunits
    obtain ⟨text, hrest, rfl⟩ := Option.map_eq_some_iff.mp htext
    exact .code hcode hhigh hlow (ih hunits hrest)
  fun_induction characters? units generalizing body text with
  | case1 =>
    cases htext
    rw [units?_eq_nil hunits]
    exact .nil
  | case2 c units ih =>
    obtain ⟨text, hrest, rfl⟩ := Option.map_eq_some_iff.mp htext
    rcases units?_eq_cons hunits with ⟨_, body, hunit, rfl, hplain, hbody⟩ |
      ⟨letter, _, body, hunit, rfl, hletter, hbody⟩ | ⟨_, _, _, _, _, _, hunit, _⟩
    · cases hunit
      exact .plain hplain (ih hbody hrest)
    · cases hunit
      exact .short hletter (ih hbody hrest)
    · cases hunit
  | case3 high low units hhigh hlow ih =>
    -- The two halves of a pair are taken together.
    obtain ⟨a, b, c, d, _, rfl, hfirst, hunits⟩ := units?_eq_code hunits
    obtain ⟨e, f, g, h, rest, rfl, hsecond, hunits⟩ := units?_eq_code hunits
    obtain ⟨text, hrest, rfl⟩ := Option.map_eq_some_iff.mp htext
    exact .pair hfirst hsecond hhigh hlow (ih hunits hrest)
  | case4 => cases htext
  | case5 => cases htext
  | case6 high low units hhigh hlow ih =>
    exact hcode hunits (Bool.eq_false_iff.mpr hhigh) (Bool.eq_false_iff.mpr hlow) htext ih
  | case7 => cases htext
  | case8 n units _ hsurrogate ih =>
    obtain ⟨hhigh, hlow⟩ := Bool.or_eq_false_iff.mp (Bool.eq_false_iff.mpr hsurrogate)
    exact hcode hunits hhigh hlow htext ih

/-- A string is decoded to what it denotes. -/
theorem unescape?_eq_some_iff {text : String} :
    unescape? body = some text ↔ Denotes body text.toList := by
  constructor
  · intro h
    obtain ⟨characters, hread, rfl⟩ := Option.map_eq_some_iff.mp h
    obtain ⟨units, hunits, htext⟩ := Option.bind_eq_some_iff.mp hread
    rw [String.toList_ofList]
    exact denotes_of_units hunits htext
  · intro h
    obtain ⟨units, hunits, htext⟩ := exists_units_of_denotes h
    simp [unescape?, hunits, htext]

/-! ### Writing -/

/-- The escape of a control character denotes its number. -/
theorem codeUnit?_control (hcontrol : isControl c = true) :
    codeUnit? '0' '0' (hexDigit (c.toNat / 16)) (hexDigit (c.toNat % 16)) = some c.toNat := by
  have hdigits : ∀ n : Fin 32,
      codeUnit? '0' '0' (hexDigit (n / 16)) (hexDigit (n % 16)) = some n := by decide
  exact hdigits ⟨c.toNat, of_decide_eq_true hcontrol⟩

/-- A character is written as a short escape, as a code unit, or as itself. -/
theorem escapeChar_cases (c : Char) :
    (∃ letter, escapeChar c = ['\\', letter] ∧ shortEscape? letter = some c) ∨
    (∃ a d, escapeChar c = ['\\', 'u', '0', '0', a, d] ∧
      codeUnit? '0' '0' a d = some c.toNat ∧ isControl c = true) ∨
    (escapeChar c = [c] ∧ c ≠ '"' ∧ c ≠ '\\' ∧ isControl c = false) := by
  generalize hwritten : escapeChar c = written
  unfold escapeChar at hwritten
  split at hwritten
  · next hquote => exact .inl ⟨'"', hwritten.symm, by rw [hquote]; rfl⟩
  split at hwritten
  · next hbackslash => exact .inl ⟨'\\', hwritten.symm, by rw [hbackslash]; rfl⟩
  split at hwritten
  · next hbackspace => exact .inl ⟨'b', hwritten.symm, by rw [hbackspace]; rfl⟩
  split at hwritten
  · next hformFeed => exact .inl ⟨'f', hwritten.symm, by rw [hformFeed]; rfl⟩
  split at hwritten
  · next hlineFeed => exact .inl ⟨'n', hwritten.symm, by rw [hlineFeed]; rfl⟩
  split at hwritten
  · next hreturn => exact .inl ⟨'r', hwritten.symm, by rw [hreturn]; rfl⟩
  split at hwritten
  · next htab => exact .inl ⟨'t', hwritten.symm, by rw [htab]; rfl⟩
  split at hwritten
  · next hcontrol =>
    exact .inr (.inl ⟨_, _, hwritten.symm, codeUnit?_control hcontrol, hcontrol⟩)
  · next hquote hbackslash _ _ _ _ _ hcontrol =>
    exact .inr (.inr ⟨hwritten.symm, hquote, hbackslash, Bool.eq_false_iff.mpr hcontrol⟩)

/-- The written form of a string may stand between quotation marks. -/
theorem isBody_escape (text : List Char) : IsBody (escape text) := by
  induction text with
  | nil => exact .nil
  | cons c text ih =>
    rw [escape, List.flatMap_cons]
    rcases escapeChar_cases c with ⟨letter, hc, hletter⟩ | ⟨a, d, hc, hcode, _⟩ |
      ⟨hc, hquote, hbackslash, hcontrol⟩
    · rw [hc]
      exact .short (Option.isSome_of_mem hletter) ih
    · rw [hc]
      exact .code (Option.isSome_of_mem hcode) ih
    · rw [hc]
      exact .plain hquote hbackslash hcontrol ih

/-- The written form of a string denotes it. -/
theorem denotes_escape (text : List Char) : Denotes (escape text) text := by
  induction text with
  | nil => exact .nil
  | cons c text ih =>
    rw [escape, List.flatMap_cons]
    rcases escapeChar_cases c with ⟨letter, hc, hletter⟩ | ⟨a, d, hc, hcode, hcontrol⟩ |
      ⟨hc, _, hbackslash, _⟩
    · rw [hc]
      exact .short hletter ih
    · have hsmall : c.toNat < 0x20 := of_decide_eq_true hcontrol
      have hhigh : isHighSurrogate c.toNat = false := by
        simp only [isHighSurrogate, Bool.and_eq_false_iff, decide_eq_false_iff_not]
        omega
      have hlow : isLowSurrogate c.toNat = false := by
        simp only [isLowSurrogate, Bool.and_eq_false_iff, decide_eq_false_iff_not]
        omega
      have hdenotes := Denotes.code hcode hhigh hlow ih
      rw [Char.ofNat_toNat] at hdenotes
      rw [hc]
      exact hdenotes
    · rw [hc]
      exact .plain hbackslash ih

end LayeredMachines.Json
