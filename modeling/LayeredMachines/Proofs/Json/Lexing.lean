import LayeredMachines.Proofs.Json.Tokens

/-!
# What the lexer accepts

The text behind which the lexer is in some state is covered by the tokens that it has read and by
the beginning of another one. What is missing of that one can be told, since what may still follow
each part of it is known. So at the end of a text that the lexer accepts there is a layout of its
tokens.
-/

namespace LayeredMachines.Json

variable {text before read rest body : List Char} {token : Token} {tokens : List Token}
  {value : Scalar} {lexer next : Lexer} {c : Char}

/-! ### The ends of layouts -/

theorem Layout.append_token (h : Layout text tokens) (hstrict : token.IsStrict) :
    Layout (text ++ token.render) (tokens ++ [token]) := by
  induction h with
  | blank hblank =>
    have hend := Layout.token hblank hstrict (.blank (List.forall_mem_nil _))
    rwa [List.append_nil] at hend
  | token hblank hfirst _ ih =>
    rw [List.append_assoc, List.append_assoc]
    exact .token hblank hfirst ih

theorem Layout.append_space (h : Layout text tokens) (hspace : Lexer.isSpace c = true) :
    Layout (text ++ [c]) tokens := by
  induction h with
  | blank hblank =>
    exact .blank (List.forall_mem_append.mpr ⟨hblank, List.forall_mem_singleton.mpr hspace⟩)
  | token hblank hfirst _ ih =>
    rw [List.append_assoc, List.append_assoc]
    exact .token hblank hfirst ih

/-! ### Strings -/

/-- What may follow a part of an escape in a string. -/
inductive EscapePart.MayPrecede : EscapePart → List Char → Prop where
  | none {body : List Char} (hbody : IsBody body) : MayPrecede .none body
  | letter {body : List Char} (hbody : IsBody ('\\' :: body)) : MayPrecede .letter body
  | hex {digits : Nat} {code body : List Char} (hlength : code.length = max digits 1)
    (hcode : ∀ c ∈ code, (hexValue? c).isSome) (hbody : IsBody body) :
    MayPrecede (.hex digits) (code ++ body)

/-- Four hexadecimal digits denote a code unit. -/
theorem isSome_codeUnit? {a b c d : Char}
    (hcode : ∀ digit ∈ [a, b, c, d], (hexValue? digit).isSome) :
    (codeUnit? a b c d).isSome := by
  simp only [List.forall_mem_cons, Option.isSome_iff_exists] at hcode
  obtain ⟨⟨_, ha⟩, ⟨_, hb⟩, ⟨_, hc⟩, ⟨_, hd⟩, _⟩ := hcode
  simp [codeUnit?, ha, hb, hc, hd]

/-- Behind the letter of a code unit its four digits may follow. -/
theorem EscapePart.MayPrecede.isBody (h : MayPrecede (.hex 4) rest) :
    IsBody ('\\' :: 'u' :: rest) := by
  cases h with
  | @hex _ code body hlength hcode hbody =>
    match code, hlength with
    | [a, b, c, d], _ => exact .code (isSome_codeUnit? hcode) hbody

namespace Lexer

/-- The state of the lexer behind a text. -/
inductive Covers : Lexer → List Char → Prop where
  | between {text : List Char} {tokens : List Token} (h : Layout text tokens.reverse) :
    Covers ⟨tokens, .between⟩ text
  | string {before body : List Char} {part : EscapePart} {tokens : List Token}
    (hbefore : Layout before tokens.reverse)
    (hbody : ∀ rest, part.MayPrecede rest → IsBody (body.reverse ++ rest)) :
    Covers ⟨tokens, .string body part⟩ (before ++ '"' :: body.reverse)
  | number {before read : List Char} {part : NumberPart} {tokens : List Token}
    (hbefore : Layout before tokens.reverse)
    (hnumber : ∀ rest, part.MayPrecede rest → IsNumber (read.reverse ++ rest)) :
    Covers ⟨tokens, .number read part⟩ (before ++ read.reverse)
  | word {before read rest : List Char} {value : Scalar} {tokens : List Token}
    (hbefore : Layout before tokens.reverse) (hword : value.render = read ++ rest)
    (hstrict : value.IsStrict) : Covers ⟨tokens, .word rest value⟩ (before ++ read)

/-- A token that is complete belongs to what has been read. -/
theorem Covers.of_token (hbefore : Layout before tokens.reverse) (hstrict : token.IsStrict)
    (htext : text = before ++ token.render) : Covers ⟨token :: tokens, .between⟩ text := by
  have h := hbefore.append_token hstrict
  rw [← List.reverse_cons, ← htext] at h
  exact .between h

/-- A mark is the text of its token. -/
theorem render_of_mark? (hmark : mark? c = some token) :
    token.render = [c] ∧ token.IsStrict := by
  unfold mark? at hmark
  split_ifs at hmark with h h h h h h <;> cases hmark <;> exact ⟨h ▸ rfl, trivial⟩

/-- What begins a word is its first letter. -/
theorem render_of_begin? (hbegin : begin? c = some (.word rest value)) :
    value.render = c :: rest ∧ value.IsStrict := by
  unfold begin? at hbegin
  split_ifs at hbegin with _ _ _ _ hnull htrue hfalse <;> cases hbegin
  · exact ⟨hnull ▸ rfl, trivial⟩
  · exact ⟨htrue ▸ rfl, trivial⟩
  · exact ⟨hfalse ▸ rfl, trivial⟩

/-- Only a quotation mark begins a string. -/
theorem eq_of_begin? {part : EscapePart} (hbegin : begin? c = some (.string body part)) :
    c = '"' ∧ body = [] ∧ part = .none := by
  unfold begin? at hbegin
  split_ifs at hbegin with hquote <;> cases hbegin
  exact ⟨hquote, rfl, rfl⟩

/-- What begins a value is the beginning of its text. -/
theorem covers_of_begin? {scan : Scan} (h : Layout text tokens.reverse)
    (hbegin : begin? c = some scan) : Covers ⟨tokens, scan⟩ (text ++ [c]) := by
  cases scan with
  | between =>
    unfold begin? at hbegin
    split_ifs at hbegin <;> cases hbegin
  | string body part =>
    obtain ⟨rfl, rfl, rfl⟩ := eq_of_begin? hbegin
    refine .string h fun rest hrest => ?_
    cases hrest with
    | none hbody => exact hbody
  | number read part =>
    obtain ⟨rfl, hnumber⟩ := isNumber_of_begin? hbegin
    exact .number h hnumber
  | word rest value =>
    obtain ⟨hword, hstrict⟩ := render_of_begin? hbegin
    exact .word h hword hstrict

/-- A number that is complete is a token behind what is before it. -/
theorem layout_number {part : NumberPart} (hbefore : Layout before tokens.reverse)
    (hnumber : ∀ rest, part.MayPrecede rest → IsNumber (read.reverse ++ rest))
    (hcomplete : part.isComplete = true) :
    Layout (before ++ read.reverse) (Token.scalar (.number read.reverse) :: tokens).reverse := by
  have hread := hnumber [] (NumberPart.mayPrecede_nil hcomplete)
  rw [List.append_nil] at hread
  have hstrict : (Token.scalar (.number read.reverse)).IsStrict := hread
  rw [List.reverse_cons]
  exact hbefore.append_token hstrict

/-- Between tokens another character begins one, or is one, or is white space. -/
theorem covers_of_start (h : Layout text tokens.reverse) (hnext : start tokens c = some next) :
    next.Covers (text ++ [c]) := by
  unfold start at hnext
  split at hnext
  · next hspace =>
    cases hnext
    exact .between (h.append_space hspace)
  split at hnext
  · next token hmark =>
    cases hnext
    obtain ⟨hrender, hstrict⟩ := render_of_mark? hmark
    exact .of_token h hstrict (by rw [hrender])
  · obtain ⟨scan, hbegin, rfl⟩ := Option.map_eq_some_iff.mp hnext
    exact covers_of_begin? h hbegin

/-- What may follow a character of a string may follow what was before it together with that
character, unless the string ends. -/
theorem mayPrecede_of_feedString {part : EscapePart}
    (hnext : feedString tokens body part c = some next) :
    (c = '"' ∧ part = .none ∧ next = ⟨.scalar (.string body.reverse) :: tokens, .between⟩) ∨
    ∃ following, next = ⟨tokens, .string (c :: body) following⟩ ∧
      ∀ rest, following.MayPrecede rest → part.MayPrecede (c :: rest) := by
  cases part with
  | none =>
    simp only [feedString] at hnext
    split at hnext
    · next hquote => exact .inl ⟨hquote, rfl, (Option.some.inj hnext).symm⟩
    split at hnext
    · next hbackslash =>
      refine .inr ⟨.letter, (Option.some.inj hnext).symm, fun rest h => ?_⟩
      cases h with
      | letter hbody => exact hbackslash ▸ .none hbody
    split at hnext
    · cases hnext
    · next hquote hbackslash hcontrol =>
      refine .inr ⟨.none, (Option.some.inj hnext).symm, fun rest h => ?_⟩
      cases h with
      | none hbody =>
        exact .none (.plain hquote hbackslash (Bool.eq_false_iff.mpr hcontrol) hbody)
  | letter =>
    simp only [feedString] at hnext
    split at hnext
    · next hu =>
      refine .inr ⟨.hex 4, (Option.some.inj hnext).symm, fun rest h => ?_⟩
      exact hu ▸ .letter h.isBody
    split at hnext
    · next hletter =>
      refine .inr ⟨.none, (Option.some.inj hnext).symm, fun rest h => ?_⟩
      cases h with
      | none hbody => exact .letter (.short hletter hbody)
    · cases hnext
  | hex digits =>
    simp only [feedString] at hnext
    split at hnext
    · cases hnext
    next hsome =>
    have hc : (hexValue? c).isSome := by simpa [Option.isSome_iff_ne_none] using hsome
    refine .inr ⟨_, (Option.some.inj hnext).symm, fun rest h => ?_⟩
    split at h
    · next hlast =>
      cases h with
      | none hbody =>
        have hlength : [c].length = max digits 1 := by
          rw [List.length_singleton]
          omega
        exact .hex hlength (List.forall_mem_singleton.mpr hc) hbody
    · next hlast =>
      cases h with
      | @hex _ code body hlength hcode hbody =>
        have hlength : (c :: code).length = max digits 1 := by
          rw [List.length_cons]
          omega
        exact .hex hlength (List.forall_mem_cons.mpr ⟨hc, hcode⟩) hbody

/-- The lexer covers a text with one more character if it reads it. -/
theorem Covers.feed (h : lexer.Covers text) (hnext : lexer.feed c = some next) :
    next.Covers (text ++ [c]) := by
  cases h with
  | between h => exact covers_of_start h hnext
  | @string before body part tokens hbefore hbody =>
    rcases mayPrecede_of_feedString hnext with ⟨rfl, rfl, rfl⟩ | ⟨following, rfl, hfollowing⟩
    · have hstrict := hbody [] (.none .nil)
      rw [List.append_nil] at hstrict
      exact .of_token hbefore hstrict (by simp [Token.render, Scalar.render])
    · have hstring (rest : List Char) (hrest : following.MayPrecede rest) :
          IsBody ((c :: body).reverse ++ rest) := by
        simpa using hbody _ (hfollowing rest hrest)
      simpa using Covers.string hbefore hstring
  | @number before read part tokens hbefore hnumber =>
    simp only [Lexer.feed] at hnext
    split at hnext
    · next following hfollowing =>
      cases hnext
      have hread (rest : List Char) (hrest : following.MayPrecede rest) :
          IsNumber ((c :: read).reverse ++ rest) := by
        simpa using hnumber _ (.cons hfollowing hrest)
      simpa using Covers.number hbefore hread
    · split at hnext
      · next hcomplete =>
        exact covers_of_start (layout_number hbefore hnumber hcomplete) hnext
      · cases hnext
  | @word before read rest value tokens hbefore hword hstrict =>
    cases rest with
    | nil => cases hnext
    | cons expected rest =>
      simp only [Lexer.feed] at hnext
      split at hnext
      · next hc =>
        split at hnext
        · next hend =>
          cases hnext
          refine .of_token hbefore hstrict ?_
          simp [Token.render, hword, List.isEmpty_iff.mp hend, hc]
        · cases hnext
          rw [List.append_assoc]
          exact .word hbefore (by simp [hword, hc]) hstrict
      · cases hnext

/-- The lexer covers what it has read. -/
theorem Covers.foldlM (h : lexer.Covers before) (hnext : text.foldlM Lexer.feed lexer = some next) :
    next.Covers (before ++ text) := by
  induction text generalizing lexer before with
  | nil =>
    cases hnext
    rwa [List.append_nil]
  | cons c text ih =>
    obtain ⟨behind, hbehind, hrest⟩ := Option.bind_eq_some_iff.mp hnext
    have hcovers := ih (h.feed hbehind) hrest
    rwa [List.append_assoc] at hcovers

/-- A text that the lexer covers at its end is a layout of the tokens that it gives. -/
theorem Covers.finish (h : lexer.Covers text) (htokens : lexer.finish = some tokens) :
    Layout text tokens := by
  cases h with
  | between h =>
    cases htokens
    exact h
  | @number before read part tokens hbefore hnumber =>
    simp only [Lexer.finish] at htokens
    split at htokens
    · next hcomplete =>
      cases htokens
      exact layout_number hbefore hnumber hcomplete
    · cases htokens
  | string => cases htokens
  | word => cases htokens

end Lexer

/-- A text is a layout of the tokens that it has. -/
theorem layout_of_tokens? (htokens : tokens? text = some tokens) : Layout text tokens := by
  obtain ⟨lexer, hlexer, hfinish⟩ := Option.bind_eq_some_iff.mp htokens
  have hinitial : Lexer.initial.Covers [] := .between (.blank (List.forall_mem_nil _))
  have hcovers := hinitial.foldlM hlexer
  rw [List.nil_append] at hcovers
  exact hcovers.finish hfinish

end LayeredMachines.Json
