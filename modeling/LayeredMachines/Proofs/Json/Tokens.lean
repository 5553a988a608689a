import LayeredMachines.Proofs.Json.Numbers
import LayeredMachines.Proofs.Json.Strings
import Mathlib.Data.List.Chain

/-!
# Texts of tokens

A text is a layout of tokens if these follow one another in it, with or without white space
between them. The lexer finds the tokens of every layout in which no two values without parts stand
side by side, for only a number could go on in what stands behind it.
-/

namespace LayeredMachines.Json

/-- A value without parts that keeps to the grammar of numbers and strings. -/
def Scalar.IsStrict : Scalar → Prop
  | .number text => IsNumber text
  | .string body => IsBody body
  | .null | .bool _ => True

namespace Token

/-- The text of a token. -/
def render : Token → List Char
  | .beginArray => ['[']
  | .endArray => [']']
  | .beginObject => ['\x7b']
  | .endObject => ['\x7d']
  | .colon => [':']
  | .comma => [',']
  | .scalar value => value.render

/-- A token that keeps to the grammar. -/
def IsStrict : Token → Prop
  | .scalar value => value.IsStrict
  | _ => True

/-- The token is a value. -/
def isScalar : Token → Bool
  | .scalar _ => true
  | _ => false

end Token

/-- White space. -/
def IsBlank (text : List Char) : Prop :=
  ∀ c ∈ text, Lexer.isSpace c = true

/-- The text consists of tokens, which are strict, and of white space before, between and behind
them. -/
inductive Layout : List Char → List Token → Prop where
  | blank {blank : List Char} (hblank : IsBlank blank) : Layout blank []
  | token {blank rest : List Char} {token : Token} {tokens : List Token} (hblank : IsBlank blank)
    (hstrict : token.IsStrict) (hrest : Layout rest tokens) :
    Layout (blank ++ (token.render ++ rest)) (token :: tokens)

/-- No two values stand side by side. -/
def AreSeparated (tokens : List Token) : Prop :=
  tokens.IsChain fun token next => token.isScalar = true → next.isScalar = false

namespace Lexer

variable {lexer : Lexer} {scan : Scan} {token : Token} {tokens held : List Token} {c : Char}
  {text blank body rest : List Char}

/-- The lexer has read the tokens, the last one first. A number may still go on. -/
inductive Holds : Lexer → List Token → Prop where
  | between (tokens : List Token) : Holds ⟨tokens, .between⟩ tokens
  | number {text : List Char} {part : NumberPart} (tokens : List Token)
    (hcomplete : part.isComplete = true) :
    Holds ⟨tokens, .number text part⟩ (.scalar (.number text.reverse) :: tokens)

/-- No number goes on with white space. -/
theorem next?_of_isSpace (hspace : isSpace c = true) (part : NumberPart) :
    part.next? c = none := by
  simp only [isSpace, Bool.or_eq_true, beq_iff_eq] at hspace
  rcases hspace with ((rfl | rfl) | rfl) | rfl <;> cases part <;> rfl

/-- No number goes on with a mark. -/
theorem next?_of_mark? (hmark : mark? c = some token) (part : NumberPart) :
    part.next? c = none := by
  unfold mark? at hmark
  split_ifs at hmark with h h h h h h <;> subst h <;> cases part <;> rfl

/-- Reading a text begins with its first character. -/
theorem foldlM_feed_cons {next : Lexer} (hfeed : lexer.feed c = some next) (text : List Char) :
    (c :: text).foldlM feed lexer = text.foldlM feed next := by
  rw [List.foldlM_cons, hfeed]
  rfl

/-- Behind what no number goes on with the lexer begins anew. -/
theorem Holds.feed_eq (h : lexer.Holds held) (hends : ∀ part : NumberPart, part.next? c = none) :
    lexer.feed c = start held c := by
  cases h with
  | between => rfl
  | number tokens hcomplete => simp only [feed, hends, hcomplete, if_true]

/-- White space changes nothing about what has been read. -/
theorem Holds.foldlM_blank (h : lexer.Holds held) (hblank : IsBlank blank) :
    ∃ next, blank.foldlM feed lexer = some next ∧ next.Holds held ∧
      (lexer.scan = .between → next.scan = .between) := by
  induction blank generalizing lexer with
  | nil => exact ⟨lexer, rfl, h, id⟩
  | cons c blank ih =>
    obtain ⟨hspace, hrest⟩ := List.forall_mem_cons.mp hblank
    obtain ⟨next, hnext, hheld, hscan⟩ := ih (.between held) hrest
    have hfeed : lexer.feed c = some ⟨held, .between⟩ := by
      rw [h.feed_eq (next?_of_isSpace hspace), start, if_pos hspace]
    exact ⟨next, by rw [foldlM_feed_cons hfeed, hnext], hheld, fun _ => hscan rfl⟩

/-- A mark is read behind whatever has been read. -/
theorem Holds.feed_mark (h : lexer.Holds held) (hspace : isSpace c = false)
    (hmark : mark? c = some token) : lexer.feed c = some ⟨token :: held, .between⟩ := by
  rw [h.feed_eq (next?_of_mark? hmark), start, if_neg (by simp [hspace]), hmark]

/-- White space begins no value. -/
theorem begin?_of_isSpace (hspace : isSpace c = true) : begin? c = none := by
  simp only [isSpace, Bool.or_eq_true, beq_iff_eq] at hspace
  rcases hspace with ((rfl | rfl) | rfl) | rfl <;> rfl

/-- A mark begins no value. -/
theorem begin?_of_mark? (hmark : mark? c = some token) : begin? c = none := by
  unfold mark? at hmark
  split_ifs at hmark with h h h h h h <;> subst h <;> rfl

/-- What begins a value is read where no number goes on. -/
theorem feed_of_begin? (hbegin : begin? c = some scan) (tokens : List Token) :
    feed ⟨tokens, .between⟩ c = some ⟨tokens, scan⟩ := by
  have hspace : isSpace c ≠ true := fun hspace => by
    simp [begin?_of_isSpace hspace] at hbegin
  have hmark : mark? c = none := by
    cases hmark : mark? c with
    | none => rfl
    | some token => simp [begin?_of_mark? hmark] at hbegin
  simp only [feed, start, if_neg hspace, hmark, hbegin, Option.map_some]

/-! ### Values without parts -/

/-- A number is read up to its end, where it might go on. -/
theorem foldlM_feed_of_accepts {part : NumberPart} (h : part.Accepts rest)
    (tokens : List Token) (text : List Char) :
    ∃ last, rest.foldlM feed ⟨tokens, .number text part⟩ =
        some ⟨tokens, .number (rest.reverse ++ text) last⟩ ∧ last.isComplete = true := by
  obtain ⟨last, hlast, hcomplete⟩ := h
  refine ⟨last, ?_, hcomplete⟩
  induction rest generalizing part text with
  | nil =>
    cases hlast
    rfl
  | cons c rest ih =>
    obtain ⟨next, hnext, hrest⟩ := Option.bind_eq_some_iff.mp hlast
    have hfeed : feed ⟨tokens, .number text part⟩ c = some ⟨tokens, .number (c :: text) next⟩ := by
      simp only [feed, hnext]
    rw [foldlM_feed_cons hfeed, List.reverse_cons, List.append_assoc]
    exact ih (c :: text) hrest

/-- The lexer reads every number, and holds it. -/
theorem foldlM_feed_number (hnumber : IsNumber text) (tokens : List Token) :
    ∃ next, text.foldlM feed ⟨tokens, .between⟩ = some next ∧
      next.Holds (.scalar (.number text) :: tokens) := by
  obtain ⟨c, rest, part, rfl, hbegin, haccepts⟩ := exists_begin?_of_isNumber hnumber
  obtain ⟨last, hlast, hcomplete⟩ := foldlM_feed_of_accepts haccepts tokens [c]
  refine ⟨⟨tokens, .number (rest.reverse ++ [c]) last⟩, ?_, ?_⟩
  · rw [foldlM_feed_cons (feed_of_begin? hbegin tokens), hlast]
  · have hholds : Holds ⟨tokens, .number (rest.reverse ++ [c]) last⟩ _ :=
      .number tokens hcomplete
    simpa using hholds

/-- The four digits of a code unit are read. -/
theorem foldlM_feed_code {a b c d : Char} (hcode : (codeUnit? a b c d).isSome)
    (tokens : List Token) (text : List Char) :
    [a, b, c, d].foldlM feed ⟨tokens, .string text (.hex 4)⟩ =
      some ⟨tokens, .string (d :: c :: b :: a :: text) .none⟩ := by
  obtain ⟨ha, hb, hc, hd⟩ := isSome_of_codeUnit? hcode
  have hdigit {c : Char} (hc : (hexValue? c).isSome) (text : List Char) (digits : Nat) :
      feed ⟨tokens, .string text (.hex digits)⟩ c =
        some ⟨tokens, .string (c :: text) (if digits ≤ 1 then .none else .hex (digits - 1))⟩ := by
    have hsome : (hexValue? c).isNone = false := by simp [hc]
    simp [feed, feedString, hsome]
  refine (foldlM_feed_cons (hdigit ha text 4) [b, c, d]).trans ?_
  refine (foldlM_feed_cons (hdigit hb _ 3) [c, d]).trans ?_
  refine (foldlM_feed_cons (hdigit hc _ 2) [d]).trans ?_
  exact foldlM_feed_cons (hdigit hd _ 1) []

/-- The lexer reads what stands between quotation marks. -/
theorem foldlM_feed_body (hbody : IsBody body) (tokens : List Token) (text : List Char) :
    body.foldlM feed ⟨tokens, .string text .none⟩ =
      some ⟨tokens, .string (body.reverse ++ text) .none⟩ := by
  have hescape (text : List Char) : feed ⟨tokens, .string text .none⟩ '\\' =
      some ⟨tokens, .string ('\\' :: text) .letter⟩ := rfl
  induction hbody generalizing text with
  | nil => rfl
  | @plain c body hquote hbackslash hcontrol _ ih =>
    have hplain : feed ⟨tokens, .string text .none⟩ c =
        some ⟨tokens, .string (c :: text) .none⟩ := by
      simp [feed, feedString, hquote, hbackslash, hcontrol]
    rw [foldlM_feed_cons hplain, ih]
    simp
  | @short letter body hletter _ ih =>
    obtain ⟨c, hc⟩ := Option.isSome_iff_exists.mp hletter
    have hshort : feed ⟨tokens, .string ('\\' :: text) .letter⟩ letter =
        some ⟨tokens, .string (letter :: '\\' :: text) .none⟩ := by
      simp [feed, feedString, ne_u_of_shortEscape? hc, hletter]
    rw [foldlM_feed_cons (hescape text), foldlM_feed_cons hshort, ih]
    simp
  | @code a b c d body hcode _ ih =>
    have hletter : feed ⟨tokens, .string ('\\' :: text) .letter⟩ 'u' =
        some ⟨tokens, .string ('u' :: '\\' :: text) (.hex 4)⟩ := rfl
    have hdigits := foldlM_feed_code hcode tokens ('u' :: '\\' :: text)
    have happend : a :: b :: c :: d :: body = [a, b, c, d] ++ body := rfl
    rw [foldlM_feed_cons (hescape text), foldlM_feed_cons hletter, happend, List.foldlM_append,
      hdigits]
    simp [ih]

/-- The lexer reads every value without parts where no number goes on, and holds it. -/
theorem foldlM_feed_scalar {value : Scalar} (hstrict : value.IsStrict) (tokens : List Token) :
    ∃ next, value.render.foldlM feed ⟨tokens, .between⟩ = some next ∧
      next.Holds (.scalar value :: tokens) := by
  cases value with
  | null => exact ⟨_, rfl, .between _⟩
  | bool value => cases value <;> exact ⟨_, rfl, .between _⟩
  | number text => exact foldlM_feed_number hstrict tokens
  | string body =>
    have hclose : feed ⟨tokens, .string body.reverse .none⟩ '"' =
        some ⟨.scalar (.string body) :: tokens, .between⟩ := by
      simp [feed, feedString]
    have hopen : feed ⟨tokens, .between⟩ '"' = some ⟨tokens, .string [] .none⟩ :=
      feed_of_begin? rfl tokens
    refine ⟨_, ?_, .between _⟩
    rw [Scalar.render, List.cons_append, foldlM_feed_cons hopen, List.foldlM_append,
      foldlM_feed_body hstrict, List.append_nil]
    exact foldlM_feed_cons hclose []

/-! ### Layouts -/

/-- The lexer reads every token, unless it is a value behind a number that might go on. -/
theorem Holds.foldlM_token (h : lexer.Holds held) (hstrict : token.IsStrict)
    (hscan : token.isScalar = true → lexer.scan = .between) :
    ∃ next, token.render.foldlM feed lexer = some next ∧ next.Holds (token :: held) := by
  have hmark {c : Char} (hspace : isSpace c = false) (hmark : mark? c = some token) :
      ∃ next, [c].foldlM feed lexer = some next ∧ next.Holds (token :: held) :=
    ⟨_, by rw [foldlM_feed_cons (h.feed_mark hspace hmark)]; rfl, .between _⟩
  cases token with
  | scalar value =>
    cases h with
    | between => exact foldlM_feed_scalar hstrict held
    | number => cases hscan rfl
  | _ => exact hmark (by decide) rfl

/-- Behind a token that is no value the lexer is between tokens. -/
theorem Holds.scan_eq (h : lexer.Holds (token :: held)) (hscalar : token.isScalar = false) :
    lexer.scan = .between := by
  cases h with
  | between => rfl
  | number => cases hscalar

/-- The lexer reads the tokens of a layout. -/
theorem Holds.foldlM_layout (h : lexer.Holds held) (hlayout : Layout text tokens)
    (hseparated : AreSeparated tokens)
    (hscan : ∀ token ∈ tokens.head?, token.isScalar = true → lexer.scan = .between) :
    ∃ next, text.foldlM feed lexer = some next ∧ next.Holds (tokens.reverse ++ held) := by
  induction hlayout generalizing lexer held with
  | blank hblank =>
    obtain ⟨next, hnext, hheld, _⟩ := h.foldlM_blank hblank
    exact ⟨next, hnext, hheld⟩
  | @token blank rest token tokens hblank hstrict _ ih =>
    obtain ⟨before, hbefore, hheld, hbetween⟩ := h.foldlM_blank hblank
    obtain ⟨behind, hbehind, hbehindHeld⟩ := hheld.foldlM_token hstrict
      fun hscalar => hbetween (hscan token rfl hscalar)
    obtain ⟨hhead, htail⟩ := List.isChain_cons.mp hseparated
    obtain ⟨next, hnext, hnextHeld⟩ := ih hbehindHeld htail fun following hfollowing hscalar => by
      refine hbehindHeld.scan_eq (Bool.eq_false_iff.mpr fun htoken => ?_)
      simp [hhead following hfollowing htoken] at hscalar
    refine ⟨next, ?_, by simpa using hnextHeld⟩
    rw [List.foldlM_append, hbefore]
    simp only [Option.bind_eq_bind, Option.bind_some]
    rw [List.foldlM_append, hbehind]
    exact hnext

/-- A lexer at the end of a text gives what it has read. -/
theorem Holds.finish_eq (h : lexer.Holds held) : lexer.finish = some held.reverse := by
  cases h with
  | between => rfl
  | number tokens hcomplete => simp [finish, hcomplete]

end Lexer

/-- A text has the tokens that it is a layout of, if no two values stand side by side. -/
theorem tokens?_of_layout {text : List Char} {tokens : List Token} (hlayout : Layout text tokens)
    (hseparated : AreSeparated tokens) : tokens? text = some tokens := by
  have hbegins : Lexer.Holds Lexer.initial [] := .between []
  obtain ⟨next, hnext, hheld⟩ :=
    hbegins.foldlM_layout hlayout hseparated fun _ _ _ => rfl
  rw [tokens?, hnext, Option.bind_some, hheld.finish_eq]
  simp

end LayeredMachines.Json
