import LayeredMachines.Proofs.Json.Lexing
import LayeredMachines.Proofs.Json.Values

/-!
# What is read as a value

The tokens behind which the reader is in some state are those of what is still open, up to the part
that is expected next. So a value is read from its own tokens only, and from the texts that spell
it.
-/

namespace LayeredMachines.Json

/-- The tokens of items, each before a comma. -/
def Value.tokensOfItems (items : List Value) : List Token :=
  items.flatMap fun item => item.tokens ++ [.comma]

/-- The tokens of members, each before a comma. -/
def Value.tokensOfMembers (members : List (List Char × Value)) : List Token :=
  members.flatMap fun member =>
    .scalar (.string member.1) :: .colon :: (member.2.tokens ++ [.comma])

theorem Value.tokensOfItems_cons (item : Value) (items : List Value) :
    Value.tokensOfItems (item :: items) = item.tokens ++ (Value.itemTokens items ++ [.comma]) := by
  induction items generalizing item with
  | nil => simp [tokensOfItems, itemTokens]
  | cons next items ih =>
    have hrest := ih next
    simp only [tokensOfItems, List.flatMap_cons] at hrest ⊢
    simp [hrest, itemTokens]

theorem Value.tokensOfMembers_cons (name : List Char) (value : Value)
    (members : List (List Char × Value)) :
    Value.tokensOfMembers ((name, value) :: members) = .scalar (.string name) :: .colon ::
      (value.tokens ++ (Value.memberTokens members ++ [.comma])) := by
  induction members generalizing name value with
  | nil => simp [tokensOfMembers, memberTokens]
  | cons next members ih =>
    have hrest := ih next.1 next.2
    simp only [tokensOfMembers, List.flatMap_cons] at hrest ⊢
    simp [hrest, memberTokens]

/-- The tokens of an array, where its end is in the place of the last comma. -/
theorem Value.tokens_array_of_comma {before tokens : List Token} {items : List Value}
    (hcomma : tokens ++ [.comma] = before ++ .beginArray :: Value.tokensOfItems items) :
    tokens ++ [.endArray] = before ++ (Value.array items).tokens := by
  cases items with
  | nil =>
    have hlast := congrArg List.getLast? hcomma
    simp [tokensOfItems] at hlast
  | cons item rest =>
    rw [tokensOfItems_cons, ← List.cons_append, ← List.append_assoc, ← List.append_assoc] at hcomma
    simp [List.append_cancel_right hcomma, Value.tokens]

/-- The tokens of an object, where its end is in the place of the last comma. -/
theorem Value.tokens_object_of_comma {before tokens : List Token}
    {members : List (List Char × Value)}
    (hcomma : tokens ++ [.comma] = before ++ .beginObject :: Value.tokensOfMembers members) :
    tokens ++ [.endObject] = before ++ (Value.object members).tokens := by
  cases members with
  | nil =>
    have hlast := congrArg List.getLast? hcomma
    simp [tokensOfMembers] at hlast
  | cons member rest =>
    rw [tokensOfMembers_cons, ← List.cons_append, ← List.cons_append, ← List.cons_append,
      ← List.append_assoc, ← List.append_assoc] at hcomma
    simp [List.append_cancel_right hcomma, Value.tokens]

/-- The tokens of an array or object that is still open. Every finished part has a comma behind
it. -/
def Enclosing.tokens : Enclosing → List Token
  | .array items => .beginArray :: Value.tokensOfItems items.reverse
  | .object members => .beginObject :: Value.tokensOfMembers members.reverse
  | .member members name =>
    .beginObject :: (Value.tokensOfMembers members.reverse ++ [.scalar (.string name), .colon])

/-- The tokens of all that is still open, the innermost first. -/
def opened : List Enclosing → List Token
  | [] => []
  | inner :: rest => opened rest ++ inner.tokens

namespace Parser

variable {value : Value} {enclosing : List Enclosing} {parser next : Parser} {token : Token}
  {tokens before : List Token}

/-- The state of the reader behind some tokens. -/
inductive Covers : Parser → List Token → Prop where
  | value (enclosing : List Enclosing) : Covers ⟨.value, enclosing⟩ (opened enclosing)
  | itemOrEnd (rest : List Enclosing) :
    Covers ⟨.itemOrEnd, .array [] :: rest⟩ (opened (.array [] :: rest))
  | memberOrEnd (rest : List Enclosing) :
    Covers ⟨.memberOrEnd, .object [] :: rest⟩ (opened (.object [] :: rest))
  | member (members : List (List Char × Value)) (rest : List Enclosing) :
    Covers ⟨.member, .object members :: rest⟩ (opened (.object members :: rest))
  | colon {enclosing : List Enclosing} {tokens : List Token}
    (h : tokens ++ [.colon] = opened enclosing) : Covers ⟨.colon, enclosing⟩ tokens
  | commaOrEnd {enclosing : List Enclosing} {tokens : List Token}
    (h : tokens ++ [.comma] = opened enclosing) : Covers ⟨.commaOrEnd, enclosing⟩ tokens
  | nothing (value : Value) : Covers ⟨.nothing value, []⟩ value.tokens

/-- A value that is complete belongs to what is open around it. -/
theorem covers_of_complete (hnext : complete value enclosing = some next) :
    next.Covers (opened enclosing ++ value.tokens) := by
  unfold complete at hnext
  split at hnext
  · cases hnext
    exact .nothing value
  · next items rest =>
    cases hnext
    refine .commaOrEnd ?_
    simp [opened, Enclosing.tokens, Value.tokensOfItems]
  · next members name rest =>
    cases hnext
    refine .commaOrEnd ?_
    simp [opened, Enclosing.tokens, Value.tokensOfMembers]
  · cases hnext

/-- An array may end where it is empty, and behind an item. -/
theorem covers_of_closeArray (hnext : closeArray enclosing = some next)
    (htokens : tokens ++ [.comma] = opened enclosing ∨
      (∃ rest, enclosing = .array [] :: rest) ∧ tokens = opened enclosing) :
    next.Covers (tokens ++ [.endArray]) := by
  unfold closeArray at hnext
  split at hnext
  · next items rest =>
    have heq : tokens ++ [.endArray] = opened rest ++ (Value.array items.reverse).tokens := by
      rcases htokens with hcomma | ⟨⟨_, hempty⟩, htokens⟩
      · exact Value.tokens_array_of_comma hcomma
      · cases hempty
        rw [htokens]
        simp [opened, Enclosing.tokens, Value.tokensOfItems, Value.tokens]
    exact heq ▸ covers_of_complete hnext
  · cases hnext

/-- An object may end where it is empty, and behind a member. -/
theorem covers_of_closeObject (hnext : closeObject enclosing = some next)
    (htokens : tokens ++ [.comma] = opened enclosing ∨
      (∃ rest, enclosing = .object [] :: rest) ∧ tokens = opened enclosing) :
    next.Covers (tokens ++ [.endObject]) := by
  unfold closeObject at hnext
  split at hnext
  · next members rest =>
    have heq : tokens ++ [.endObject] = opened rest ++ (Value.object members.reverse).tokens := by
      rcases htokens with hcomma | ⟨⟨_, hempty⟩, htokens⟩
      · exact Value.tokens_object_of_comma hcomma
      · cases hempty
        rw [htokens]
        simp [opened, Enclosing.tokens, Value.tokensOfMembers, Value.tokens]
    exact heq ▸ covers_of_complete hnext
  · cases hnext

/-- A value begins behind what is open. -/
theorem covers_of_beginValue (hnext : beginValue enclosing token = some next) :
    next.Covers (opened enclosing ++ [token]) := by
  cases token with
  | scalar value => simpa [Value.tokens] using covers_of_complete hnext
  | beginArray =>
    cases hnext
    simpa [opened, Enclosing.tokens, Value.tokensOfItems] using Covers.itemOrEnd enclosing
  | beginObject =>
    cases hnext
    simpa [opened, Enclosing.tokens, Value.tokensOfMembers] using Covers.memberOrEnd enclosing
  | _ => cases hnext

/-- A member begins with its name in an open object. -/
theorem covers_of_beginMember (hnext : beginMember enclosing token = some next) :
    next.Covers (opened enclosing ++ [token]) := by
  unfold beginMember at hnext
  split at hnext
  · cases hnext
    refine .colon ?_
    simp [opened, Enclosing.tokens]
  · cases hnext

/-- The reader covers some tokens with one more if it reads it. -/
theorem Covers.step (h : parser.Covers tokens) (hnext : parser.step token = some next) :
    next.Covers (tokens ++ [token]) := by
  cases h with
  | value enclosing => exact covers_of_beginValue hnext
  | itemOrEnd rest =>
    simp only [Parser.step] at hnext
    split at hnext
    · next hend => exact hend ▸ covers_of_closeArray hnext (.inr ⟨⟨rest, rfl⟩, rfl⟩)
    · exact covers_of_beginValue hnext
  | memberOrEnd rest =>
    simp only [Parser.step] at hnext
    split at hnext
    · next hend => exact hend ▸ covers_of_closeObject hnext (.inr ⟨⟨rest, rfl⟩, rfl⟩)
    · exact covers_of_beginMember hnext
  | member members rest => exact covers_of_beginMember hnext
  | @colon enclosing tokens h =>
    simp only [Parser.step] at hnext
    split at hnext
    · next hcolon =>
      cases hnext
      rw [hcolon, h]
      exact .value enclosing
    · cases hnext
  | @commaOrEnd enclosing tokens h =>
    cases token with
    | comma =>
      rw [h]
      change afterComma enclosing = some next at hnext
      unfold afterComma at hnext
      split at hnext
      · cases hnext
        exact .value _
      · cases hnext
        exact .member _ _
      · cases hnext
    | endArray => exact covers_of_closeArray hnext (.inl h)
    | endObject => exact covers_of_closeObject hnext (.inl h)
    | _ => cases hnext
  | nothing value => cases hnext

/-- The reader covers the tokens that it has read. -/
theorem Covers.foldlM (h : parser.Covers before)
    (hnext : tokens.foldlM Parser.step parser = some next) : next.Covers (before ++ tokens) := by
  induction tokens generalizing parser before with
  | nil =>
    cases hnext
    rwa [List.append_nil]
  | cons token tokens ih =>
    obtain ⟨behind, hbehind, hrest⟩ := Option.bind_eq_some_iff.mp hnext
    have hcovers := ih (h.step hbehind) hrest
    rwa [List.append_assoc] at hcovers

/-- At the end the reader covers the tokens of the value that it gives. -/
theorem Covers.finish (h : parser.Covers tokens) (hvalue : parser.finish = some value) :
    tokens = value.tokens := by
  cases h with
  | nothing => cases hvalue; rfl
  | _ => cases hvalue

end Parser

/-- A value is denoted by its own tokens only. -/
theorem Value.ofTokens?_eq_some_iff {tokens : List Token} {value : Value} :
    Value.ofTokens? tokens = some value ↔ tokens = value.tokens := by
  constructor
  · intro h
    obtain ⟨parser, hparser, hfinish⟩ := Option.bind_eq_some_iff.mp h
    have hcovers := (Parser.Covers.value []).foldlM hparser
    rw [opened, List.nil_append] at hcovers
    exact hcovers.finish hfinish
  · rintro rfl
    exact value.ofTokens?_tokens

/-- A value is read from the texts that spell it, and from no other ones. -/
theorem Value.read?_eq_some_iff {text : String} {value : Value} :
    Value.read? text = some value ↔ Spells text.toList value := by
  refine ⟨fun h => ?_, read?_of_spells⟩
  obtain ⟨tokens, htokens, hvalue⟩ := Option.bind_eq_some_iff.mp h
  rw [ofTokens?_eq_some_iff.mp hvalue] at htokens
  exact layout_of_tokens? htokens

end LayeredMachines.Json
