import LayeredMachines.Json.Reader
import LayeredMachines.Proofs.Json.Tokens

/-!
# Texts of values

Every value has its tokens, and a text spells a value if it is a layout of these. A text spells at
most one value, which is the one that is read. The text that a value is written as spells it, if
its numbers and strings keep to the grammar.
-/

namespace LayeredMachines.Json

mutual

/-- The tokens of a value. -/
def Value.tokens : Value → List Token
  | .scalar value => [.scalar value]
  | .array [] => [.beginArray, .endArray]
  | .array (item :: rest) =>
    .beginArray :: (item.tokens ++ (Value.itemTokens rest ++ [.endArray]))
  | .object [] => [.beginObject, .endObject]
  | .object ((name, value) :: rest) =>
    .beginObject :: .scalar (.string name) :: .colon ::
      (value.tokens ++ (Value.memberTokens rest ++ [.endObject]))

/-- The tokens of the items after the first one, each behind a comma. -/
def Value.itemTokens : List Value → List Token
  | [] => []
  | item :: rest => .comma :: (item.tokens ++ Value.itemTokens rest)

/-- The tokens of the members after the first one, each behind a comma. -/
def Value.memberTokens : List (List Char × Value) → List Token
  | [] => []
  | (name, value) :: rest =>
    .comma :: .scalar (.string name) :: .colon :: (value.tokens ++ Value.memberTokens rest)

end

/-- The text spells the value in the strict grammar, with any white space between the tokens. -/
def Spells (text : List Char) (value : Value) : Prop :=
  Layout text value.tokens

/-- All numbers and strings of the value keep to the grammar. -/
def Value.IsStrict (value : Value) : Prop :=
  ∀ token ∈ value.tokens, token.IsStrict

/-! ### Reading -/

open LayeredMachines.Json.Parser (step complete beginValue beginMember afterComma closeArray
  closeObject)

/-- The tokens of a value are read alike as the first item of an array and anywhere else. -/
theorem Value.foldlM_tokens_itemOrEnd (value : Value) (enclosing : List Enclosing) :
    value.tokens.foldlM step ⟨.itemOrEnd, enclosing⟩ =
      value.tokens.foldlM step ⟨.value, enclosing⟩ := by
  have hstep {token : Token} (htoken : token ≠ .endArray) :
      step ⟨.itemOrEnd, enclosing⟩ token = step ⟨.value, enclosing⟩ token := by
    simp only [step, if_neg htoken]
  unfold tokens
  split <;> simp only [List.foldlM_cons, hstep, ne_eq, reduceCtorEq, not_false_eq_true]

mutual

/-- Reading the tokens of a value where one is expected completes it. -/
theorem Value.foldlM_tokens : (value : Value) → (enclosing : List Enclosing) →
    value.tokens.foldlM step ⟨.value, enclosing⟩ = complete value enclosing
  | .scalar value, enclosing => by simp [tokens, step, beginValue]
  | .array [], enclosing => by simp [tokens, step, beginValue, closeArray]
  | .array (item :: rest), enclosing => by
    have hitem := item.foldlM_tokens (.array [] :: enclosing)
    rw [← item.foldlM_tokens_itemOrEnd] at hitem
    have hrest := Value.foldlM_itemTokens rest [item] enclosing
    simp [tokens, step, beginValue, hitem, complete, hrest, closeArray]
  | .object [], enclosing => by simp [tokens, step, beginValue, closeObject]
  | .object ((name, value) :: rest), enclosing => by
    have hvalue := value.foldlM_tokens (.member [] name :: enclosing)
    have hrest := Value.foldlM_memberTokens rest [(name, value)] enclosing
    simp [tokens, step, beginValue, beginMember, hvalue, complete, hrest, closeObject]

/-- Reading items behind commas adds them to those that have been read. -/
theorem Value.foldlM_itemTokens : (items read : List Value) → (enclosing : List Enclosing) →
    (Value.itemTokens items).foldlM step ⟨.commaOrEnd, .array read :: enclosing⟩ =
      some ⟨.commaOrEnd, .array (items.reverse ++ read) :: enclosing⟩
  | [], read, enclosing => rfl
  | item :: rest, read, enclosing => by
    have hitem := item.foldlM_tokens (.array read :: enclosing)
    have hrest := Value.foldlM_itemTokens rest (item :: read) enclosing
    simp [itemTokens, step, afterComma, hitem, complete, hrest]

/-- Reading members behind commas adds them to those that have been read. -/
theorem Value.foldlM_memberTokens : (members read : List (List Char × Value)) →
    (enclosing : List Enclosing) →
    (Value.memberTokens members).foldlM step ⟨.commaOrEnd, .object read :: enclosing⟩ =
      some ⟨.commaOrEnd, .object (members.reverse ++ read) :: enclosing⟩
  | [], read, enclosing => rfl
  | (name, value) :: rest, read, enclosing => by
    have hvalue := value.foldlM_tokens (.member read name :: enclosing)
    have hrest := Value.foldlM_memberTokens rest ((name, value) :: read) enclosing
    simp [memberTokens, step, afterComma, beginMember, hvalue, complete, hrest]

end

/-- The tokens of a value denote it. -/
theorem Value.ofTokens?_tokens (value : Value) : Value.ofTokens? value.tokens = some value := by
  rw [ofTokens?, Parser.initial, value.foldlM_tokens]
  rfl

/-- What may follow a value: tokens that are separated and do not begin with another value. -/
structure MayFollow (tokens : List Token) : Prop where
  separated : AreSeparated tokens
  head_isScalar : ∀ token ∈ tokens.head?, token.isScalar = false

/-- A mark may follow a value if the tokens behind it are separated. -/
theorem MayFollow.cons {tokens : List Token} (token : Token) (htoken : token.isScalar = false)
    (htokens : AreSeparated tokens) : MayFollow (token :: tokens) where
  separated := List.isChain_cons.mpr
    ⟨fun _ _ hscalar => absurd hscalar (by simp [htoken]), htokens⟩
  head_isScalar := by simpa using htoken

/-- Before what may follow a value the value is separated. -/
theorem MayFollow.scalar {tokens : List Token} (h : MayFollow tokens) (value : Scalar) :
    AreSeparated (.scalar value :: tokens) :=
  List.isChain_cons.mpr ⟨fun next hnext _ => h.head_isScalar next hnext, h.separated⟩

mutual

/-- Before what may follow a value the tokens of the value are separated. -/
theorem Value.areSeparated_append : (value : Value) → {rest : List Token} → MayFollow rest →
    AreSeparated (value.tokens ++ rest)
  | .scalar value, _, hrest => hrest.scalar value
  | .array [], _, hrest => by
    have hend := MayFollow.cons .endArray rfl hrest.separated
    exact (MayFollow.cons .beginArray rfl hend.separated).separated
  | .array (item :: items), _, hrest => by
    have hend := MayFollow.cons .endArray rfl hrest.separated
    have hitem := item.areSeparated_append (Value.mayFollow_itemTokens items hend)
    simpa [tokens] using (MayFollow.cons .beginArray rfl hitem).separated
  | .object [], _, hrest => by
    have hend := MayFollow.cons .endObject rfl hrest.separated
    exact (MayFollow.cons .beginObject rfl hend.separated).separated
  | .object ((name, value) :: members), _, hrest => by
    have hend := MayFollow.cons .endObject rfl hrest.separated
    have hvalue := value.areSeparated_append (Value.mayFollow_memberTokens members hend)
    have hname := (MayFollow.cons .colon rfl hvalue).scalar (.string name)
    simpa [tokens] using (MayFollow.cons .beginObject rfl hname).separated

/-- Items behind commas may follow a value. -/
theorem Value.mayFollow_itemTokens : (items : List Value) → {rest : List Token} →
    MayFollow rest → MayFollow (Value.itemTokens items ++ rest)
  | [], _, hrest => hrest
  | item :: items, _, hrest => by
    have hitem := item.areSeparated_append (Value.mayFollow_itemTokens items hrest)
    simpa [itemTokens] using MayFollow.cons .comma rfl hitem

/-- Members behind commas may follow a value. -/
theorem Value.mayFollow_memberTokens : (members : List (List Char × Value)) →
    {rest : List Token} → MayFollow rest → MayFollow (Value.memberTokens members ++ rest)
  | [], _, hrest => hrest
  | (name, value) :: members, _, hrest => by
    have hvalue := value.areSeparated_append (Value.mayFollow_memberTokens members hrest)
    have hname := (MayFollow.cons .colon rfl hvalue).scalar (.string name)
    simpa [memberTokens] using MayFollow.cons .comma rfl hname

end

/-- The value that a text spells is read from it. -/
theorem Value.read?_of_spells {text : String} {value : Value}
    (h : Spells text.toList value) : Value.read? text = some value := by
  have hnone : MayFollow [] := ⟨.nil, by simp⟩
  have hseparated := value.areSeparated_append hnone
  rw [List.append_nil] at hseparated
  rw [read?, tokens?_of_layout h hseparated, Option.bind_some, ofTokens?_tokens]

/-! ### Writing -/

mutual

/-- A value is written as its tokens, with nothing between them. -/
theorem Value.render_eq : (value : Value) → value.render = value.tokens.flatMap Token.render
  | .scalar value => by simp [render, tokens, Token.render]
  | .array [] => rfl
  | .array (item :: rest) => by
    simp [render, tokens, Token.render, item.render_eq, Value.renderItems_eq rest]
  | .object [] => rfl
  | .object ((name, value) :: rest) => by
    simp [render, tokens, Token.render, Scalar.render, value.render_eq, Value.renderMembers_eq rest]

theorem Value.renderItems_eq : (items : List Value) →
    Value.renderItems items = (Value.itemTokens items).flatMap Token.render
  | [] => rfl
  | item :: rest => by
    simp [renderItems, itemTokens, Token.render, item.render_eq, Value.renderItems_eq rest]

theorem Value.renderMembers_eq : (members : List (List Char × Value)) →
    Value.renderMembers members = (Value.memberTokens members).flatMap Token.render
  | [] => rfl
  | (name, value) :: rest => by
    simp [renderMembers, memberTokens, Token.render, Scalar.render, value.render_eq,
      Value.renderMembers_eq rest]

end

/-- The text that a strict value is written as spells it. -/
theorem Value.spells_render {value : Value} (hstrict : value.IsStrict) :
    Spells value.render value := by
  have hempty : IsBlank [] := List.forall_mem_nil _
  have hlayout {tokens : List Token} (hstrict : ∀ token ∈ tokens, token.IsStrict) :
      Layout (tokens.flatMap Token.render) tokens := by
    induction tokens with
    | nil => exact .blank hempty
    | cons token tokens ih =>
      obtain ⟨htoken, htokens⟩ := List.forall_mem_cons.mp hstrict
      exact .token hempty htoken (ih htokens)
  rw [value.render_eq]
  exact hlayout hstrict

/-- A value without parts is its only token. -/
theorem Value.isStrict_scalar {value : Scalar} (hvalue : value.IsStrict) :
    (Value.scalar value).IsStrict := by
  intro token htoken
  rw [List.mem_singleton.mp htoken]
  exact hvalue

/-- An array is strict if its items are. -/
theorem Value.isStrict_array {items : List Value} (hitems : ∀ item ∈ items, item.IsStrict) :
    (Value.array items).IsStrict := by
  have htokens {items : List Value} (hitems : ∀ item ∈ items, item.IsStrict) :
      ∀ token ∈ Value.itemTokens items, token.IsStrict := by
    induction items with
    | nil => exact List.forall_mem_nil _
    | cons item rest ih =>
      obtain ⟨hitem, hrest⟩ := List.forall_mem_cons.mp hitems
      rw [itemTokens]
      exact List.forall_mem_cons.mpr ⟨trivial, List.forall_mem_append.mpr ⟨hitem, ih hrest⟩⟩
  unfold IsStrict tokens
  cases items with
  | nil => simp [Token.IsStrict]
  | cons item rest =>
    obtain ⟨hitem, hrest⟩ := List.forall_mem_cons.mp hitems
    simp only [List.forall_mem_cons, List.forall_mem_append]
    exact ⟨trivial, hitem, htokens hrest, trivial, List.forall_mem_nil _⟩

/-- An object is strict if its names and the values of its members are. -/
theorem Value.isStrict_object {members : List (List Char × Value)}
    (hmembers : ∀ member ∈ members, IsBody member.1 ∧ member.2.IsStrict) :
    (Value.object members).IsStrict := by
  have htokens {members : List (List Char × Value)}
      (hmembers : ∀ member ∈ members, IsBody member.1 ∧ member.2.IsStrict) :
      ∀ token ∈ Value.memberTokens members, token.IsStrict := by
    induction members with
    | nil => exact List.forall_mem_nil _
    | cons member rest ih =>
      obtain ⟨⟨hname, hvalue⟩, hrest⟩ := List.forall_mem_cons.mp hmembers
      rw [memberTokens]
      simp only [List.forall_mem_cons, List.forall_mem_append]
      exact ⟨trivial, hname, trivial, hvalue, ih hrest⟩
  unfold IsStrict tokens
  cases members with
  | nil => simp [Token.IsStrict]
  | cons member rest =>
    obtain ⟨⟨hname, hvalue⟩, hrest⟩ := List.forall_mem_cons.mp hmembers
    simp only [List.forall_mem_cons, List.forall_mem_append]
    exact ⟨trivial, hname, trivial, hvalue, htokens hrest, trivial, List.forall_mem_nil _⟩

end LayeredMachines.Json
