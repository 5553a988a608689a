import LayeredMachines.Json.Token

/-!
# Reading JSON values

A value is read from its tokens from left to right, with a stack of the arrays and objects that
are still open. Values may therefore be nested to any depth.
-/

namespace LayeredMachines.Json

/-- An array or object that is still open, with its finished parts, the last one first. A member
whose value is still open has its name beside the finished ones. -/
inductive Enclosing where
  | array (items : List Value)
  | object (members : List (List Char × Value))
  | member (members : List (List Char × Value)) (name : List Char)

/-- What the next token has to be. -/
inductive Expected where
  | value
  | itemOrEnd
  | memberOrEnd
  | member
  | colon
  | commaOrEnd
  | nothing (value : Value)

/-- What is expected, and what is open around it, the innermost first. -/
structure Parser where
  expected : Expected
  enclosing : List Enclosing

namespace Parser

/-- The state before the first token. -/
def initial : Parser :=
  ⟨.value, []⟩

/-- A value is complete, and belongs to what is open around it. -/
def complete (value : Value) : List Enclosing → Option Parser
  | [] => some ⟨.nothing value, []⟩
  | .array items :: rest => some ⟨.commaOrEnd, .array (value :: items) :: rest⟩
  | .member members name :: rest => some ⟨.commaOrEnd, .object ((name, value) :: members) :: rest⟩
  | .object _ :: _ => none

/-- Close the innermost array. -/
def closeArray : List Enclosing → Option Parser
  | .array items :: rest => complete (.array items.reverse) rest
  | _ => none

/-- Close the innermost object. -/
def closeObject : List Enclosing → Option Parser
  | .object members :: rest => complete (.object members.reverse) rest
  | _ => none

/-- The token is the first one of a value. -/
def beginValue (enclosing : List Enclosing) : Token → Option Parser
  | .scalar value => complete (.scalar value) enclosing
  | .beginArray => some ⟨.itemOrEnd, .array [] :: enclosing⟩
  | .beginObject => some ⟨.memberOrEnd, .object [] :: enclosing⟩
  | _ => none

/-- The token is the name of a member. -/
def beginMember : List Enclosing → Token → Option Parser
  | .object members :: rest, .scalar (.string name) =>
    some ⟨.colon, .member members name :: rest⟩
  | _, _ => none

/-- After a comma the innermost array goes on with an item, and the innermost object with a
member. -/
def afterComma : List Enclosing → Option Parser
  | .array items :: rest => some ⟨.value, .array items :: rest⟩
  | .object members :: rest => some ⟨.member, .object members :: rest⟩
  | _ => none

/-- Read one token. -/
def step (parser : Parser) (token : Token) : Option Parser :=
  match parser.expected with
  | .value => beginValue parser.enclosing token
  | .itemOrEnd =>
    if token = .endArray then closeArray parser.enclosing else beginValue parser.enclosing token
  | .memberOrEnd =>
    if token = .endObject then closeObject parser.enclosing
    else beginMember parser.enclosing token
  | .member => beginMember parser.enclosing token
  | .colon => if token = .colon then some ⟨.value, parser.enclosing⟩ else none
  | .commaOrEnd =>
    match token with
    | .comma => afterComma parser.enclosing
    | .endArray => closeArray parser.enclosing
    | .endObject => closeObject parser.enclosing
    | _ => none
  | .nothing _ => none

/-- The value of tokens that end here. -/
def finish (parser : Parser) : Option Value :=
  match parser.expected with
  | .nothing value => some value
  | _ => none

end Parser

/-- The value that tokens denote. -/
def Value.ofTokens? (tokens : List Token) : Option Value :=
  (tokens.foldlM Parser.step Parser.initial).bind Parser.finish

/-- The value that a text denotes. -/
def Value.read? (text : String) : Option Value :=
  (tokens? text.toList).bind Value.ofTokens?

end LayeredMachines.Json
