import LayeredMachines.Json.Escape
import LayeredMachines.Json.Value

/-!
# Tokens of a JSON text

A JSON text is cut into tokens from left to right, one character at a time. The state between two
characters tells what the last one belongs to. Only spaces, tabs, line feeds and carriage returns
may stand between tokens.
-/

namespace LayeredMachines.Json

/-- A token: one of the six marks, or a value without parts. -/
inductive Token where
  | beginArray
  | endArray
  | beginObject
  | endObject
  | colon
  | comma
  | scalar (value : Scalar)
  deriving DecidableEq

/-- The parts of a number, named for the last character read. -/
inductive NumberPart where
  | minus
  | zero
  | integer
  | point
  | fraction
  | exponent
  | exponentSign
  | exponentDigits
  deriving DecidableEq

namespace NumberPart

/-- The part that a character leads to, if the number goes on with it. -/
def next? (part : NumberPart) (c : Char) : Option NumberPart :=
  match part with
  | .minus => if c = '0' then some .zero else if c.isDigit then some .integer else none
  | .zero => afterInteger c
  | .integer => if c.isDigit then some .integer else afterInteger c
  | .point => if c.isDigit then some .fraction else none
  | .fraction =>
    if c.isDigit then some .fraction else if c = 'e' || c = 'E' then some .exponent else none
  | .exponent =>
    if c = '+' || c = '-' then some .exponentSign
    else if c.isDigit then some .exponentDigits else none
  | .exponentSign => if c.isDigit then some .exponentDigits else none
  | .exponentDigits => if c.isDigit then some .exponentDigits else none
where
  /-- A whole part is followed by a fraction or by an exponent. -/
  afterInteger (c : Char) : Option NumberPart :=
    if c = '.' then some .point else if c = 'e' || c = 'E' then some .exponent else none

/-- A number may end with this part. -/
def isComplete : NumberPart → Bool
  | .zero | .integer | .fraction | .exponentDigits => true
  | .minus | .point | .exponent | .exponentSign => false

end NumberPart

/-- What is still to come of an escape in a string. -/
inductive EscapePart where
  | none
  | letter
  | hex (digits : Nat)
  deriving DecidableEq

/-- What the last character belongs to. The texts read so far are kept backwards. -/
inductive Scan where
  | between
  | string (body : List Char) (part : EscapePart)
  | number (text : List Char) (part : NumberPart)
  | word (rest : List Char) (value : Scalar)
  deriving DecidableEq

/-- The tokens read so far, the last one first, and the state behind them. -/
structure Lexer where
  tokens : List Token
  scan : Scan

namespace Lexer

/-- The state before the first character. -/
def initial : Lexer :=
  ⟨[], .between⟩

/-- White space may stand between tokens. -/
def isSpace (c : Char) : Bool :=
  c == ' ' || c == '\t' || c == '\n' || c == '\r'

/-- The token that a character is by itself. -/
def mark? (c : Char) : Option Token :=
  if c = '[' then some .beginArray
  else if c = ']' then some .endArray
  else if c = '\x7b' then some .beginObject
  else if c = '\x7d' then some .endObject
  else if c = ':' then some .colon
  else if c = ',' then some .comma
  else none

/-- What a character begins that is not a token by itself. -/
def begin? (c : Char) : Option Scan :=
  if c = '"' then some (.string [] .none)
  else if c = '-' then some (.number [c] .minus)
  else if c = '0' then some (.number [c] .zero)
  else if c.isDigit then some (.number [c] .integer)
  else if c = 'n' then some (.word ['u', 'l', 'l'] .null)
  else if c = 't' then some (.word ['r', 'u', 'e'] (.bool true))
  else if c = 'f' then some (.word ['a', 'l', 's', 'e'] (.bool false))
  else none

/-- Read a character between tokens. -/
def start (tokens : List Token) (c : Char) : Option Lexer :=
  if isSpace c then some ⟨tokens, .between⟩
  else
    match mark? c with
    | some token => some ⟨token :: tokens, .between⟩
    | none => (begin? c).map (⟨tokens, ·⟩)

/-- Read a character of a string. -/
def feedString (tokens : List Token) (body : List Char) (part : EscapePart) (c : Char) :
    Option Lexer :=
  match part with
  | .none =>
    if c = '"' then some ⟨.scalar (.string body.reverse) :: tokens, .between⟩
    else if c = '\\' then some ⟨tokens, .string (c :: body) .letter⟩
    else if isControl c then none
    else some ⟨tokens, .string (c :: body) .none⟩
  | .letter =>
    if c = 'u' then some ⟨tokens, .string (c :: body) (.hex 4)⟩
    else if (shortEscape? c).isSome then some ⟨tokens, .string (c :: body) .none⟩
    else none
  | .hex digits =>
    if (hexValue? c).isNone then none
    else some ⟨tokens, .string (c :: body) (if digits ≤ 1 then .none else .hex (digits - 1))⟩

/-- Read one character. -/
def feed (lexer : Lexer) (c : Char) : Option Lexer :=
  match lexer.scan with
  | .between => start lexer.tokens c
  | .string body part => feedString lexer.tokens body part c
  | .number text part =>
    match part.next? c with
    | some next => some ⟨lexer.tokens, .number (c :: text) next⟩
    | none =>
      if part.isComplete then start (.scalar (.number text.reverse) :: lexer.tokens) c else none
  | .word [] _ => none
  | .word (expected :: rest) value =>
    if c = expected then
      if rest.isEmpty then some ⟨.scalar value :: lexer.tokens, .between⟩
      else some ⟨lexer.tokens, .word rest value⟩
    else none

/-- The tokens of a text that ends here. -/
def finish (lexer : Lexer) : Option (List Token) :=
  match lexer.scan with
  | .between => some lexer.tokens.reverse
  | .number text part =>
    if part.isComplete then some (.scalar (.number text.reverse) :: lexer.tokens).reverse else none
  | _ => none

end Lexer

/-- The tokens of a text, if it is made of tokens. -/
def tokens? (text : List Char) : Option (List Token) :=
  (text.foldlM Lexer.feed Lexer.initial).bind Lexer.finish

end LayeredMachines.Json
