/-!
# Strings in JSON

How the characters of a string are written between quotation marks, and what the characters
between quotation marks denote. Only the quotation mark, the backslash and the control characters
are escaped. An escaped half of a surrogate pair denotes nothing without its other half.
-/

namespace LayeredMachines.Json

/-- The hexadecimal digit of a number below sixteen, in lower case. -/
def hexDigit (n : Nat) : Char :=
  if n < 10 then Char.ofNat (48 + n) else Char.ofNat (87 + n)

/-- The value of a hexadecimal digit. -/
def hexValue? (c : Char) : Option Nat :=
  if '0' ≤ c && c ≤ '9' then some (c.toNat - 48)
  else if 'a' ≤ c && c ≤ 'f' then some (c.toNat - 87)
  else if 'A' ≤ c && c ≤ 'F' then some (c.toNat - 55)
  else none

/-- A control character has no place in a string. -/
def isControl (c : Char) : Bool :=
  c.toNat < 0x20

/-- How one character of a string is written. -/
def escapeChar (c : Char) : List Char :=
  if c = '"' then ['\\', '"']
  else if c = '\\' then ['\\', '\\']
  else if c = '\x08' then ['\\', 'b']
  else if c = '\x0c' then ['\\', 'f']
  else if c = '\n' then ['\\', 'n']
  else if c = '\r' then ['\\', 'r']
  else if c = '\t' then ['\\', 't']
  else if isControl c then ['\\', 'u', '0', '0', hexDigit (c.toNat / 16), hexDigit (c.toNat % 16)]
  else [c]

/-- How a string is written between quotation marks. -/
def escape (text : List Char) : List Char :=
  text.flatMap escapeChar

/-- The character that a backslash and a letter denote. -/
def shortEscape? (c : Char) : Option Char :=
  if c = '"' then some '"'
  else if c = '\\' then some '\\'
  else if c = '/' then some '/'
  else if c = 'b' then some '\x08'
  else if c = 'f' then some '\x0c'
  else if c = 'n' then some '\n'
  else if c = 'r' then some '\r'
  else if c = 't' then some '\t'
  else none

/-- What is written in a string: a character, or a code unit of sixteen bits as four hexadecimal
digits. -/
inductive Unit16 where
  | char (c : Char)
  | code (n : Nat)
  deriving DecidableEq

/-- The characters and code units written in a string, if every backslash begins an escape. -/
def units? : List Char → Option (List Unit16)
  | [] => some []
  | '\\' :: 'u' :: a :: b :: c :: d :: rest => do
    let a ← hexValue? a
    let b ← hexValue? b
    let c ← hexValue? c
    let d ← hexValue? d
    let rest ← units? rest
    some (.code (((a * 16 + b) * 16 + c) * 16 + d) :: rest)
  | '\\' :: c :: rest => do
    let c ← shortEscape? c
    let rest ← units? rest
    some (.char c :: rest)
  | c :: rest => if c = '\\' then none else (units? rest).map (.char c :: ·)

/-- The first code unit of a surrogate pair. -/
def isHighSurrogate (n : Nat) : Bool :=
  0xD800 ≤ n && n < 0xDC00

/-- The second code unit of a surrogate pair. -/
def isLowSurrogate (n : Nat) : Bool :=
  0xDC00 ≤ n && n < 0xE000

/-- The character of a surrogate pair. -/
def pairChar (high low : Nat) : Char :=
  Char.ofNat (0x10000 + (high - 0xD800) * 0x400 + (low - 0xDC00))

/-- The characters that a sequence of characters and code units denotes. The halves of a surrogate
pair stand side by side. -/
def characters? : List Unit16 → Option (List Char)
  | [] => some []
  | .char c :: rest => (characters? rest).map (c :: ·)
  | .code high :: .code low :: rest =>
    if isHighSurrogate high then
      if isLowSurrogate low then (characters? rest).map (pairChar high low :: ·) else none
    else if isLowSurrogate high then none
    else (characters? (.code low :: rest)).map (Char.ofNat high :: ·)
  | .code n :: rest =>
    if isHighSurrogate n || isLowSurrogate n then none
    else (characters? rest).map (Char.ofNat n :: ·)

/-- The string denoted by what stands between quotation marks. -/
def unescape? (body : List Char) : Option String :=
  ((units? body).bind characters?).map String.ofList

end LayeredMachines.Json
