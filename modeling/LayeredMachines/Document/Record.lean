import LayeredMachines.Json.Reader
import LayeredMachines.Text.Decimal

/-!
# Records in documents

A record is written as an object with its fields as members, or as an array of its fields in
their order. Members with other names are passed over, and a field given twice is refused. A
document decides which fields it can do without.
-/

namespace LayeredMachines.Document

open Json (Value)

/-- The fields of a record that are given, each once, by name. -/
abbrev Fields := List (String × Value)

/-- Take one more member of an object as a field, if it is among the names. -/
def Fields.take? (names : List String) (fields : Fields) (member : List Char × Value) :
    Option Fields := do
  let name ← Json.unescape? member.1
  if !names.contains name then some fields
  else if fields.any (·.1 == name) then none
  else some (fields ++ [(name, member.2)])

/-- The fields of a record with the given field names. -/
def Fields.ofValue? (names : List String) : Value → Option Fields
  | .object members => members.foldlM (Fields.take? names) []
  | .array items => if items.length ≤ names.length then some (names.zip items) else none
  | .scalar _ => none

/-- A field that the record cannot do without. -/
def Fields.required {α : Type} (fields : Fields) (name : String) (read : Value → Option α) :
    Option α :=
  (fields.lookup name).bind read

/-- A field that has a default value. -/
def Fields.optional {α : Type} (fields : Fields) (name : String) (default : α)
    (read : Value → Option α) : Option α :=
  match fields.lookup name with
  | some value => read value
  | none => some default

/-- A string. -/
def string? : Value → Option String
  | .scalar (.string body) => Json.unescape? body
  | _ => none

/-- A natural number below 2 ^ 64, in digits alone. -/
def natural? : Value → Option Nat
  | .scalar (.number text) =>
    (Decimal.natural? text).bind fun n => if n < Nat.pow 2 64 then some n else none
  | _ => none

/-- An array whose items are all of one kind. -/
def list? {α : Type} (read : Value → Option α) : Value → Option (List α)
  | .array items => items.mapM read
  | _ => none

/-- An array of two strings. -/
def pair? : Value → Option (String × String)
  | .array [first, second] => do
    let first ← string? first
    let second ← string? second
    some (first, second)
  | _ => none

/-- A string as a value. -/
def ofString (text : String) : Value :=
  .scalar (.string (Json.escape text.toList))

/-- A natural number as a value. -/
def ofNatural (n : Nat) : Value :=
  .scalar (.number (Decimal.digits n))

/-- A list as an array. -/
def ofList {α : Type} (write : α → Value) (items : List α) : Value :=
  .array (items.map write)

/-- Two strings as an array. -/
def ofPair (pair : String × String) : Value :=
  .array [ofString pair.1, ofString pair.2]

/-- A record as an object. -/
def ofFields (fields : Fields) : Value :=
  .object (fields.map fun field => (Json.escape field.1.toList, field.2))

/-- The text of a document, without white space. -/
def render (value : Value) : String :=
  String.ofList value.render

end LayeredMachines.Document
