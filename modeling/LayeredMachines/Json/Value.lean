/-!
# JSON values

The tree that a JSON text denotes, before any reader has asked for its contents. Numbers and
strings are kept as they are written, and an object keeps all its members in their order, also
those with the same name. A string is decoded only when its contents are wanted, so that a text
may hold strings that denote no sequence of characters where nobody looks.
-/

namespace LayeredMachines.Json

/-- A value without parts. A number is kept as its text and a string as what stands between its
quotation marks. -/
inductive Scalar where
  | null
  | bool (value : Bool)
  | number (text : List Char)
  | string (body : List Char)
  deriving DecidableEq

/-- A value. The name of a member is kept like a string. -/
inductive Value where
  | scalar (value : Scalar)
  | array (items : List Value)
  | object (members : List (List Char × Value))

/-- The text of a value without parts. -/
def Scalar.render : Scalar → List Char
  | .null => ['n', 'u', 'l', 'l']
  | .bool true => ['t', 'r', 'u', 'e']
  | .bool false => ['f', 'a', 'l', 's', 'e']
  | .number text => text
  | .string body => '"' :: body ++ ['"']

mutual

/-- The text of a value without any white space. -/
def Value.render : Value → List Char
  | .scalar value => value.render
  | .array [] => ['[', ']']
  | .array (item :: rest) => '[' :: item.render ++ Value.renderItems rest ++ [']']
  | .object [] => ['\x7b', '\x7d']
  | .object ((name, value) :: rest) =>
    '\x7b' :: '"' :: name ++ '"' :: ':' :: value.render ++ Value.renderMembers rest ++ ['\x7d']

/-- The items after the first one, each behind a comma. -/
def Value.renderItems : List Value → List Char
  | [] => []
  | item :: rest => ',' :: item.render ++ Value.renderItems rest

/-- The members after the first one, each behind a comma. -/
def Value.renderMembers : List (List Char × Value) → List Char
  | [] => []
  | (name, value) :: rest =>
    ',' :: '"' :: name ++ '"' :: ':' :: value.render ++ Value.renderMembers rest

end

end LayeredMachines.Json
