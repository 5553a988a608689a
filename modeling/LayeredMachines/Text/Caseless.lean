import LayeredMachines.Text.Lowercase

/-!
# Equality of names

Labels, events, machine names and verbs are compared without regard to case: two texts are equal
if their lower-case forms are. Texts of ASCII characters are first compared by their ASCII letters
alone, which spares the table.
-/

namespace LayeredMachines

/-- The lower-case form of a text: the forms of its characters, one after the other. -/
def lowercaseForm (text : String) : List Char :=
  text.toList.flatMap lowercase

/-- Equality of texts up to the case of ASCII letters. -/
def asciiCaselessEq (a b : String) : Bool :=
  a.toList.map Char.toLower == b.toList.map Char.toLower

/-- Equality of texts up to case. -/
def caselessEq (a b : String) : Bool :=
  asciiCaselessEq a b || lowercaseForm a == lowercaseForm b

end LayeredMachines
