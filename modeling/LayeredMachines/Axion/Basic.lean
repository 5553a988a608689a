import LayeredMachines.Text.Blank
import LayeredMachines.Text.Caseless
import LayeredMachines.Text.Pieces

/-!
# Axions

An axion is the small command that a state carries for its entry or its leave, written
`verb:label=value,label=value`. This file splits the text of an axion into its verb and its
parameters, looks parameters up by label, and writes an axion back as text.
-/

namespace LayeredMachines

/-- A labelled value. The label may be empty. -/
structure Parameter where
  label : String
  value : String
  deriving DecidableEq

/-- A verb with its parameters in order. -/
structure Axion where
  verb : String
  parameters : List Parameter
  deriving DecidableEq

namespace Parameter

/-- The text of one parameter is cut at its first `=` into a label and a value; without one it is
all value. Blank characters around both are dropped. -/
def ofText (text : List Char) : Parameter :=
  match cut? '=' text with
  | some (label, value) => ⟨String.ofList (trim label), String.ofList (trim value)⟩
  | none => ⟨"", String.ofList (trim text)⟩

/-- The text `label=value`. -/
def render (parameter : Parameter) : List Char :=
  parameter.label.toList ++ '=' :: parameter.value.toList

end Parameter

namespace Axion

/-- The text of an axion is cut at its first `:` into the verb, less the blank characters around
it, and the parameters, which are separated by commas. Without a `:` all of it is the verb. -/
def split (text : String) : Axion :=
  match cut? ':' text.toList with
  | some (verb, rest) => ⟨String.ofList (trim verb), (pieces ',' rest).map Parameter.ofText⟩
  | none => ⟨text, []⟩

/-- The verb, and behind a `:` the parameters joined by commas if there are any. -/
def render (axion : Axion) : String :=
  if axion.parameters.isEmpty then axion.verb
  else
    String.ofList (axion.verb.toList ++ ':' :: joinWith ',' (axion.parameters.map Parameter.render))

/-- The value of the first parameter with a label equal to `key` up to case, or `default`. An empty
label answers to no key. -/
def valueOf (axion : Axion) (key default : String) : String :=
  match axion.parameters.find? fun p => !p.label.isEmpty && caselessEq p.label key with
  | some parameter => parameter.value
  | none => default

/-- The parameters whose label differs from `key`. -/
def without (axion : Axion) (key : String) : List Parameter :=
  axion.parameters.filter fun p => !caselessEq p.label key

/-- The parameters that have a label. -/
def labelled (axion : Axion) : List Parameter :=
  axion.parameters.filter fun p => !p.label.isEmpty

end Axion

end LayeredMachines
