import LayeredMachines.Document.Record
import LayeredMachines.Violation

/-!
# Library documents

The document form of machine libraries. No field has to be given: a missing name or axion is empty,
and a missing list has no items.
-/

namespace LayeredMachines

open Json (Value)
open Document

/-- The fields of a transition: its event and the label of the state it leads to. -/
def Transition.fields : List String := ["event", "state"]

/-- The fields of a state. -/
def State.fields : List String := ["label", "entry", "leave", "trans"]

/-- The fields of a machine. -/
def Machine.fields : List String := ["name", "states"]

/-- The field of a library. -/
def Library.fields : List String := ["machines"]

/-- A transition from its document form. -/
def Transition.ofValue? (value : Value) : Option Transition := do
  let fields ← Fields.ofValue? Transition.fields value
  let event ← fields.optional "event" "" string?
  let target ← fields.optional "state" "" string?
  some ⟨event, target⟩

/-- A state from its document form. -/
def State.ofValue? (value : Value) : Option State := do
  let fields ← Fields.ofValue? State.fields value
  let label ← fields.optional "label" "" string?
  let entry ← fields.optional "entry" "" string?
  let leave ← fields.optional "leave" "" string?
  let transitions ← fields.optional "trans" [] (list? Transition.ofValue?)
  some ⟨label, entry, leave, transitions⟩

/-- A machine from its document form. -/
def Machine.ofValue? (value : Value) : Option Machine := do
  let fields ← Fields.ofValue? Machine.fields value
  let name ← fields.optional "name" "" string?
  let states ← fields.optional "states" [] (list? State.ofValue?)
  some ⟨name, states⟩

/-- A library from its document form. -/
def Library.ofValue? (value : Value) : Option Library := do
  let fields ← Fields.ofValue? Library.fields value
  let machines ← fields.optional "machines" [] (list? Machine.ofValue?)
  some ⟨machines⟩

/-- The document form of a transition. -/
def Transition.toValue (transition : Transition) : Value :=
  ofFields [("event", ofString transition.event), ("state", ofString transition.target)]

/-- The document form of a state. -/
def State.toValue (state : State) : Value :=
  ofFields [("label", ofString state.label), ("entry", ofString state.entry),
    ("leave", ofString state.leave), ("trans", ofList Transition.toValue state.transitions)]

/-- The document form of a machine. -/
def Machine.toValue (machine : Machine) : Value :=
  ofFields [("name", ofString machine.name), ("states", ofList State.toValue machine.states)]

/-- The document form of a library. -/
def Library.toValue (library : Library) : Value :=
  ofFields [("machines", ofList Machine.toValue library.machines)]

/-- The text of a library document. -/
def Library.render (library : Library) : String :=
  Document.render library.toValue

/-- The library in the text of a document, whether it is valid or not. -/
def Library.read? (text : String) : Option Library :=
  (Value.read? text).bind Library.ofValue?

/-- Why no library was loaded from a text. -/
inductive LoadError where
  | notADocument
  | invalid (violations : List Violation)
  deriving DecidableEq

/-- The library in the text of a document, if it is valid. -/
def Library.load (text : String) : Except LoadError Library :=
  match Library.read? text with
  | none => .error .notADocument
  | some library =>
    if library.isValid then .ok library else .error (.invalid library.violations)

end LayeredMachines
