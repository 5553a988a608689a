import LayeredMachines.Document.Record
import LayeredMachines.History
import LayeredMachines.Instant.Timestamp

/-!
# History documents

The document forms of a move and of a history. All their fields have to be given. The time of a
move is written as a timestamp.
-/

namespace LayeredMachines

open Json (Value)
open Document

/-- An instant from its document form. -/
def Instant.ofValue? (value : Value) : Option Instant :=
  (string? value).bind fun text => Instant.read? text.toList

/-- The document form of an instant. -/
def Instant.toValue (time : Instant) : Value :=
  ofString (String.ofList time.render)

/-- A move from its document form. -/
def Move.ofValue? (value : Value) : Option Move := do
  let fields ← Fields.ofValue? ["from", "to", "event", "timestamp"] value
  let source ← fields.required "from" string?
  let target ← fields.required "to" string?
  let event ← fields.required "event" string?
  let time ← fields.required "timestamp" Instant.ofValue?
  some ⟨source, target, event, time⟩

/-- The document form of a move. -/
def Move.toValue (move : Move) : Value :=
  ofFields [("from", ofString move.source), ("to", ofString move.target),
    ("event", ofString move.event), ("timestamp", move.time.toValue)]

/-- A history from its document form. -/
def History.ofValue? (value : Value) : Option History := do
  let fields ← Fields.ofValue? ["transitions", "limit"] value
  let moves ← fields.required "transitions" (list? Move.ofValue?)
  let limit ← fields.required "limit" natural?
  some ⟨moves, limit⟩

/-- The document form of a history. -/
def History.toValue (history : History) : Value :=
  ofFields [("transitions", ofList Move.toValue history.moves),
    ("limit", ofNatural history.limit)]

/-- The text of a history document. -/
def History.render (history : History) : String :=
  Document.render history.toValue

/-- The history in the text of a document. -/
def History.read? (text : String) : Option History :=
  (Value.read? text).bind History.ofValue?

end LayeredMachines
