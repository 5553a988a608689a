import LayeredMachines.Document.Record
import LayeredMachines.FrameStack

/-!
# Documents of variables

The document forms of a frame and of a stack of frames. All their fields have to be given. The
outer frames of a stack are listed from the outermost to the nearest.
-/

namespace LayeredMachines

open Json (Value)
open Document

/-- A frame from its document form. -/
def Frame.ofValue? (value : Value) : Option Frame := do
  let fields ← Fields.ofValue? ["bindings"] value
  let bindings ← fields.required "bindings" (list? pair?)
  some ⟨bindings⟩

/-- The document form of a frame. -/
def Frame.toValue (frame : Frame) : Value :=
  ofFields [("bindings", ofList ofPair frame.bindings)]

/-- The text of a frame document. -/
def Frame.render (frame : Frame) : String :=
  Document.render frame.toValue

/-- The frame in the text of a document. -/
def Frame.read? (text : String) : Option Frame :=
  (Value.read? text).bind Frame.ofValue?

/-- A stack of frames from its document form. -/
def FrameStack.ofValue? (value : Value) : Option FrameStack := do
  let fields ← Fields.ofValue? ["innermost", "outer"] value
  let innermost ← fields.required "innermost" Frame.ofValue?
  let outer ← fields.required "outer" (list? Frame.ofValue?)
  some ⟨innermost, outer.reverse⟩

/-- The document form of a stack of frames. -/
def FrameStack.toValue (stack : FrameStack) : Value :=
  ofFields [("innermost", stack.innermost.toValue),
    ("outer", ofList Frame.toValue stack.outer.reverse)]

/-- The text of a document of a stack of frames. -/
def FrameStack.render (stack : FrameStack) : String :=
  Document.render stack.toValue

/-- The stack of frames in the text of a document. -/
def FrameStack.read? (text : String) : Option FrameStack :=
  (Value.read? text).bind FrameStack.ofValue?

end LayeredMachines
