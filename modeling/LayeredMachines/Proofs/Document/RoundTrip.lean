import LayeredMachines.Document.Frames
import LayeredMachines.Document.History
import LayeredMachines.Proofs.Document.Fields
import LayeredMachines.Proofs.Frames.Operations
import LayeredMachines.Proofs.History.Retention
import LayeredMachines.Proofs.Instant.Timestamps

/-!
# Documents of variables and histories

What is written of a stack of frames or of a history is read back as it was: strings with any
characters, lists of any length, and instants as far from 1970 as there are any. So is every stack
that operations lead to and every history that records lead to.
-/

namespace LayeredMachines

open Document

/-! ### Frames -/

namespace Frame

theorem ofValue?_toValue (frame : Frame) : Frame.ofValue? frame.toValue = some frame := by
  rw [ofValue?, toValue, Fields.ofValue?_ofFields (by rfl) (by decide)]
  simp [list?_ofList fun pair _ => pair?_ofPair pair]

theorem isStrict_toValue (frame : Frame) : frame.toValue.IsStrict := by
  apply isStrict_ofFields
  simp [isStrict_ofList isStrict_ofPair]

/-- A frame is read back from its document. -/
theorem read?_render (frame : Frame) : Frame.read? frame.render = some frame := by
  rw [read?, render, Document.read?_render frame.isStrict_toValue, Option.bind_some,
    ofValue?_toValue]

end Frame

namespace FrameStack

theorem ofValue?_toValue (stack : FrameStack) :
    FrameStack.ofValue? stack.toValue = some stack := by
  rw [ofValue?, toValue, Fields.ofValue?_ofFields (by rfl) (by decide)]
  simp [Frame.ofValue?_toValue, list?_ofList fun frame _ => Frame.ofValue?_toValue frame]

theorem isStrict_toValue (stack : FrameStack) : stack.toValue.IsStrict := by
  apply isStrict_ofFields
  simp [Frame.isStrict_toValue, isStrict_ofList Frame.isStrict_toValue]

/-- A stack of frames is read back from its document, with its frames in their order. -/
theorem read?_render (stack : FrameStack) : FrameStack.read? stack.render = some stack := by
  rw [read?, render, Document.read?_render stack.isStrict_toValue, Option.bind_some,
    ofValue?_toValue]

end FrameStack

/-! ### Histories -/

theorem Instant.ofValue?_toValue {time : Instant} (h : time.IsRepresentable) :
    Instant.ofValue? time.toValue = some time := by
  rw [ofValue?, toValue, string?_ofString, Option.bind_some, String.toList_ofList, read?_render h]

namespace Move

variable {move : Move}

theorem ofValue?_toValue (htime : move.time.IsRepresentable) :
    Move.ofValue? move.toValue = some move := by
  rw [ofValue?, toValue, Fields.ofValue?_ofFields (by rfl) (by decide)]
  simp [string?_ofString, Instant.ofValue?_toValue htime]

theorem isStrict_toValue (move : Move) : move.toValue.IsStrict := by
  apply isStrict_ofFields
  simp [isStrict_ofString, Instant.toValue]

end Move

namespace History

variable {history : History}

theorem ofValue?_toValue (hlimit : history.limit < Nat.pow 2 64)
    (htimes : ∀ move ∈ history.moves, move.time.IsRepresentable) :
    History.ofValue? history.toValue = some history := by
  rw [ofValue?, toValue, Fields.ofValue?_ofFields (by rfl) (by decide)]
  simp [natural?_ofNatural hlimit,
    list?_ofList fun move hmove => Move.ofValue?_toValue (htimes move hmove)]

theorem isStrict_toValue (history : History) : history.toValue.IsStrict := by
  apply isStrict_ofFields
  simp [isStrict_ofNatural, isStrict_ofList Move.isStrict_toValue]

/-- A history is read back from its document, if the calendar has the times of its moves. -/
theorem read?_render (hlimit : history.limit < Nat.pow 2 64)
    (htimes : ∀ move ∈ history.moves, move.time.IsRepresentable) :
    History.read? history.render = some history := by
  rw [read?, render, Document.read?_render history.isStrict_toValue, Option.bind_some,
    ofValue?_toValue hlimit htimes]

/-- Every move that is kept has been recorded. -/
theorem mem_of_mem_foldl_record {limit : Nat} {moves : List Move} {move : Move}
    (hmove : move ∈ (moves.foldl record (empty limit)).moves) : move ∈ moves := by
  have hlength : (empty limit).moves.length ≤ (empty limit).limit := Nat.zero_le limit
  rw [moves_foldl_record hlength, empty, List.nil_append] at hmove
  exact List.mem_of_mem_drop hmove

end History

/-! ### Whatever has been done -/

/-- What operations make of the stack of a new layer is read back from its document, and so is what
a new history keeps of any moves, if the calendar has their times. -/
theorem Document.runs_read_back (operations : List FrameStack.Operation) {limit : Nat}
    {moves : List Move} (hlimit : limit < Nat.pow 2 64)
    (htimes : ∀ move ∈ moves, move.time.IsRepresentable) :
    FrameStack.read? (FrameStack.after operations).render = some (FrameStack.after operations) ∧
      History.read? (moves.foldl History.record (History.empty limit)).render =
        some (moves.foldl History.record (History.empty limit)) := by
  refine ⟨FrameStack.read?_render _, History.read?_render ?_ fun move hmove => ?_⟩
  · rwa [History.limit_foldl_record, History.empty]
  · exact htimes move (History.mem_of_mem_foldl_record hmove)

/-- Moves before year 0, before 1970 and after year 9999 are read back, in a history that has
dropped the first of them, beside two nested frames. -/
theorem Document.runs_read_back_of_distant :
    let operations :=
      [.push, .write "Name" "\x22é\n", .push, .apply "NAME" "ς\x00", .write "name" ""]
    let moves := [-62200000000000, -1, 253402300800001].map fun millis =>
      Move.mk "a" "B" "\\" (Instant.ofMillis millis)
    moves.map (fun move => String.ofList move.time.render) =
        ["-0002-12-17T14:13:20Z", "1969-12-31T23:59:59.999Z", "+10000-01-01T00:00:00.001Z"] ∧
      FrameStack.read? (FrameStack.after operations).render =
        some (FrameStack.after operations) ∧
      History.read? (moves.foldl History.record (History.empty 2)).render =
        some (moves.foldl History.record (History.empty 2)) := by
  intro operations moves
  refine ⟨by decide +kernel, runs_read_back operations (by decide) ?_⟩
  intro move hmove
  obtain ⟨millis, hmillis, rfl⟩ := List.mem_map.mp hmove
  apply Instant.isRepresentable_ofMillis
  have hyears : ∀ millis ∈ [(-62200000000000 : Int), -1, 253402300800001],
      Instant.yearInRange (Date.yearOf (millis / 1000 / Instant.daySeconds)) := by decide
  exact hyears millis hmillis

end LayeredMachines
