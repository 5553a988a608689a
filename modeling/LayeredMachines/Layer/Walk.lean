import LayeredMachines.Layer.Basic
import LayeredMachines.Layer.Execution

/-!
# Walks

A layer follows an event by walking from state to state. The event selects the first move, and
after each move the result of the entry axion selects the next one. A walk ends where no move is
selected, where the selected label is not found, after a move to the same state, or after as many
moves as it may make. A layer that is then finished runs the effects of its leave axion and asks
to be taken out of the hierarchy.
-/

namespace LayeredMachines.Layer

/-- Execute the axion for leaving a state, if it has one. -/
def leaveState (layer : Layer) (state : State) (phase : Phase) (context : WalkContext) :
    Program Layer :=
  if state.leave.isEmpty then pure layer
  else do
    let (_, frames) ← executeText state.leave phase context layer.id layer.frames
    pure { layer with frames := frames }

/-- Record the move from one state to another and rest in the second one. -/
def moveTo (layer : Layer) (source target : State) (position : Nat) (event : String)
    (now : Instant) : Layer :=
  { layer with
    current := position
    history := layer.history.record ⟨source.label, target.label, event, now⟩ }

/-- Execute the axion for entering a state, and give its result if there is an axion. -/
def enterState (layer : Layer) (state : State) (context : WalkContext) :
    Program (Option String × Layer) :=
  if state.entry.isEmpty then pure (none, layer)
  else do
    let (result, frames) ← executeText state.entry .entry context layer.id layer.frames
    pure (some result, { layer with frames := frames })

/-- Walk on from `state`, in which the layer rests, to the label that was selected, if any, with a
number of moves left out of `limit`. -/
def walk (event : String) (now : Instant) (limit : Nat) :
    (remaining : Nat) → (state : State) → (previous : String) → (selected : Option String) →
      Layer → Program Layer
  | _, _, _, none, layer => pure layer
  | 0, state, _, some target, layer => do
    Program.log (.stopped layer.id state.label event target limit)
    pure layer
  | remaining + 1, state, previous, some target, layer => do
    Program.log (.moving layer.id state.label event target)
    match layer.machine.search? layer.current target with
    | none => do
      Program.log (.notFound layer.id state.label event target)
      pure layer
    | some (next, position) => do
      let reentered := position == layer.current
      let layer ← layer.leaveState state .leave ⟨event, previous⟩
      let layer := layer.moveTo state next position event now
      let (result, layer) ← layer.enterState next ⟨event, previous⟩
      if reentered then do
        Program.log (.notFound layer.id next.label event target)
        pure layer
      else
        walk event now limit remaining next (result.getD previous) (next.next? (result.getD ""))
          layer

/-- A layer that rests in a final state executes the axion for leaving it and asks to be taken
out. -/
def finish (layer : Layer) (event : String) : Program Layer :=
  match layer.state? with
  | some state =>
    if state.isFinal then do
      let layer ← layer.leaveState state .final ⟨event, ""⟩
      let _ ← Program.call .pop
      pure layer
    else pure layer
  | none => pure layer

/-- Follow an event with at most `limit` moves. -/
def follow (layer : Layer) (event : String) (now : Instant) (limit : Nat) : Program Layer :=
  match layer.state? with
  | some state => do
    let layer ←
      if state.isSink then pure layer
      else walk event now limit limit state "" (state.next? event) layer
    layer.finish event
  | none => pure layer

end LayeredMachines.Layer
