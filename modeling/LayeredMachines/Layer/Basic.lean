import LayeredMachines.Diagnostic
import LayeredMachines.FrameStack
import LayeredMachines.History
import LayeredMachines.Machine

/-!
# Layers

A layer is a running machine: the state it rests in, its variables, and its latest moves.
-/

namespace LayeredMachines

/-- A running machine. The state it rests in is given by its position. -/
structure Layer where
  id : LayerId
  machine : Machine
  current : Nat
  frames : FrameStack
  history : History
  deriving DecidableEq

namespace Layer

/-- A layer at the start of its machine, without variables and moves. -/
def create (id : LayerId) (machine : Machine) (historyLimit : Nat) : Layer :=
  ⟨id, machine, machine.startIndex, FrameStack.empty, History.empty historyLimit⟩

/-- The state that a layer rests in. A machine without states has none. -/
def state? (layer : Layer) : Option State :=
  layer.machine.states[layer.current]?

/-- The label of the state that a layer rests in, which is empty if there is none. -/
def stateLabel (layer : Layer) : String :=
  (layer.state?.map State.label).getD ""

/-- A layer is finished when it rests in a final state. -/
def isFinal (layer : Layer) : Bool :=
  layer.state?.any State.isFinal

end Layer

end LayeredMachines
