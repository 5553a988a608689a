import LayeredMachines.Machine

/-!
# Violations of a library

A library is valid if its machines have distinct, non-empty names and states, if the labels of
each machine's states are distinct and not empty, and if every transition that has a target leads
to a state of its machine. All violations are found, in the order of the document.
-/

namespace LayeredMachines

/-- A defect of a library. Positions are counted from zero. -/
inductive Violation where
  | emptyMachineName (position : Nat)
  | duplicateMachine (name : String)
  | noStates (machine : String)
  | emptyStateLabel (machine : String) (position : Nat)
  | duplicateState (machine label : String)
  | unknownTarget (machine state event target : String)
  deriving DecidableEq

namespace Violation

/-- The sentence that reports a defect. -/
def message : Violation → String
  | .emptyMachineName position =>
    "Machine at position " ++ Nat.repr position ++ " has an empty name"
  | .duplicateMachine name => "Machine '" ++ name ++ "' is defined more than once"
  | .noStates machine => "Machine '" ++ machine ++ "' has no states"
  | .emptyStateLabel machine position =>
    "State at position " ++ Nat.repr position ++ " of machine '" ++ machine ++
      "' has an empty label"
  | .duplicateState machine label =>
    "State '" ++ label ++ "' is defined more than once in machine '" ++ machine ++ "'"
  | .unknownTarget machine state event target =>
    "State '" ++ state ++ "' of machine '" ++ machine ++ "' on '" ++ event ++
      "' targets unknown state '" ++ target ++ "'"

/-- The report of a library with defects: how many there are, and the first one. -/
def summary (violations : List Violation) : String :=
  "Machine definitions have " ++ Nat.repr violations.length ++ " violation(s), first: " ++
    (violations.head?.map message).getD ""

end Violation

/-- The violation itself if the condition for it holds. -/
def violationIf (condition : Bool) (violation : Violation) : List Violation :=
  if condition then [violation] else []

/-- A transition of `state` that leads to no state of `machine`. -/
def Transition.violations (transition : Transition) (machine : Machine) (state : State) :
    List Violation :=
  violationIf
    (!transition.target.isEmpty && !machine.states.any (·.isLabelled transition.target))
    (.unknownTarget machine.name state.label transition.event transition.target)

/-- The defects of a state at a position of `machine`, after the states in `earlier`. -/
def State.violations (state : State) (machine : Machine) (position : Nat) (earlier : List State) :
    List Violation :=
  violationIf state.label.isEmpty (.emptyStateLabel machine.name position) ++
    violationIf (!state.label.isEmpty && earlier.any (·.isLabelled state.label))
      (.duplicateState machine.name state.label) ++
    state.transitions.flatMap fun t => t.violations machine state

/-- The defects of a machine's states. -/
def Machine.violations (machine : Machine) : List Violation :=
  violationIf machine.states.isEmpty (.noStates machine.name) ++
    machine.states.zipIdx.flatMap fun (state, position) =>
      state.violations machine position (machine.states.take position)

/-- The defects of a library. -/
def Library.violations (library : Library) : List Violation :=
  library.machines.zipIdx.flatMap fun (machine, position) =>
    violationIf machine.name.isEmpty (.emptyMachineName position) ++
      violationIf
        (!machine.name.isEmpty &&
          (library.machines.take position).any (·.isNamed machine.name))
        (.duplicateMachine machine.name) ++
      machine.violations

/-- A valid library has no defects. -/
def Library.isValid (library : Library) : Bool :=
  library.violations.isEmpty

end LayeredMachines
