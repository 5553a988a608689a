import LayeredMachines.Text.Caseless

/-!
# Machines

A machine is a list of states. A state carries an axion for its entry, one for its leave, and
transitions to other states of the machine by label. A transition without an event is a wildcard,
taken only if no transition has the event. A library is a list of machines.
-/

namespace LayeredMachines

/-- An edge out of a state: the event that triggers it, empty for a wildcard, and the label of the
state it leads to. -/
structure Transition where
  event : String
  target : String
  deriving DecidableEq

/-- A state with its axions and its transitions. -/
structure State where
  label : String
  entry : String
  leave : String
  transitions : List Transition
  deriving DecidableEq

/-- A kind of layer. -/
structure Machine where
  name : String
  states : List State
  deriving DecidableEq

/-- The machines that layers can be started from. -/
structure Library where
  machines : List Machine
  deriving DecidableEq

/-- The label of the state that a layer starts in. -/
def startLabel : String := "start"

/-- The label of the states in which a layer is finished. -/
def finalLabel : String := "final"

/-- The name of the machine of the root layer. -/
def rootMachine : String := "default"

/-- A wildcard has no event. -/
def Transition.isWildcard (transition : Transition) : Bool :=
  transition.event.isEmpty

namespace State

/-- The state without axions and transitions. -/
def named (label : String) : State :=
  ⟨label, "", "", []⟩

/-- The state with the given axion for its entry. -/
def onEntry (state : State) (axion : String) : State :=
  { state with entry := axion }

/-- The state with the given axion for its leave. -/
def onLeave (state : State) (axion : String) : State :=
  { state with leave := axion }

/-- The state with one more transition. -/
def on (state : State) (event target : String) : State :=
  { state with transitions := state.transitions ++ [⟨event, target⟩] }

/-- The state with one more wildcard. -/
def otherwise (state : State) (target : String) : State :=
  state.on "" target

/-- The first transition that has the event itself. The empty event is no transition's. -/
def matching? (state : State) (event : String) : Option Transition :=
  if event.isEmpty then none
  else state.transitions.find? fun t => !t.isWildcard && caselessEq t.event event

/-- The label of the state to go to on an event: the target of the first transition that has the
event, or else of the first wildcard. An empty target is no target. -/
def next? (state : State) (event : String) : Option String :=
  match (state.matching? event).or (state.transitions.find? Transition.isWildcard) with
  | some transition => if transition.target.isEmpty then none else some transition.target
  | none => none

/-- A sink has no transitions. -/
def isSink (state : State) : Bool :=
  state.transitions.isEmpty

/-- A state is known by its label up to case. -/
def isLabelled (state : State) (label : String) : Bool :=
  caselessEq state.label label

/-- The state is one that layers start in. -/
def isStart (state : State) : Bool :=
  state.isLabelled startLabel

/-- The state is one in which layers are finished. -/
def isFinal (state : State) : Bool :=
  state.isLabelled finalLabel

end State

namespace Machine

/-- A machine is known by its name up to case. -/
def isNamed (machine : Machine) (name : String) : Bool :=
  caselessEq machine.name name

/-- The position of the first start state, or of the first state if there is none. -/
def startIndex (machine : Machine) : Nat :=
  (machine.states.findIdx? State.isStart).getD 0

/-- A position is a 64-bit word, and less than this. -/
def positionLimit : Nat := Nat.pow 2 64

/-- The states with their positions, from a given position on and around to it again. A position
past the last state stands for its remainder. Counting on from there can pass the last word, and
goes on at 0. -/
def around (machine : Machine) (start : Nat) : List (State × Nat) :=
  let indexed := machine.states.zipIdx
  let turn := start % indexed.length
  let rotated := indexed.drop turn ++ indexed.take turn
  if start < indexed.length then rotated
  else
    let ahead := positionLimit - start
    rotated.take ahead ++ indexed.take (indexed.length - ahead)

/-- The first state with a label, searched for around from a given position, and its position. -/
def search? (machine : Machine) (start : Nat) (label : String) : Option (State × Nat) :=
  (machine.around start).find? fun entry => entry.1.isLabelled label

/-- The position of the first state with a label, searched for around from a given position. -/
def locate? (machine : Machine) (start : Nat) (label : String) : Option Nat :=
  (machine.search? start label).map Prod.snd

/-- The states around a position of the machine are the states of the machine. -/
theorem mem_around {machine : Machine} {start : Nat} (hstart : start < machine.states.length)
    {entry : State × Nat} :
    entry ∈ machine.around start ↔ entry ∈ machine.states.zipIdx := by
  simp only [around, List.length_zipIdx, if_pos hstart]
  rw [List.mem_append, or_comm, ← List.mem_append, List.take_append_drop]

/-- The states around any position are states of the machine. -/
theorem mem_of_mem_around {machine : Machine} {start : Nat} {entry : State × Nat}
    (hentry : entry ∈ machine.around start) : entry ∈ machine.states.zipIdx := by
  have hrotated (turn : Nat) (h : entry ∈ machine.states.zipIdx.drop turn ++
      machine.states.zipIdx.take turn) : entry ∈ machine.states.zipIdx :=
    (List.mem_append.1 h).elim List.mem_of_mem_drop List.mem_of_mem_take
  simp only [around] at hentry
  split at hentry
  · exact hrotated _ hentry
  · exact (List.mem_append.1 hentry).elim (fun h => hrotated _ (List.mem_of_mem_take h))
      List.mem_of_mem_take

/-- What is found for a label has the label. -/
theorem isLabelled_of_search? {machine : Machine} {start position : Nat} {label : String}
    {state : State} (hfound : machine.search? start label = some (state, position)) :
    state.isLabelled label = true := by
  simpa using List.find?_some hfound

/-- What is found for a label stands at the position that is found. -/
theorem getElem?_of_search? {machine : Machine} {start position : Nat} {label : String}
    {state : State} (hfound : machine.search? start label = some (state, position)) :
    machine.states[position]? = some state :=
  List.mem_zipIdx_iff_getElem?.1 (mem_of_mem_around (List.mem_of_find?_eq_some hfound))

end Machine

namespace Library

/-- The library without machines. -/
def empty : Library :=
  ⟨[]⟩

/-- The library with one more machine. -/
def add (library : Library) (machine : Machine) : Library :=
  ⟨library.machines ++ [machine]⟩

/-- The first machine with a name. -/
def find? (library : Library) (name : String) : Option Machine :=
  library.machines.find? (·.isNamed name)

end Library

end LayeredMachines
