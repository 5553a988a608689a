import LayeredMachines.Pass

/-!
# Engines

An engine runs a hierarchy of layers that are started from the machines of a library. It delivers
events to them, each in a pass of its own, and keeps their timers. The clock is read by whoever
drives the engine. A pass may have no end; an operation that makes a pass is therefore told how
many work items a pass may have, and has no result if there are more.
-/

namespace LayeredMachines

/-- The state of an engine between two passes. -/
structure Engine where
  config : Config
  resolver : Resolver
  /-- All that the resolver was shown since it was installed. -/
  transcript : Array Notice
  /-- The machines that layers can be started from. -/
  catalog : List Machine
  hierarchy : Hierarchy
  timers : TimerQueue
  /-- The number of the next layer. -/
  nextLayer : Nat

/-- A layer as it is seen from outside. -/
structure Snapshot where
  id : LayerId
  machine : String
  state : String
  parent : Option LayerId
  /-- All variables, those of the innermost frame first. -/
  bindings : List Parameter
  history : List Move
  deriving DecidableEq

namespace Snapshot

/-- The value of the first variable with a label. -/
def binding? (snapshot : Snapshot) (label : String) : Option String :=
  (snapshot.bindings.find? fun p => caselessEq p.label label).map Parameter.value

/-- A layer below a given parent, as it is seen from outside. -/
def ofLayer (layer : Layer) (parent : Option LayerId) : Snapshot where
  id := layer.id
  machine := layer.machine.name
  state := layer.stateLabel
  parent := parent
  bindings := layer.frames.bindings.map fun (label, value) => ⟨label, value⟩
  history := layer.history.moves

end Snapshot

/-- The layer in a slot with its parent, as it is seen from outside. -/
def Hierarchy.snapshot? (hierarchy : Hierarchy) (slot : Nat) : Option Snapshot :=
  (hierarchy.layer? slot).map fun layer =>
    let parent := (hierarchy.parent? slot).bind hierarchy.layer?
    Snapshot.ofLayer layer (parent.map Layer.id)

namespace Engine

/-- An engine without layers and without a resolver of its own. -/
def create (config : Config) : Engine :=
  ⟨config, Resolver.silent, #[], [], Hierarchy.empty, TimerQueue.empty, 0⟩

/-- Use another resolver, which has not been shown anything yet. -/
def setResolver (engine : Engine) (resolver : Resolver) : Engine :=
  { engine with resolver := resolver, transcript := #[] }

/-- Start afresh with the machines of a library. All layers and timers are dropped. If the library
has a machine for the root, it is started. -/
def restart (engine : Engine) (library : Library) : Engine :=
  let engine :=
    { engine with
      catalog := library.machines, hierarchy := Hierarchy.empty, timers := TimerQueue.empty }
  match library.find? rootMachine with
  | some machine =>
    let root := Layer.create ⟨engine.nextLayer⟩ machine engine.config.historyLimit
    { engine with
      hierarchy := engine.hierarchy.attach none root, nextLayer := engine.nextLayer + 1 }
  | none => engine

/-- What does not change during a pass that begins at a time. -/
def surroundings (engine : Engine) (now : Int) : Surroundings :=
  ⟨engine.catalog, engine.resolver, engine.config, now⟩

/-- The slots that an event is delivered to: that of the target, or those of all attached
layers. -/
def targetSlots (engine : Engine) : Option LayerId → List Nat
  | some id => (engine.hierarchy.find? id).toList
  | none => engine.hierarchy.attachedSlots

/-- The beginning of the pass that delivers an event. -/
def beginPass (engine : Engine) (event : String) (target : Option LayerId) : Pass :=
  let pass : Pass :=
    ⟨engine.hierarchy, engine.timers, engine.transcript, engine.nextLayer, #[], 0⟩
  (pass.notify (.line (.handling event))).enqueueAll event (engine.targetSlots target)

/-- The engine after a pass. -/
def endPass (engine : Engine) (pass : Pass) : Engine :=
  { engine with
    hierarchy := pass.hierarchy
    timers := pass.timers
    transcript := pass.transcript
    nextLayer := pass.nextLayer }

/-- Make the pass that delivers an event to all attached layers or to one of them. The empty event
is not delivered. -/
def deliver? (engine : Engine) (items : Nat) (event : String) (target : Option LayerId)
    (now : Int) : Option Engine :=
  if event.isEmpty then some engine
  else
    ((engine.beginPass event target).drain? (engine.surroundings now) items).map engine.endPass

/-- Drop the records that nothing can reach. -/
def compact (engine : Engine) : Engine :=
  { engine with hierarchy := engine.hierarchy.compact }

/-- Handle an event for all attached layers or for one of them. -/
def handle? (engine : Engine) (items : Nat) (event : String) (target : Option LayerId)
    (now : Int) : Option Engine :=
  (engine.deliver? items event target now).map compact

/-- Fire the timer that is due next, if there is one. -/
def fire? (engine : Engine) (items : Nat) (now : Int) : Option Engine :=
  match engine.timers.next? with
  | some (timer, rest) =>
    { engine with timers := rest }.handle? items timer.event (some timer.target) now
  | none => some engine

/-- How waiting for timers ended: whether none was left, at what time, and with which engine. -/
structure Wait where
  idle : Bool
  now : Int
  engine : Engine

/-- Fire timers at their deadlines until none is left or the next one is due after `last`. At most
`timers` of them are fired. -/
def awaitTimers? (items : Nat) (last : Int) : (timers : Nat) → (now : Int) → Engine → Option Wait
  | timers, now, engine =>
    match engine.timers.pending.head?, timers with
    | none, _ => some ⟨true, now, engine⟩
    | some timer, 0 => if last < timer.deadline then some ⟨false, last, engine⟩ else none
    | some timer, timers + 1 =>
      if last < timer.deadline then some ⟨false, last, engine⟩
      else
        let now := max now timer.deadline
        (engine.fire? items now).bind (awaitTimers? items last timers now)

/-- The attached layers as they are seen from outside, in the order of their creation. -/
def layers (engine : Engine) : List Snapshot :=
  engine.hierarchy.attachedSlots.filterMap engine.hierarchy.snapshot?

/-- The number of attached layers. -/
def size (engine : Engine) : Nat :=
  engine.hierarchy.attachedCount

end Engine

end LayeredMachines
