import LayeredMachines.Config
import LayeredMachines.Hierarchy
import LayeredMachines.Layer.Walk
import LayeredMachines.Resolver
import LayeredMachines.Timer.Queue

/-!
# Passes

An event is delivered in a pass: a list of work is walked through from its beginning while the
walks of the layers add to its end. All that an event sets off in the hierarchy is done before the
pass is over. This file gives the calls of a walking layer their meaning in the hierarchy.
-/

namespace LayeredMachines

/-- The event that a new layer is sent first. -/
def startedEvent : String := "started"

/-- An event to be followed by the layer in a slot. -/
structure WorkItem where
  event : String
  slot : Nat
  deriving DecidableEq

/-- What does not change during a pass. -/
structure Surroundings where
  catalog : List Machine
  resolver : Resolver
  config : Config
  /-- The time in milliseconds since the beginning of 1970. The clock is read once for a pass. -/
  now : Int

/-- The state of a pass. -/
structure Pass where
  hierarchy : Hierarchy
  /-- The pending timers. -/
  timers : TimerQueue
  /-- All that the resolver was shown. -/
  transcript : Array Notice
  /-- The number of the next layer. -/
  nextLayer : Nat
  /-- All work of the pass, whether done or not. -/
  queue : Array WorkItem
  /-- The number of work items that are done or under way. -/
  progress : Nat

namespace Pass

/-- Show something to the resolver. -/
def notify (pass : Pass) (notice : Notice) : Pass :=
  { pass with transcript := pass.transcript.push notice }

/-- Add work for a layer. -/
def enqueue (pass : Pass) (event : String) (slot : Nat) : Pass :=
  { pass with queue := pass.queue.push ⟨event, slot⟩ }

/-- Add the same event for several layers. -/
def enqueueAll (pass : Pass) (event : String) (slots : List Nat) : Pass :=
  slots.foldl (·.enqueue event ·) pass

/-- Start a layer below the one in `slot`, with the seed for its variables, and send it its first
event. -/
def startLayer (pass : Pass) (config : Config) (machine : Machine) (slot : Nat)
    (seed : List Parameter) : Pass :=
  let layer := Layer.create ⟨pass.nextLayer⟩ machine config.historyLimit
  let frames := seed.foldl (fun frames p => frames.apply p.label p.value) layer.frames
  let child := pass.hierarchy.size
  let pass :=
    { pass with
      hierarchy := pass.hierarchy.attach (some slot) { layer with frames := frames }
      nextLayer := pass.nextLayer + 1 }
  pass.enqueue startedEvent child

/-- The number of attached layers below `slot` whose variables match. -/
def countMatches (pass : Pass) (slot : Nat) (tuple : List Parameter) : Nat :=
  (pass.hierarchy.descendants slot).countP fun below =>
    (pass.hierarchy.layer? below).any fun layer => layer.frames.matchesAll tuple

end Pass

namespace Surroundings

/-- What the calls of the layer in `slot` do. Counting, sending events downwards, custom verbs and
lines are open to every layer, all else only to an attached one. That a timer is registered cannot
fail here: the worker that it may need can always be started. -/
def handle (around : Surroundings) (slot : Nat) (id : LayerId) : Handler Pass
  | .start machine seed, pass =>
    if pass.hierarchy.isAttached slot then
      match around.catalog.find? (·.isNamed machine) with
      | some definition => (.success, pass.startLayer around.config definition slot seed)
      | none => (.invalid, pass)
    else (.failure, pass)
  | .raise event, pass =>
    if pass.hierarchy.isAttached slot then
      match pass.hierarchy.parent? slot with
      | some parent => (.success, if event.isEmpty then pass else pass.enqueue event parent)
      | none => (.success, pass)
    else (.failure, pass)
  | .blast event, pass =>
    (.success,
      if event.isEmpty then pass else pass.enqueueAll event (pass.hierarchy.descendants slot))
  | .patch command status, pass =>
    if pass.hierarchy.isAttached slot then (.success, pass.notify (.command command status))
    else (.failure, pass)
  | .write label value, pass =>
    if pass.hierarchy.isAttached slot then
      match pass.hierarchy.parent? slot with
      | some parent =>
        let write (layer : Layer) := { layer with frames := layer.frames.write label value }
        (.success, { pass with hierarchy := pass.hierarchy.modifyLayer parent write })
      | none => (.success, pass)
    else (.failure, pass)
  | .count tuple, pass => (pass.countMatches slot tuple, pass)
  | .timer delay event, pass =>
    if pass.hierarchy.isAttached slot then
      let timer : Timer := ⟨id, event, Signed64.clamp (around.now + delay)⟩
      (.success, { pass with timers := pass.timers.schedule timer })
    else (.failure, pass)
  | .trace text, pass =>
    if pass.hierarchy.isAttached slot then (.success, pass.notify (.line (.traced id text)))
    else (.failure, pass)
  | .pop, pass =>
    if pass.hierarchy.isAttached slot then
      (.success, { pass with hierarchy := pass.hierarchy.detach slot })
    else (.failure, pass)
  | .execute verb parameters, pass =>
    (around.resolver.answer pass.transcript verb parameters,
      pass.notify (.execute verb parameters))
  | .log line, pass => ((), pass.notify (.line line))

end Surroundings

namespace Pass

/-- The layer in the slot of a work item follows the event. A slot whose layer is taken out is
passed over. -/
def process (around : Surroundings) (pass : Pass) (item : WorkItem) : Pass :=
  match pass.hierarchy.layer? item.slot with
  | none => pass
  | some layer =>
    let pass :=
      { pass with hierarchy := pass.hierarchy.take item.slot }.notify
        (.line (.following layer.id layer.machine.name item.event))
    let walk := layer.follow item.event (Instant.ofMillis around.now) around.config.maxFollowOn
    let (layer, pass) := walk.run (around.handle item.slot layer.id) pass
    { pass with hierarchy := pass.hierarchy.restore item.slot layer }

/-- Process the next work item, if there is one. -/
def step? (around : Surroundings) (pass : Pass) : Option Pass :=
  match pass.queue[pass.progress]? with
  | none => none
  | some item => some ({ pass with progress := pass.progress + 1 }.process around item)

/-- Process work items until none is left. Without an end there is no result, however many items
may be processed. -/
def drain? (around : Surroundings) : (items : Nat) → Pass → Option Pass
  | 0, pass => if (pass.step? around).isNone then some pass else none
  | items + 1, pass =>
    match pass.step? around with
    | none => some pass
    | some next => drain? around items next

end Pass

end LayeredMachines
