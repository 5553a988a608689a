import LayeredMachines.Engine.Basic
import LayeredMachines.Proofs.Pass.Walks

/-!
# Runs of an engine

An engine is started afresh, is given resolvers, delivers events, and fires timers, in any order
and as often as its users like. This file states which engines can be reached so, and reduces what
an action does to the one thing that is not immediate: a pass.
-/

namespace LayeredMachines

/-- What happens to an engine from outside. -/
inductive Action where
  /-- It starts afresh with the machines of a library. -/
  | restart (library : Library)
  /-- It is given another resolver. -/
  | setResolver (resolver : Resolver)
  /-- It handles an event at a time, for all attached layers or for one of them. -/
  | handle (event : String) (target : Option LayerId) (now : Int)
  /-- The timer that is due next fires at a time: it is taken off, and its event is handled. -/
  | fire (now : Int)
  /-- The timer that is due next is taken off, and its event is left to be handled later. -/
  | expire

/-- What is shown of an event that no layer follows: one line, or nothing if the event is empty. -/
def Notice.mention (event : String) : Array Notice :=
  if event.isEmpty then #[] else #[.line (.handling event)]

/-- An action that starts the engine afresh. -/
def Action.isRestart : Action → Bool
  | .restart _ => true
  | _ => false

/-- A root that starts a child on the event "go" and waits until the child has finished. -/
def Library.sample : Library :=
  ⟨[⟨"default",
      [(State.named "start").on "go" "spawn",
        ((State.named "spawn").onEntry "start:machine=child").on "success" "waiting",
        (State.named "waiting").on "done" "done",
        State.named "done"]⟩,
    ⟨"child",
      [(State.named "start").on "started" "working",
        (State.named "working").on "finish" "final",
        (State.named "final").onLeave "raise:event=done"]⟩]⟩

namespace Engine

variable {engine next : Engine} {items : Nat} {event : String} {target : Option LayerId}
  {now : Int}

/-- The engine after an action, whose pass has at most `items` work items and is followed by
`finish`. -/
def act? (finish : Engine → Engine) (items : Nat) (engine : Engine) : Action → Option Engine
  | .restart library => some (engine.restart library)
  | .setResolver resolver => some (engine.setResolver resolver)
  | .handle event target now => (engine.deliver? items event target now).map finish
  | .fire now =>
    match engine.timers.next? with
    | some (timer, rest) =>
      ({ engine with timers := rest }.deliver? items timer.event (some timer.target) now).map finish
    | none => some engine
  | .expire =>
    match engine.timers.next? with
    | some (_, rest) => some { engine with timers := rest }
    | none => some engine

/-- Handling an event is delivering it and then compacting. -/
theorem act?_handle (engine : Engine) (items : Nat) (event : String) (target : Option LayerId)
    (now : Int) :
    engine.act? compact items (.handle event target now) = engine.handle? items event target now :=
  rfl

/-- Firing a timer is handling its event for its target. -/
theorem act?_fire (engine : Engine) (items : Nat) (now : Int) :
    engine.act? compact items (.fire now) = engine.fire? items now := by
  simp only [act?, fire?]
  cases engine.timers.next? <;> rfl

/-- One engine comes from another by actions that do not start it afresh. -/
inductive Continues : Engine → Engine → Prop
  | refl (engine : Engine) : Continues engine engine
  | act {first engine next : Engine} {items : Nat} {action : Action}
      (hengine : Continues first engine) (haction : action.isRestart = false)
      (hact : engine.act? compact items action = some next) : Continues first next

/-- The engines that come from a new one by actions whose passes return. -/
inductive Reachable : Engine → Prop
  | create (config : Config) : Reachable (Engine.create config)
  | act {engine next : Engine} {items : Nat} {action : Action} (hengine : Reachable engine)
      (hact : engine.act? compact items action = some next) : Reachable next

/-- A new engine can start with any library. -/
theorem reachable_restart (config : Config) (library : Library) :
    ((create config).restart library).Reachable :=
  have hact : (create config).act? compact 0 (.restart library) =
      some ((create config).restart library) := rfl
  .act (.create config) hact

/-- The engine that runs the sample library from its beginning. -/
def sample : Engine :=
  (create Config.default).restart Library.sample

theorem reachable_sample : sample.Reachable :=
  reachable_restart Config.default Library.sample

/-! ### What an action does -/

/-- An action starts the engine afresh, changes its resolver or its timers, or makes a pass. -/
theorem act?_cases {finish : Engine → Engine} {action : Action}
    (hact : engine.act? finish items action = some next) :
    (∃ library, action = .restart library ∧ next = engine.restart library) ∨
    (∃ resolver, next = engine.setResolver resolver) ∨
    (∃ timers, next = { engine with timers := timers }) ∨
    ∃ timers event target now delivered,
      { engine with timers := timers }.deliver? items event target now = some delivered ∧
      next = finish delivered := by
  cases action with
  | restart library => exact .inl ⟨library, rfl, (Option.some.inj hact).symm⟩
  | setResolver resolver => exact .inr (.inl ⟨resolver, (Option.some.inj hact).symm⟩)
  | handle event target now =>
    obtain ⟨delivered, hdelivered, hnext⟩ := Option.map_eq_some_iff.mp hact
    exact .inr (.inr (.inr ⟨engine.timers, event, target, now, delivered, hdelivered, hnext.symm⟩))
  | fire now =>
    simp only [act?] at hact
    split at hact
    · next timer rest _ =>
      obtain ⟨delivered, hdelivered, hnext⟩ := Option.map_eq_some_iff.mp hact
      exact .inr (.inr (.inr ⟨rest, timer.event, some timer.target, now, delivered, hdelivered,
        hnext.symm⟩))
    · exact .inr (.inr (.inl ⟨engine.timers, (Option.some.inj hact).symm⟩))
  | expire =>
    simp only [act?] at hact
    split at hact
    · next rest _ => exact .inr (.inr (.inl ⟨rest, (Option.some.inj hact).symm⟩))
    · exact .inr (.inr (.inl ⟨engine.timers, (Option.some.inj hact).symm⟩))

/-- An event that is not empty is delivered by a pass that returns. -/
theorem deliver?_cases {delivered : Engine}
    (hdeliver : engine.deliver? items event target now = some delivered) :
    delivered = engine ∨ event ≠ "" ∧ ∃ last,
      (engine.beginPass event target).drain? (engine.surroundings now) items = some last ∧
      delivered = engine.endPass last := by
  unfold deliver? at hdeliver
  split at hdeliver
  · exact .inl (Option.some.inj hdeliver).symm
  · next hevent =>
    obtain ⟨last, hdrain, hlast⟩ := Option.map_eq_some_iff.mp hdeliver
    exact .inr ⟨by simpa using hevent, last, hdrain, hlast.symm⟩

/-! ### The beginning of a pass -/

/-- A pass begins with the hierarchy of the engine. -/
@[simp] theorem hierarchy_beginPass (engine : Engine) (event : String)
    (target : Option LayerId) : (engine.beginPass event target).hierarchy = engine.hierarchy := by
  simp [beginPass, Pass.enqueueAll_eq, Pass.notify]

/-- A pass begins with the event for each slot that it is delivered to. -/
@[simp] theorem queue_beginPass (engine : Engine) (event : String) (target : Option LayerId) :
    (engine.beginPass event target).queue =
      ((engine.targetSlots target).map (WorkItem.mk event)).toArray := by
  simp [beginPass, Pass.enqueueAll_eq, Pass.notify]

/-- A pass begins with nothing done. -/
@[simp] theorem progress_beginPass (engine : Engine) (event : String)
    (target : Option LayerId) : (engine.beginPass event target).progress = 0 := by
  simp [beginPass, Pass.enqueueAll_eq, Pass.notify]

/-- Events are delivered to attached layers only. -/
theorem isAttached_of_mem_targetSlots {slot : Nat} (hslot : slot ∈ engine.targetSlots target) :
    engine.hierarchy.isAttached slot = true := by
  cases target with
  | none => exact Hierarchy.mem_attachedSlots.mp hslot
  | some id =>
    have hfound : engine.hierarchy.find? id = some slot := Option.mem_toList.mp hslot
    exact Hierarchy.mem_attachedSlots.mp (List.mem_of_find?_eq_some hfound)

/-- An event for a layer that is not there is delivered without a walk. -/
theorem deliver?_of_find?_eq_none {id : LayerId} (hid : engine.hierarchy.find? id = none)
    (items : Nat) (event : String) (now : Int) :
    engine.deliver? items event (some id) now =
      some { engine with transcript := engine.transcript ++ Notice.mention event } := by
  have hnone : (engine.beginPass event (some id)).step? (engine.surroundings now) = none := by
    rw [Pass.step?_eq_none, Pass.next?, queue_beginPass, targetSlots, hid]
    rfl
  have hdrain : (engine.beginPass event (some id)).drain? (engine.surroundings now) items =
      some (engine.beginPass event (some id)) := by
    cases items <;> simp [Pass.drain?, hnone]
  have hpass : engine.endPass (engine.beginPass event (some id)) =
      { engine with transcript := engine.transcript.push (.line (.handling event)) } := by
    simp [endPass, beginPass, Pass.enqueueAll_eq, Pass.notify]
  unfold deliver? Notice.mention
  split
  · rw [Array.append_empty]
  · rw [hdrain, Option.map_some, hpass, Array.push_eq_append]

/-- A pass that begins in an ordered and full hierarchy can go on. -/
theorem resting_beginPass (hordered : engine.hierarchy.Ordered) (hfull : engine.hierarchy.IsFull)
    (hevent : event ≠ "") (target : Option LayerId) :
    (engine.beginPass event target).Resting where
  ordered := by rwa [hierarchy_beginPass]
  isFull := by rwa [hierarchy_beginPass]
  isQueued item hitem := by
    rw [queue_beginPass, List.mem_toArray] at hitem
    obtain ⟨slot, hslot, rfl⟩ := List.mem_map.mp hitem
    rw [hierarchy_beginPass]
    exact ⟨hevent, Hierarchy.lt_size_of_isAttached (isAttached_of_mem_targetSlots hslot)⟩
  progress_le := by
    rw [progress_beginPass]
    exact Nat.zero_le _

end Engine

end LayeredMachines
