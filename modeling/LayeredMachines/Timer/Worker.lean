import LayeredMachines.Timer.Queue

/-!
# Timers and their worker

A set of timers is served by a worker that runs beside its users. Registering a timer starts a
worker unless one is running. The worker sleeps until the next deadline, fires the timers that are
due one after the other, and ends when none is pending. While it fires a timer it does not hold
the set, so that timers may be registered in between. If the firing of a timer breaks down, the
worker ends, and the next registration starts another one. A registration fails if it would have to
start a worker and cannot.

Every action here happens while the set is held, and is therefore indivisible.
-/

namespace LayeredMachines

/-- What a live worker is doing. -/
inductive Worker where
  /-- About to look at the pending timers. -/
  | checking
  /-- Asleep until a deadline, perhaps with a signal to wake up. -/
  | sleeping (deadline : Int) (signalled : Bool)
  /-- Firing a timer, without holding the set. -/
  | firing (timer : Timer)
  /-- Broken down, and about to say so. -/
  | broken
  deriving DecidableEq

/-- The pending timers, whether a worker is said to be running, and the live workers. -/
structure TimerSet where
  queue : TimerQueue
  running : Bool
  workers : List Worker
  deriving DecidableEq

namespace Worker

/-- Signal a worker that sleeps. -/
def signal : Worker → Worker
  | .sleeping deadline _ => .sleeping deadline true
  | worker => worker

/-- The worker sleeps and has not been signalled. -/
def isAsleep : Worker → Bool
  | .sleeping _ signalled => !signalled
  | _ => false

/-- Signal the first worker that is asleep. -/
def signalFirst : List Worker → List Worker
  | [] => []
  | worker :: rest =>
    if worker.isAsleep then worker.signal :: rest else worker :: signalFirst rest

end Worker

namespace TimerSet

/-- The set without timers and workers. -/
def empty : TimerSet :=
  ⟨TimerQueue.empty, false, []⟩

/-- Register a timer. If it is due next, a worker that sleeps until some later deadline is woken;
if no worker is running, one is started. -/
def register (set : TimerSet) (timer : Timer) : TimerSet :=
  let queue := set.queue.schedule timer
  if set.running then
    let workers :=
      if queue.pending.head? = some timer then Worker.signalFirst set.workers else set.workers
    { set with queue := queue, workers := workers }
  else ⟨queue, true, set.workers ++ [.checking]⟩

/-- Try to register a timer when no worker is running and none can be started. The timer is taken
back. -/
def refuse (set : TimerSet) (timer : Timer) : TimerSet :=
  let queue := set.queue.schedule timer
  { set with queue := queue.unschedule (set.queue.place timer) (set.queue.replaced? timer) }

/-- Drop all pending timers and wake all workers that sleep. -/
def clear (set : TimerSet) : TimerSet :=
  { set with queue := TimerQueue.empty, workers := set.workers.map Worker.signal }

/-- A worker looks at the pending timers: it ends if there are none, goes to sleep if the next one
is not due, and fires it otherwise. -/
def look (set : TimerSet) (worker : Nat) (now : Int) : TimerSet :=
  match set.queue.next? with
  | none => { set with running := false, workers := set.workers.eraseIdx worker }
  | some (timer, rest) =>
    if now < timer.deadline then
      { set with workers := set.workers.set worker (.sleeping timer.deadline false) }
    else { set with queue := rest, workers := set.workers.set worker (.firing timer) }

/-- What can happen to a set of timers. -/
inductive Action where
  /-- A timer is registered. -/
  | register (timer : Timer)
  /-- A timer is to be registered, but no worker can be started for it. -/
  | refuse (timer : Timer)
  /-- All pending timers are dropped. -/
  | clear
  /-- A worker looks at the pending timers at a time that it reads from the clock. -/
  | look (worker : Nat) (now : Int)
  /-- A sleeping worker wakes up, for whatever reason. -/
  | wake (worker : Nat)
  /-- A worker has fired its timer. -/
  | fired (worker : Nat)
  /-- The firing of a timer breaks down. -/
  | breakDown (worker : Nat)
  /-- A broken worker says so, and ends. -/
  | giveUp (worker : Nat)
  deriving DecidableEq

/-- The set after an action, if the action can happen. -/
def step? (set : TimerSet) : Action → Option TimerSet
  | .register timer => some (set.register timer)
  | .refuse timer => if set.running then none else some (set.refuse timer)
  | .clear => some set.clear
  | .look worker now =>
    match set.workers[worker]? with
    | some .checking => some (set.look worker now)
    | _ => none
  | .wake worker =>
    match set.workers[worker]? with
    | some (.sleeping ..) => some { set with workers := set.workers.set worker .checking }
    | _ => none
  | .fired worker =>
    match set.workers[worker]? with
    | some (.firing _) => some { set with workers := set.workers.set worker .checking }
    | _ => none
  | .breakDown worker =>
    match set.workers[worker]? with
    | some (.firing _) => some { set with workers := set.workers.set worker .broken }
    | _ => none
  | .giveUp worker =>
    match set.workers[worker]? with
    | some .broken =>
      some { set with running := false, workers := set.workers.eraseIdx worker }
    | _ => none

/-- What a wait for the worker to end finds: that no worker is running, or else, once the time is up,
that one is. Until then it finds nothing. -/
def idle? (set : TimerSet) (timeIsUp : Bool) : Option Bool :=
  if set.running then if timeIsUp then some false else none else some true

/-- What the first worker does next by itself, at a time and with the events whose firing breaks
down. A worker that sleeps does something only when it is signalled or its deadline has come. -/
def nextAction? (set : TimerSet) (now : Int) (breaks : String → Bool) : Option Action :=
  match set.workers with
  | [] => none
  | .checking :: _ => some (.look 0 now)
  | .sleeping deadline signalled :: _ =>
    if signalled || decide (deadline ≤ now) then some (.wake 0) else none
  | .firing timer :: _ => some (if breaks timer.event then .breakDown 0 else .fired 0)
  | .broken :: _ => some (.giveUp 0)

/-- The timer that the first worker is firing. -/
def firing? (set : TimerSet) : Option Timer :=
  match set.workers with
  | .firing timer :: _ => some timer
  | _ => none

/-- Let the first worker act at a time until it sleeps or has ended, or has acted as often as it
may. Gives the timers fired, in order. -/
def serve (now : Int) (breaks : String → Bool) : (actions : Nat) → TimerSet → List Timer × TimerSet
  | 0, set => ([], set)
  | actions + 1, set =>
    match (set.nextAction? now breaks).bind set.step? with
    | none => ([], set)
    | some next =>
      let (fired, last) := serve now breaks actions next
      (set.firing?.toList ++ fired, last)

/-- Let the first worker act at a time until it sleeps or has ended. It acts at most twice for
each pending timer, besides waking up, looking once more and giving up. -/
def settle (set : TimerSet) (now : Int) (breaks : String → Bool) : List Timer × TimerSet :=
  serve now breaks (2 * set.queue.size + 4) set

end TimerSet

end LayeredMachines
