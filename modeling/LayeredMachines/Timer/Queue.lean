import LayeredMachines.Diagnostic
import LayeredMachines.Text.Caseless

/-!
# Pending timers

A timer sends an event to a layer at a deadline, in milliseconds since the beginning of 1970. The
pending timers are kept in the order of their deadlines, and a timer is put behind those with the
same deadline. A layer has at most one pending timer for an event.
-/

namespace LayeredMachines

/-- An event that is due for a layer at a deadline. -/
structure Timer where
  target : LayerId
  event : String
  deadline : Int
  deriving DecidableEq

/-- Two timers with the same target and the same event up to case stand for each other. -/
def Timer.sameKey (timer other : Timer) : Bool :=
  timer.target == other.target && caselessEq timer.event other.event

/-- The timers that have not fired, the next one first. -/
structure TimerQueue where
  pending : List Timer
  deriving DecidableEq

namespace TimerQueue

/-- The queue without timers. -/
def empty : TimerQueue :=
  ⟨[]⟩

/-- Put a timer behind all those that are not due after it. -/
def insert (timer : Timer) : List Timer → List Timer
  | [] => [timer]
  | first :: rest =>
    if first.deadline ≤ timer.deadline then first :: insert timer rest else timer :: first :: rest

/-- Add a timer, in place of the one that it stands for. -/
def schedule (queue : TimerQueue) (timer : Timer) : TimerQueue :=
  ⟨insert timer (queue.pending.eraseP (·.sameKey timer))⟩

/-- The pending timer that a timer is added in place of, if there is one. -/
def replaced? (queue : TimerQueue) (timer : Timer) : Option Timer :=
  queue.pending.find? (·.sameKey timer)

/-- The number of pending timers that a timer is put behind when it is added. -/
def place (queue : TimerQueue) (timer : Timer) : Nat :=
  ((queue.pending.eraseP (·.sameKey timer)).takeWhile
    fun other => decide (other.deadline ≤ timer.deadline)).length

/-- Take the timer in a place back, and put back the one that it was added in place of. -/
def unschedule (queue : TimerQueue) (place : Nat) (replaced : Option Timer) : TimerQueue :=
  let rest := queue.pending.eraseIdx place
  match replaced with
  | some timer => ⟨insert timer rest⟩
  | none => ⟨rest⟩

/-- The number of pending timers. -/
def size (queue : TimerQueue) : Nat :=
  queue.pending.length

/-- The timer that is due next, and the queue without it. -/
def next? (queue : TimerQueue) : Option (Timer × TimerQueue) :=
  match queue.pending with
  | [] => none
  | timer :: rest => some (timer, ⟨rest⟩)

/-- A timer is put in once, and nothing else changes. -/
theorem insert_perm (timer : Timer) (pending : List Timer) :
    (insert timer pending).Perm (timer :: pending) := by
  induction pending with
  | nil => exact .refl _
  | cons first rest ih =>
    unfold insert
    split
    · exact (ih.cons first).trans (.swap timer first rest)
    · exact .refl _

end TimerQueue

end LayeredMachines
