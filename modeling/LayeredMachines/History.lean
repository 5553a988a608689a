import LayeredMachines.Instant.Basic

/-!
# Histories

The moves that a layer made most recently, the oldest first. A history keeps no more of them than
its limit: a full one drops its oldest move for the new one.
-/

namespace LayeredMachines

/-- A move between states: the labels of both, the event that the layer followed, and the time. -/
structure Move where
  source : String
  target : String
  event : String
  time : Instant
  deriving DecidableEq

/-- The moves kept, and how many may be kept. -/
structure History where
  moves : List Move
  limit : Nat
  deriving DecidableEq

namespace History

/-- The limit of a history for which none is chosen. -/
def defaultLimit : Nat := 32

/-- The history without moves. -/
def empty (limit : Nat) : History :=
  ⟨[], limit⟩

/-- Keep one more move, for which a full history drops its oldest. A limit of zero keeps none. -/
def record (history : History) (move : Move) : History :=
  if history.limit = 0 then history
  else
    let kept :=
      if history.moves.length = history.limit then history.moves.drop 1 else history.moves
    { history with moves := kept ++ [move] }

/-- The labels of the states visited, from the source of the oldest move on. -/
def path (history : History) : List String :=
  match history.moves with
  | [] => []
  | first :: _ => first.source :: history.moves.map Move.target

/-- The newest move. -/
def last? (history : History) : Option Move :=
  history.moves.getLast?

/-- The whole milliseconds from the oldest to the newest move, if there are any and they are in
this order of time. -/
def durationMillis? (history : History) : Option Nat := do
  let first ← history.moves.head?
  let last ← history.moves.getLast?
  let nanos := Instant.nanosBetween first.time last.time
  if nanos < 0 then none else some (nanos.toNat / 1000000)

/-- Recording does not change the limit. -/
@[simp] theorem limit_record (history : History) (move : Move) :
    (history.record move).limit = history.limit := by
  unfold record
  split <;> rfl

/-- A history within its limit stays within it. -/
theorem length_record_le {history : History} (move : Move)
    (hlength : history.moves.length ≤ history.limit) :
    (history.record move).moves.length ≤ history.limit := by
  unfold record
  split
  · exact hlength
  · split <;> simp <;> omega

end History

end LayeredMachines
