import LayeredMachines.History

/-!
# Configuration of an engine
-/

namespace LayeredMachines

/-- The limits that an engine runs under, and the name of the thread that serves its timers. -/
structure Config where
  /-- The moves that one walk may make. -/
  maxFollowOn : Nat
  /-- The moves that the history of a layer keeps. -/
  historyLimit : Nat
  timerThreadName : String
  deriving DecidableEq

/-- The configuration of an engine for which nothing is chosen. -/
def Config.default : Config :=
  ⟨256, History.defaultLimit, "fsmstack-timer"⟩

end LayeredMachines
