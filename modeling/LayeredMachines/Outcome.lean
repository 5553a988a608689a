/-!
# Outcomes

What a built-in verb answers. On entering a state the text of the outcome is the event that the
walk follows on with.
-/

namespace LayeredMachines

/-- The outcome of a built-in verb. -/
inductive Outcome where
  | success
  | failure
  | invalid
  | notSame
  deriving DecidableEq

/-- The text of an outcome. -/
def Outcome.text : Outcome → String
  | .success => "success"
  | .failure => "failure"
  | .invalid => "invalid"
  | .notSame => "notsame"

end LayeredMachines
