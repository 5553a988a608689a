import LayeredMachines.Outcome

/-!
# Diagnostics

The lines that an engine writes while it handles events. A line that concerns a layer shows the
layer's identity, whose spelling is left open here.
-/

namespace LayeredMachines

/-- The identity of a layer. No two layers of an engine share one. -/
structure LayerId where
  number : Nat
  deriving DecidableEq

/-- A line about what happens. Moves are shown with the state left, the event followed and the
label aimed at. -/
inductive Diagnostic where
  /-- An event is being delivered. -/
  | handling (event : String)
  /-- A layer starts to follow an event. -/
  | following (layer : LayerId) (machine event : String)
  /-- A layer is about to move. -/
  | moving (layer : LayerId) (state event target : String)
  /-- A move leads nowhere, or to where the layer is. -/
  | notFound (layer : LayerId) (state event target : String)
  /-- A walk made as many moves as it may. -/
  | stopped (layer : LayerId) (state event target : String) (limit : Nat)
  /-- A variable was compared. -/
  | compared (layer : LayerId) (value : String) (outcome : Outcome)
  /-- A line that a layer asked for. -/
  | traced (layer : LayerId) (text : String)
  deriving DecidableEq

namespace Diagnostic

/-- How the lines about a move begin. -/
def renderMove (layer state event target : String) : String :=
  "(" ++ layer ++ ") state '" ++ state ++ "' on '" ++ event ++ "' -> '" ++ target ++ "'"

/-- The text of a line, with the given spelling of identities. -/
def render (name : LayerId → String) : Diagnostic → String
  | .handling event => "Handling " ++ event
  | .following layer machine event =>
    "Layer (" ++ name layer ++ ") of " ++ machine ++ " following on " ++ event
  | .moving layer state event target => renderMove (name layer) state event target
  | .notFound layer state event target =>
    renderMove (name layer) state event target ++ " is invalid transition (not found)"
  | .stopped layer state event target limit =>
    renderMove (name layer) state event target ++ " stopped after " ++ Nat.repr limit ++
      " follow-on steps"
  | .compared layer value outcome =>
    "(" ++ name layer ++ ") axion 'equ' of '" ++ value ++ "' <- '" ++ outcome.text ++ "'"
  | .traced layer text => "(" ++ name layer ++ ") " ++ text

end Diagnostic

end LayeredMachines
