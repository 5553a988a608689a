import LayeredMachines.Engine.Basic
import LayeredMachines.Violation

/-!
# Blueprints of engines

A blueprint collects what an engine is to be built from. An engine is not built if it could never
make a move, nor from a library with defects unless the blueprint forgoes the check.
-/

namespace LayeredMachines

/-- What an engine is to be built from. -/
structure Blueprint where
  config : Config
  /-- Check the library for defects. -/
  validate : Bool
  library : Option Library
  resolver : Option Resolver

/-- Why no engine was built. -/
inductive BuildError where
  | zeroFollowOn
  | definition (violations : List Violation)
  deriving DecidableEq

/-- The sentence that reports the reason. -/
def BuildError.message : BuildError → String
  | .zeroFollowOn => "max_follow_on must be at least 1. Call .max_follow_on(n) with n > 0"
  | .definition violations => "Machine library rejected: " ++ Violation.summary violations

namespace Blueprint

/-- The blueprint for which nothing is chosen. -/
def default : Blueprint :=
  ⟨Config.default, true, none, none⟩

/-- Build the engine, with the resolver installed and the library started. -/
def build (blueprint : Blueprint) : Except BuildError Engine :=
  if blueprint.config.maxFollowOn = 0 then .error .zeroFollowOn
  else
    match blueprint.library with
    | none =>
      let engine := Engine.create blueprint.config
      .ok (blueprint.resolver.elim engine engine.setResolver)
    | some library =>
      if blueprint.validate && !library.isValid then .error (.definition library.violations)
      else
        let engine := Engine.create blueprint.config
        .ok ((blueprint.resolver.elim engine engine.setResolver).restart library)

end Blueprint

end LayeredMachines
