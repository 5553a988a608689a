import LayeredMachines.Axion.Basic
import LayeredMachines.Diagnostic

/-!
# Resolvers

A resolver is the application's side of an engine: it is shown diagnostic lines and commands, and
answers verbs that the engine does not know. Its answers may depend on all that it was shown
before.
-/

namespace LayeredMachines

/-- What a resolver is shown. -/
inductive Notice where
  | line (line : Diagnostic)
  | execute (verb : String) (parameters : List Parameter)
  | command (command status : String)
  deriving DecidableEq

/-- How a resolver answers a verb after all the notices that it was shown before, the oldest
first. -/
structure Resolver where
  answer : Array Notice → String → List Parameter → String

/-- The resolver whose answers are all empty. -/
def Resolver.silent : Resolver :=
  ⟨fun _ _ _ => ""⟩

end LayeredMachines
