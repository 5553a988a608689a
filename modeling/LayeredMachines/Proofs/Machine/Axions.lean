import LayeredMachines.Axion.Verb
import LayeredMachines.Machine
import LayeredMachines.Proofs.Text.Caseless

/-!
# The verbs that a machine uses

What a machine can do to the layers around it can be read off the axions of its states: their
parameters change with the variables of a layer, but their verbs do not.
-/

namespace LayeredMachines

/-- The axion with a text has a built-in verb: its name up to case, with or without blank characters
around it. -/
def Axion.hasVerb (builtin : Builtin) (text : String) : Bool :=
  caselessEq builtin.name (String.ofList (trim (Axion.split text).verb.toList))

namespace Machine

/-- The texts of the axions that the states of a machine carry for their entry and their leave. -/
def axions (machine : Machine) : List String :=
  machine.states.flatMap fun state => [state.entry, state.leave].filter (!·.isEmpty)

/-- No axion of the machine has the verb. -/
def Avoids (machine : Machine) (builtin : Builtin) : Prop :=
  ∀ text ∈ machine.axions, Axion.hasVerb builtin text = false

instance (machine : Machine) (builtin : Builtin) : Decidable (machine.Avoids builtin) :=
  inferInstanceAs (Decidable (∀ text ∈ machine.axions, _))

variable {machine : Machine} {state : State}

/-- What a state carries for its entry is one of the axions. -/
theorem entry_mem_axions (hstate : state ∈ machine.states) (hentry : state.entry.isEmpty = false) :
    state.entry ∈ machine.axions := by
  refine List.mem_flatMap.mpr ⟨state, hstate, List.mem_filter.mpr ⟨List.mem_cons_self, ?_⟩⟩
  rw [hentry, Bool.not_false]

/-- What a state carries for its leave is one of the axions. -/
theorem leave_mem_axions (hstate : state ∈ machine.states) (hleave : state.leave.isEmpty = false) :
    state.leave ∈ machine.axions := by
  refine List.mem_flatMap.mpr ⟨state, hstate, List.mem_filter.mpr ⟨?_, ?_⟩⟩
  · exact List.mem_cons_of_mem _ List.mem_cons_self
  · rw [hleave, Bool.not_false]

end Machine

namespace Builtin

/-- Every built-in verb is in the order of precedence. -/
theorem mem_all (builtin : Builtin) : builtin ∈ all := by
  cases builtin <;> decide

/-- No two built-in verbs have the same name, whatever the case. -/
private theorem eq_of_name : ∀ builtin ∈ all, ∀ other ∈ all,
    caselessEq builtin.name other.name = true → builtin = other := by
  decide +kernel

/-- A text stands for the built-in verb whose name it is, whichever comes first. -/
theorem ofText?_eq_some_iff {text : String} {builtin : Builtin} :
    ofText? text = some builtin ↔
      caselessEq builtin.name (String.ofList (trim text.toList)) = true := by
  simp only [ofText?]
  generalize String.ofList (trim text.toList) = name
  have hsome {other : Builtin}
      (hfound : all.find? (fun builtin => caselessEq builtin.name name) = some other) :
      caselessEq other.name name = true := by
    simpa using List.find?_some hfound
  refine ⟨hsome, fun hname => ?_⟩
  cases hfound : all.find? fun builtin => caselessEq builtin.name name with
  | none => exact absurd hname (List.find?_eq_none.mp hfound builtin builtin.mem_all)
  | some other =>
    have hother := hsome hfound
    have hsame : caselessEq other.name builtin.name = true := by
      rw [caselessEq_congr_right hname, hother]
    rw [eq_of_name other other.mem_all builtin builtin.mem_all hsame]

end Builtin

/-- An axion has a built-in verb if and only if its verb is read as that one. -/
theorem Axion.hasVerb_iff {builtin : Builtin} {text : String} :
    Axion.hasVerb builtin text = true ↔
      Builtin.ofText? (Axion.split text).verb = some builtin :=
  Builtin.ofText?_eq_some_iff.symm

end LayeredMachines
