import LayeredMachines.Proofs.Library.Report

/-!
# The defects of a library

What is wrong with a library is said here of pairs of machines, of pairs of states, and of single
transitions, each at its place. The check of the library compares every item with those before it
only. It finds what is wrong, all of it, once each, and in the order of the document.
-/

namespace LayeredMachines

/-- The library is defective at a place, in the way that the violation tells. In a machine, its name
comes before its states; in a state, its label comes before its transitions. -/
inductive Library.HasDefect (library : Library) : List Nat → Violation → Prop
  | emptyMachineName {i : Nat} {machine : Machine}
      (hmachine : library.machines[i]? = some machine) (hname : machine.name = "") :
      HasDefect library [i, 0] (.emptyMachineName i)
  | duplicateMachine {i j : Nat} {machine earlier : Machine}
      (hmachine : library.machines[i]? = some machine) (hname : machine.name ≠ "")
      (hearlier : library.machines[j]? = some earlier) (hlt : j < i)
      (hsame : caselessEq earlier.name machine.name = true) :
      HasDefect library [i, 1] (.duplicateMachine machine.name)
  | noStates {i : Nat} {machine : Machine} (hmachine : library.machines[i]? = some machine)
      (hstates : machine.states = []) :
      HasDefect library [i, 2] (.noStates machine.name)
  | emptyStateLabel {i j : Nat} {machine : Machine} {state : State}
      (hmachine : library.machines[i]? = some machine) (hstate : machine.states[j]? = some state)
      (hlabel : state.label = "") :
      HasDefect library [i, 3, j, 0] (.emptyStateLabel machine.name j)
  | duplicateState {i j k : Nat} {machine : Machine} {state earlier : State}
      (hmachine : library.machines[i]? = some machine) (hstate : machine.states[j]? = some state)
      (hlabel : state.label ≠ "") (hearlier : machine.states[k]? = some earlier) (hlt : k < j)
      (hsame : caselessEq earlier.label state.label = true) :
      HasDefect library [i, 3, j, 1] (.duplicateState machine.name state.label)
  | unknownTarget {i j k : Nat} {machine : Machine} {state : State} {transition : Transition}
      (hmachine : library.machines[i]? = some machine) (hstate : machine.states[j]? = some state)
      (htransition : state.transitions[k]? = some transition) (htarget : transition.target ≠ "")
      (hunknown : ¬ machine.Knows transition.target) :
      HasDefect library [i, 3, j, 2, k]
        (.unknownTarget machine.name state.label transition.event transition.target)

/-! ### The check, place by place -/

/-- The findings in a state at a position of `machine`, after the states in `earlier`. -/
def State.report (state : State) (machine : Machine) (position : Nat) (earlier : List State) :
    Report :=
  .ofParts
    [.ofCheck (violationIf state.label.isEmpty (.emptyStateLabel machine.name position)),
      .ofCheck (violationIf (!state.label.isEmpty && earlier.any (·.isLabelled state.label))
        (.duplicateState machine.name state.label)),
      .ofItems state.transitions fun transition _ => .ofCheck (transition.violations machine state)]

/-- The findings in a machine at a position of its library, after the machines in `earlier`. -/
def Machine.report (machine : Machine) (position : Nat) (earlier : List Machine) : Report :=
  .ofParts
    [.ofCheck (violationIf machine.name.isEmpty (.emptyMachineName position)),
      .ofCheck (violationIf (!machine.name.isEmpty && earlier.any (·.isNamed machine.name))
        (.duplicateMachine machine.name)),
      .ofCheck (violationIf machine.states.isEmpty (.noStates machine.name)),
      .ofItems machine.states fun state position =>
        state.report machine position (machine.states.take position)]

/-- The findings in a library. -/
def Library.report (library : Library) : Report :=
  .ofItems library.machines fun machine position =>
    machine.report position (library.machines.take position)

/-! ### The violations -/

theorem mem_violationIf {condition : Bool} {violation found : Violation} :
    found ∈ violationIf condition violation ↔ condition = true ∧ found = violation := by
  cases condition <;> simp [violationIf]

theorem length_violationIf_le (condition : Bool) (violation : Violation) :
    (violationIf condition violation).length ≤ 1 := by
  cases condition <;> simp [violationIf]

theorem State.map_snd_report (state : State) (machine : Machine) (position : Nat)
    (earlier : List State) :
    (state.report machine position earlier).map Prod.snd =
      state.violations machine position earlier := by
  have htransitions (machine : Machine) (state : State) :
      (Report.ofItems state.transitions fun transition _ =>
        .ofCheck (transition.violations machine state)).map Prod.snd =
        state.transitions.flatMap fun transition => transition.violations machine state := by
    rw [Report.map_snd_ofItems]
    simp only [Report.map_snd_ofCheck]
    exact Report.flatMap_zipIdx state.transitions fun transition =>
      transition.violations machine state
  simp only [report, Report.map_snd_ofParts, List.flatMap_cons, List.flatMap_nil,
    Report.map_snd_ofCheck, htransitions, List.append_nil]
  rw [State.violations, List.append_assoc]

theorem Machine.map_snd_report (machine : Machine) (position : Nat) (earlier : List Machine) :
    (machine.report position earlier).map Prod.snd =
      violationIf machine.name.isEmpty (.emptyMachineName position) ++
        violationIf (!machine.name.isEmpty && earlier.any (·.isNamed machine.name))
          (.duplicateMachine machine.name) ++
        machine.violations := by
  simp only [report, Report.map_snd_ofParts, List.flatMap_cons, List.flatMap_nil,
    Report.map_snd_ofCheck, Report.map_snd_ofItems, State.map_snd_report, List.append_nil]
  rw [Machine.violations, List.append_assoc]

/-- Without their places the findings are the violations of the library. -/
theorem Library.map_snd_report (library : Library) :
    library.report.map Prod.snd = library.violations := by
  simp only [report, Report.map_snd_ofItems, Machine.map_snd_report]
  rfl

/-! ### The order -/

theorem State.isOrdered_report (state : State) (machine : Machine) (position : Nat)
    (earlier : List State) : (state.report machine position earlier).IsOrdered := by
  refine Report.isOrdered_ofParts ?_
  simp only [List.forall_mem_cons]
  refine ⟨?_, ?_, ?_, List.forall_mem_nil _⟩
  · exact Report.isOrdered_ofCheck (length_violationIf_le _ _)
  · exact Report.isOrdered_ofCheck (length_violationIf_le _ _)
  · exact Report.isOrdered_ofItems fun _ _ _ =>
      Report.isOrdered_ofCheck (length_violationIf_le _ _)

theorem Machine.isOrdered_report (machine : Machine) (position : Nat) (earlier : List Machine) :
    (machine.report position earlier).IsOrdered := by
  refine Report.isOrdered_ofParts ?_
  simp only [List.forall_mem_cons]
  refine ⟨?_, ?_, ?_, ?_, List.forall_mem_nil _⟩
  · exact Report.isOrdered_ofCheck (length_violationIf_le _ _)
  · exact Report.isOrdered_ofCheck (length_violationIf_le _ _)
  · exact Report.isOrdered_ofCheck (length_violationIf_le _ _)
  · exact Report.isOrdered_ofItems fun position state _ => state.isOrdered_report _ position _

/-- The findings in a library follow each other in the order of the document. -/
theorem Library.isOrdered_report (library : Library) : library.report.IsOrdered :=
  Report.isOrdered_ofItems fun position machine _ => machine.isOrdered_report position _

/-! ### The findings are the defects -/

/-- Some item before a position passes a test. -/
private theorem any_take_iff {α : Type} {items : List α} {position : Nat} {test : α → Bool} :
    (items.take position).any test = true ↔
      ∃ i item, items[i]? = some item ∧ i < position ∧ test item = true := by
  simp only [List.any_eq_true, List.mem_iff_getElem?, List.getElem?_take]
  constructor
  · rintro ⟨item, ⟨i, hitem⟩, htest⟩
    split at hitem
    · next hlt => exact ⟨i, item, hitem, hlt, htest⟩
    · simp at hitem
  · rintro ⟨i, item, hitem, hlt, htest⟩
    exact ⟨item, ⟨i, by rw [if_pos hlt, hitem]⟩, htest⟩

/-- A transition is reported if it has a target that the machine does not know. -/
theorem Transition.mem_violations {transition : Transition} {machine : Machine} {state : State}
    {violation : Violation} :
    violation ∈ transition.violations machine state ↔
      transition.target ≠ "" ∧ ¬ machine.Knows transition.target ∧
        violation =
          .unknownTarget machine.name state.label transition.event transition.target := by
  rw [violations, mem_violationIf, Bool.and_eq_true, and_assoc]
  refine and_congr (by simp) (and_congr_left fun _ => ?_)
  simp [Machine.Knows]

variable {library : Library} {place : List Nat} {violation : Violation}

/-- What is found in a state is a defect of the library. -/
private theorem hasDefect_of_mem_report_state {i j : Nat} {machine : Machine} {state : State}
    (hmachine : library.machines[i]? = some machine) (hstate : machine.states[j]? = some state)
    (hfound : (place, violation) ∈ state.report machine j (machine.states.take j)) :
    library.HasDefect (i :: 3 :: j :: place) violation := by
  obtain ⟨n, part, rest, hpart, rfl, hcheck⟩ := Report.mem_ofParts.mp hfound
  match n with
  | 0 =>
    obtain rfl := Option.some.inj hpart
    obtain ⟨rfl, hviolation⟩ := Report.mem_ofCheck.mp hcheck
    obtain ⟨hlabel, rfl⟩ := mem_violationIf.mp hviolation
    exact .emptyStateLabel hmachine hstate (by simpa using hlabel)
  | 1 =>
    obtain rfl := Option.some.inj hpart
    obtain ⟨rfl, hviolation⟩ := Report.mem_ofCheck.mp hcheck
    obtain ⟨hrepeats, rfl⟩ := mem_violationIf.mp hviolation
    obtain ⟨hlabel, hany⟩ := Bool.and_eq_true_iff.mp hrepeats
    obtain ⟨k, earlier, hearlier, hlt, hsame⟩ := any_take_iff.mp hany
    exact .duplicateState hmachine hstate (by simpa using hlabel) hearlier hlt hsame
  | 2 =>
    obtain rfl := Option.some.inj hpart
    obtain ⟨k, transition, last, htransition, rfl, hitem⟩ := Report.mem_ofItems.mp hcheck
    obtain ⟨rfl, hviolation⟩ := Report.mem_ofCheck.mp hitem
    obtain ⟨htarget, hunknown, rfl⟩ := Transition.mem_violations.mp hviolation
    exact .unknownTarget hmachine hstate htransition htarget hunknown
  | n + 3 => simp at hpart

/-- What is found in a library is a defect of it. -/
theorem Library.hasDefect_of_mem_report (hfound : (place, violation) ∈ library.report) :
    library.HasDefect place violation := by
  obtain ⟨i, machine, inside, hmachine, rfl, hitem⟩ := Report.mem_ofItems.mp hfound
  obtain ⟨n, part, rest, hpart, rfl, hcheck⟩ := Report.mem_ofParts.mp hitem
  match n with
  | 0 =>
    obtain rfl := Option.some.inj hpart
    obtain ⟨rfl, hviolation⟩ := Report.mem_ofCheck.mp hcheck
    obtain ⟨hname, rfl⟩ := mem_violationIf.mp hviolation
    exact .emptyMachineName hmachine (by simpa using hname)
  | 1 =>
    obtain rfl := Option.some.inj hpart
    obtain ⟨rfl, hviolation⟩ := Report.mem_ofCheck.mp hcheck
    obtain ⟨hrepeats, rfl⟩ := mem_violationIf.mp hviolation
    obtain ⟨hname, hany⟩ := Bool.and_eq_true_iff.mp hrepeats
    obtain ⟨j, earlier, hearlier, hlt, hsame⟩ := any_take_iff.mp hany
    exact .duplicateMachine hmachine (by simpa using hname) hearlier hlt hsame
  | 2 =>
    obtain rfl := Option.some.inj hpart
    obtain ⟨rfl, hviolation⟩ := Report.mem_ofCheck.mp hcheck
    obtain ⟨hstates, rfl⟩ := mem_violationIf.mp hviolation
    exact .noStates hmachine (List.isEmpty_iff.mp hstates)
  | 3 =>
    obtain rfl := Option.some.inj hpart
    obtain ⟨j, state, last, hstate, rfl, hinside⟩ := Report.mem_ofItems.mp hcheck
    exact hasDefect_of_mem_report_state hmachine hstate hinside
  | n + 4 => simp at hpart

/-- The defects of a library are found in it. -/
theorem Library.HasDefect.mem_report (hdefect : library.HasDefect place violation) :
    (place, violation) ∈ library.report := by
  -- A finding of a machine is one of the library, and one of a state is one of the machine.
  have hmember {i n : Nat} {machine : Machine} {rest : List Nat}
      (hmachine : library.machines[i]? = some machine) (hfound : (n :: rest, violation) ∈
        machine.report i (library.machines.take i)) : (i :: n :: rest, violation) ∈ library.report :=
    Report.mem_ofItems.mpr ⟨i, machine, _, hmachine, rfl, hfound⟩
  have hstate {i j n : Nat} {machine : Machine} {state : State} {rest : List Nat}
      (hmachine : library.machines[i]? = some machine) (hstate : machine.states[j]? = some state)
      (hfound : (n :: rest, violation) ∈ state.report machine j (machine.states.take j)) :
      (i :: 3 :: j :: n :: rest, violation) ∈ library.report := by
    refine hmember hmachine (Report.mem_ofParts.mpr ⟨3, _, _, rfl, rfl, ?_⟩)
    exact Report.mem_ofItems.mpr ⟨j, state, _, hstate, rfl, hfound⟩
  cases hdefect with
  | emptyMachineName hmachine hname =>
    refine hmember hmachine (Report.mem_ofParts.mpr ⟨0, _, _, rfl, rfl, ?_⟩)
    exact Report.mem_ofCheck.mpr ⟨rfl, mem_violationIf.mpr ⟨by simp [hname], rfl⟩⟩
  | duplicateMachine hmachine hname hearlier hlt hsame =>
    refine hmember hmachine (Report.mem_ofParts.mpr ⟨1, _, _, rfl, rfl, ?_⟩)
    refine Report.mem_ofCheck.mpr ⟨rfl, mem_violationIf.mpr ⟨?_, rfl⟩⟩
    refine Bool.and_eq_true_iff.mpr ⟨by simp [hname], ?_⟩
    exact any_take_iff.mpr ⟨_, _, hearlier, hlt, hsame⟩
  | noStates hmachine hstates =>
    refine hmember hmachine (Report.mem_ofParts.mpr ⟨2, _, _, rfl, rfl, ?_⟩)
    exact Report.mem_ofCheck.mpr ⟨rfl, mem_violationIf.mpr ⟨by simp [hstates], rfl⟩⟩
  | emptyStateLabel hmachine hat hlabel =>
    refine hstate hmachine hat (Report.mem_ofParts.mpr ⟨0, _, _, rfl, rfl, ?_⟩)
    exact Report.mem_ofCheck.mpr ⟨rfl, mem_violationIf.mpr ⟨by simp [hlabel], rfl⟩⟩
  | duplicateState hmachine hat hlabel hearlier hlt hsame =>
    refine hstate hmachine hat (Report.mem_ofParts.mpr ⟨1, _, _, rfl, rfl, ?_⟩)
    refine Report.mem_ofCheck.mpr ⟨rfl, mem_violationIf.mpr ⟨?_, rfl⟩⟩
    refine Bool.and_eq_true_iff.mpr ⟨by simp [hlabel], ?_⟩
    exact any_take_iff.mpr ⟨_, _, hearlier, hlt, hsame⟩
  | unknownTarget hmachine hat htransition htarget hunknown =>
    refine hstate hmachine hat (Report.mem_ofParts.mpr ⟨2, _, _, rfl, rfl, ?_⟩)
    refine Report.mem_ofItems.mpr ⟨_, _, [], htransition, rfl, ?_⟩
    exact Report.mem_ofCheck.mpr
      ⟨rfl, Transition.mem_violations.mpr ⟨htarget, hunknown, rfl⟩⟩

end LayeredMachines
