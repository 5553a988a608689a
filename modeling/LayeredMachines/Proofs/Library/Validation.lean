import LayeredMachines.Proofs.Library.Defects
import LayeredMachines.Proofs.Text.Classes

/-!
# Validation of libraries

A library is valid if and only if its names and labels are given and distinct, its machines have
states, and its transitions lead to states. Otherwise each of its defects is reported once. For a
class of equal names, or of equal labels in a machine, there is one report less than there are names
or labels in it.
-/

namespace LayeredMachines

/-- What a library has to be, said of all pairs of its machines and of the states in each. -/
structure Library.IsProper (library : Library) : Prop where
  name_ne : ∀ machine ∈ library.machines, machine.name ≠ ""
  names_distinct : library.machines.Pairwise fun machine other =>
    caselessEq machine.name other.name = false
  states_ne : ∀ machine ∈ library.machines, machine.states ≠ []
  label_ne : ∀ machine ∈ library.machines, ∀ state ∈ machine.states, state.label ≠ ""
  labels_distinct : ∀ machine ∈ library.machines, machine.states.Pairwise fun state other =>
    caselessEq state.label other.label = false
  target_known : ∀ machine ∈ library.machines, ∀ state ∈ machine.states,
    ∀ transition ∈ state.transitions, transition.target ≠ "" →
      ∃ aim ∈ machine.states, caselessEq aim.label transition.target = true

/-- The names of the machines, as far as they are given. -/
def Library.names (library : Library) : List String :=
  givenNames (library.machines.map Machine.name)

/-- The labels of the states, as far as they are given. -/
def Machine.labels (machine : Machine) : List String :=
  givenNames (machine.states.map State.label)

namespace Violation

/-- The name of a machine is one that an earlier machine has. -/
def isDuplicateMachine : Violation → Bool
  | .duplicateMachine _ => true
  | _ => false

/-- The label of a state is one that an earlier state of its machine has. -/
def isDuplicateState : Violation → Bool
  | .duplicateState .. => true
  | _ => false

end Violation

/-! ### Valid libraries -/

/-- Items of which no later one is like an earlier one are pairwise unlike. -/
private theorem pairwise_of_forall_lt {α : Type} {items : List α} {unlike : α → α → Prop}
    (hunlike : ∀ (i j : Nat) (first next : α), i < j → items[i]? = some first →
      items[j]? = some next → unlike first next) : items.Pairwise unlike :=
  List.pairwise_iff_getElem.mpr fun i j hi hj hlt =>
    hunlike i j _ _ hlt (List.getElem?_eq_getElem hi) (List.getElem?_eq_getElem hj)

/-- An earlier one of pairwise unlike items is unlike a later one. -/
private theorem unlike_of_pairwise {α : Type} {items : List α} {unlike : α → α → Prop}
    (hitems : items.Pairwise unlike) {i j : Nat} {first next : α} (hlt : i < j)
    (hfirst : items[i]? = some first) (hnext : items[j]? = some next) : unlike first next := by
  obtain ⟨hi, rfl⟩ := List.getElem?_eq_some_iff.mp hfirst
  obtain ⟨hj, rfl⟩ := List.getElem?_eq_some_iff.mp hnext
  exact List.pairwise_iff_getElem.mp hitems i j hi hj hlt

/-- A proper library has no defects. -/
theorem Library.IsProper.not_hasDefect {library : Library} (hproper : library.IsProper)
    {place : List Nat} {violation : Violation} : ¬ library.HasDefect place violation := by
  intro hdefect
  cases hdefect with
  | emptyMachineName hmachine hname =>
    exact hproper.name_ne _ (List.mem_of_getElem? hmachine) hname
  | duplicateMachine hmachine _ hearlier hlt hsame =>
    have hdistinct := unlike_of_pairwise hproper.names_distinct hlt hearlier hmachine
    exact Bool.false_ne_true (hdistinct.symm.trans hsame)
  | noStates hmachine hstates =>
    exact hproper.states_ne _ (List.mem_of_getElem? hmachine) hstates
  | emptyStateLabel hmachine hstate hlabel =>
    exact hproper.label_ne _ (List.mem_of_getElem? hmachine) _ (List.mem_of_getElem? hstate) hlabel
  | duplicateState hmachine hstate _ hearlier hlt hsame =>
    have hlabels := hproper.labels_distinct _ (List.mem_of_getElem? hmachine)
    have hdistinct := unlike_of_pairwise hlabels hlt hearlier hstate
    exact Bool.false_ne_true (hdistinct.symm.trans hsame)
  | unknownTarget hmachine hstate htransition htarget hunknown =>
    exact hunknown (hproper.target_known _ (List.mem_of_getElem? hmachine) _
      (List.mem_of_getElem? hstate) _ (List.mem_of_getElem? htransition) htarget)

/-- A library without defects is proper. -/
theorem Library.isProper_of_not_hasDefect {library : Library}
    (hnone : ∀ place violation, ¬ library.HasDefect place violation) : library.IsProper := by
  have hname : ∀ machine ∈ library.machines, machine.name ≠ "" := by
    intro machine hmem hempty
    obtain ⟨i, hmachine⟩ := List.mem_iff_getElem?.mp hmem
    exact hnone _ _ (.emptyMachineName hmachine hempty)
  have hlabel : ∀ machine ∈ library.machines, ∀ state ∈ machine.states, state.label ≠ "" := by
    intro machine hmem state hstate hempty
    obtain ⟨i, hmachine⟩ := List.mem_iff_getElem?.mp hmem
    obtain ⟨j, hat⟩ := List.mem_iff_getElem?.mp hstate
    exact hnone _ _ (.emptyStateLabel hmachine hat hempty)
  refine ⟨hname, ?_, ?_, hlabel, ?_, ?_⟩
  · refine pairwise_of_forall_lt fun i j first next hlt hfirst hnext => ?_
    by_contra hsame
    have hgiven := hname next (List.mem_of_getElem? hnext)
    exact hnone _ _ (.duplicateMachine hnext hgiven hfirst hlt (by simpa using hsame))
  · intro machine hmem hempty
    obtain ⟨i, hmachine⟩ := List.mem_iff_getElem?.mp hmem
    exact hnone _ _ (.noStates hmachine hempty)
  · intro machine hmem
    obtain ⟨i, hmachine⟩ := List.mem_iff_getElem?.mp hmem
    refine pairwise_of_forall_lt fun k j first next hlt hfirst hnext => ?_
    by_contra hsame
    have hgiven := hlabel machine hmem next (List.mem_of_getElem? hnext)
    exact hnone _ _ (.duplicateState hmachine hnext hgiven hfirst hlt (by simpa using hsame))
  · intro machine hmem state hstate transition htransition htarget
    by_contra hunknown
    obtain ⟨i, hmachine⟩ := List.mem_iff_getElem?.mp hmem
    obtain ⟨j, hat⟩ := List.mem_iff_getElem?.mp hstate
    obtain ⟨k, hedge⟩ := List.mem_iff_getElem?.mp htransition
    exact hnone _ _ (.unknownTarget hmachine hat hedge htarget hunknown)

/-- The check of a library succeeds exactly if the library is proper. -/
theorem Library.isValid_iff_isProper (library : Library) :
    library.isValid = true ↔ library.IsProper := by
  rw [isValid, List.isEmpty_iff, ← library.map_snd_report, List.map_eq_nil_iff,
    List.eq_nil_iff_forall_not_mem]
  constructor
  · exact fun hnone => isProper_of_not_hasDefect fun _ _ hdefect => hnone _ hdefect.mem_report
  · exact fun hproper _ hfound => hproper.not_hasDefect (hasDefect_of_mem_report hfound)

/-! ### The number of duplicates -/

theorem countP_violationIf (counts : Violation → Bool) (condition : Bool) (violation : Violation) :
    (violationIf condition violation).countP counts =
      if condition && counts violation then 1 else 0 := by
  cases condition <;> simp [violationIf, List.countP_cons]

/-- If every item gives rise to one violation of a kind or to none, there are as many of them as
there are items that do. -/
private theorem countP_flatMap_eq {α : Type} {items : List α} {found : α → List Violation}
    {counts : Violation → Bool} {test : α → Bool}
    (hfound : ∀ item ∈ items, (found item).countP counts = if test item then 1 else 0) :
    (items.flatMap found).countP counts = items.countP test := by
  induction items with
  | nil => rfl
  | cons item items ih =>
    obtain ⟨hitem, hitems⟩ := List.forall_mem_cons.mp hfound
    rw [List.flatMap_cons, List.countP_append, hitem, ih hitems, List.countP_cons, Nat.add_comm]

/-- No kind of violation but one is found in transitions. -/
private theorem countP_transitions {counts : Violation → Bool}
    (hcounts : ∀ machine state event target,
      counts (.unknownTarget machine state event target) = false)
    (machine : Machine) (state : State) :
    (state.transitions.flatMap fun t => t.violations machine state).countP counts = 0 := by
  rw [List.countP_eq_zero]
  intro violation hviolation
  obtain ⟨transition, _, hmem⟩ := List.mem_flatMap.mp hviolation
  obtain ⟨_, _, rfl⟩ := Transition.mem_violations.mp hmem
  rw [hcounts]
  exact Bool.false_ne_true

/-- Nothing that is found in the states of a machine concerns the names of machines. -/
theorem Machine.countP_isDuplicateMachine (machine : Machine) :
    machine.violations.countP Violation.isDuplicateMachine = 0 := by
  have hstate (state : State) (position : Nat) (earlier : List State) :
      (state.violations machine position earlier).countP Violation.isDuplicateMachine = 0 := by
    rw [State.violations, List.countP_append, List.countP_append, countP_violationIf,
      countP_violationIf, countP_transitions fun _ _ _ _ => rfl]
    simp [Violation.isDuplicateMachine]
  rw [violations, List.countP_append, countP_violationIf, List.countP_flatMap]
  simp [Function.comp_def, hstate, Violation.isDuplicateMachine]

/-- One duplicate is found for each label that is not the first of its class. -/
theorem Machine.countP_isDuplicateState (machine : Machine) :
    machine.violations.countP Violation.isDuplicateState + classCount machine.labels =
      machine.labels.length := by
  have hstate (state : State) (position : Nat) :
      (state.violations machine position (machine.states.take position)).countP
          Violation.isDuplicateState =
        if isRepeat (machine.states.map State.label) (state.label, position) then 1 else 0 := by
    rw [State.violations, List.countP_append, List.countP_append, countP_violationIf,
      countP_violationIf, countP_transitions fun _ _ _ _ => rfl]
    simp [Violation.isDuplicateState, isRepeat, ← List.map_take, List.any_map, State.isLabelled,
      Function.comp_def]
  have hstates : machine.violations.countP Violation.isDuplicateState =
      (machine.states.map State.label).zipIdx.countP
        (isRepeat (machine.states.map State.label)) := by
    have hnone : (violationIf machine.states.isEmpty (.noStates machine.name)).countP
        Violation.isDuplicateState = 0 := by
      simp [countP_violationIf, Violation.isDuplicateState]
    rw [violations, List.countP_append, hnone, Nat.zero_add,
      countP_flatMap_eq fun entry _ => hstate entry.1 entry.2, List.zipIdx_map, List.countP_map]
    rfl
  rw [hstates]
  exact countP_isRepeat _

/-- One duplicate is found for each name that is not the first of its class. -/
theorem Library.countP_isDuplicateMachine (library : Library) :
    library.violations.countP Violation.isDuplicateMachine + classCount library.names =
      library.names.length := by
  have hmachine (machine : Machine) (position : Nat) :
      (violationIf machine.name.isEmpty (.emptyMachineName position) ++
        violationIf (!machine.name.isEmpty &&
          (library.machines.take position).any (·.isNamed machine.name))
          (.duplicateMachine machine.name) ++
        machine.violations).countP Violation.isDuplicateMachine =
        if isRepeat (library.machines.map Machine.name) (machine.name, position) then 1 else 0 := by
    rw [List.countP_append, List.countP_append, countP_violationIf, countP_violationIf,
      machine.countP_isDuplicateMachine]
    simp [Violation.isDuplicateMachine, isRepeat, ← List.map_take, List.any_map, Machine.isNamed,
      Function.comp_def]
  have hmachines : library.violations.countP Violation.isDuplicateMachine =
      (library.machines.map Machine.name).zipIdx.countP
        (isRepeat (library.machines.map Machine.name)) := by
    rw [violations, countP_flatMap_eq fun entry _ => hmachine entry.1 entry.2, List.zipIdx_map,
      List.countP_map]
    rfl
  rw [hmachines]
  exact countP_isRepeat _

/-- Among the findings in a machine those about equal labels are found in its states. -/
theorem Library.countP_report_isDuplicateState {library : Library} {i : Nat} {machine : Machine}
    (hmachine : library.machines[i]? = some machine) :
    library.report.countP
        (fun finding => finding.1.head? == some i && finding.2.isDuplicateState) =
      machine.violations.countP Violation.isDuplicateState := by
  rw [report, Report.countP_ofItems hmachine, Machine.map_snd_report, List.countP_append,
    List.countP_append, countP_violationIf, countP_violationIf]
  simp [Violation.isDuplicateState]

/-! ### The theorem -/

/-- A library passes the check exactly if it is proper. Whatever is wrong with it, its violations can
be put at places of the document such that they follow the order of the document, no two are at the
same place, and those at a place are exactly the defects there. In every machine there are as many
reports of duplicate labels as there are labels less the classes that they fall into, and likewise
for the names of machines. -/
theorem Library.violations_are_defects (library : Library) :
    (library.isValid = true ↔ library.IsProper) ∧
    ∃ report : Report,
      report.map Prod.snd = library.violations ∧
      report.Pairwise Finding.Before ∧
      (∀ place violation,
        (place, violation) ∈ report ↔ library.HasDefect place violation) ∧
      (∀ i machine, library.machines[i]? = some machine →
        report.countP (fun finding => finding.1.head? == some i && finding.2.isDuplicateState) =
          machine.labels.length - classCount machine.labels) ∧
      report.countP (fun finding => finding.2.isDuplicateMachine) =
        library.names.length - classCount library.names := by
  refine ⟨library.isValid_iff_isProper, library.report, library.map_snd_report,
    library.isOrdered_report, ?_, ?_, ?_⟩
  · exact fun place violation => ⟨hasDefect_of_mem_report, HasDefect.mem_report⟩
  · intro i machine hmachine
    have hlabels := machine.countP_isDuplicateState
    rw [countP_report_isDuplicateState hmachine]
    omega
  · have hnames := library.countP_isDuplicateMachine
    rw [← library.map_snd_report, List.countP_map] at hnames
    exact Nat.eq_sub_of_add_eq hnames

/-- No violation masks another one. -/
example : Library.violations
    ⟨[⟨"default", [(State.named "start").on "go" "missing", .named "START", .named ""]⟩,
      ⟨"Default", []⟩, ⟨"", [.named "start"]⟩]⟩ =
    [.unknownTarget "default" "start" "go" "missing", .duplicateState "default" "START",
      .emptyStateLabel "default" 2, .duplicateMachine "Default", .noStates "Default",
      .emptyMachineName 2] := by
  decide +kernel

end LayeredMachines
