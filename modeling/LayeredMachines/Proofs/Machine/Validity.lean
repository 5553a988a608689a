import LayeredMachines.Proofs.Text.Caseless
import LayeredMachines.Violation

/-!
# Machines of valid libraries

The checks of a library look at each machine by itself. This file says what they mean for the walks
of a layer: whatever a transition leads to is found, and it is found at the same position from
wherever the search begins.
-/

namespace LayeredMachines

namespace Machine

variable {machine : Machine} {i j : Nat} {label : String}

/-- Some state of the machine has the label. -/
def Knows (machine : Machine) (label : String) : Prop :=
  ∃ state ∈ machine.states, state.isLabelled label = true

/-- A machine that layers can walk in: it has a state to start in, no label stands for two of its
states, and every transition that has a target leads to one of them. -/
structure IsSound (machine : Machine) : Prop where
  states_ne_nil : machine.states ≠ []
  position_unique : ∀ {label : String} {i j : Nat} {a b : State}, machine.states[i]? = some a →
    machine.states[j]? = some b → a.isLabelled label = true → b.isLabelled label = true → i = j
  knows_target : ∀ state ∈ machine.states, ∀ transition ∈ state.transitions,
    transition.target ≠ "" → machine.Knows transition.target

/-! ### The checks -/

@[simp] theorem violationIf_eq_nil {condition : Bool} {violation : Violation} :
    violationIf condition violation = [] ↔ condition = false := by
  cases condition <;> simp [violationIf]

/-- The states of a machine without defects have labels, which no earlier state has, and their
transitions lead to states of the machine. -/
theorem state_of_violations_eq_nil (hnone : machine.violations = []) {state : State}
    {position : Nat} (hstate : machine.states[position]? = some state) :
    state.label ≠ "" ∧
      (∀ earlier ∈ machine.states.take position, earlier.isLabelled state.label = false) ∧
      ∀ transition ∈ state.transitions, transition.target ≠ "" →
        machine.Knows transition.target := by
  have hchecks : state.violations machine position (machine.states.take position) = [] := by
    have hstates := (List.append_eq_nil_iff.mp hnone).2
    exact List.flatMap_eq_nil_iff.mp hstates (state, position)
      (List.mem_zipIdx_iff_getElem?.mpr hstate)
  simp only [State.violations, List.append_eq_nil_iff, violationIf_eq_nil,
    List.flatMap_eq_nil_iff] at hchecks
  obtain ⟨⟨hempty, hduplicate⟩, htargets⟩ := hchecks
  refine ⟨by simpa using hempty, fun earlier hearlier => ?_, fun transition hmem htarget => ?_⟩
  · simp only [hempty, Bool.not_false, Bool.true_and, List.any_eq_false] at hduplicate
    exact Bool.eq_false_iff.mpr (hduplicate earlier hearlier)
  · have hknown := htargets transition hmem
    simpa [Transition.violations, htarget, Knows] using hknown

/-- A machine without defects is sound. -/
theorem isSound_of_violations_eq_nil (hnone : machine.violations = []) : machine.IsSound where
  states_ne_nil := by
    have hstates := (List.append_eq_nil_iff.mp hnone).1
    simpa using hstates
  position_unique := by
    intro label i j a b ha hb hlabelA hlabelB
    -- The later one of two states with the same label would have been reported.
    have hnot {i j : Nat} {a b : State} (ha : machine.states[i]? = some a)
        (hb : machine.states[j]? = some b) (hlabelA : a.isLabelled label = true)
        (hlabelB : b.isLabelled label = true) : ¬ i < j := by
      intro hlt
      have hearlier : a ∈ machine.states.take j :=
        List.mem_of_getElem? ((List.getElem?_take_of_lt hlt).trans ha)
      have hdistinct := (state_of_violations_eq_nil hnone hb).2.1 a hearlier
      have hsame : caselessEq a.label b.label = true := by
        rw [caselessEq_congr_left hlabelA, caselessEq_comm]
        exact hlabelB
      exact absurd hsame (Bool.eq_false_iff.mp hdistinct)
    have hle := hnot ha hb hlabelA hlabelB
    have hge := hnot hb ha hlabelB hlabelA
    omega
  knows_target := by
    intro state hstate
    obtain ⟨position, hposition⟩ := List.mem_iff_getElem?.mp hstate
    exact (state_of_violations_eq_nil hnone hposition).2.2

/-! ### Searching for a label -/

/-- The first entry with a property is the same in two lists with the same entries, if no other entry
has the property. -/
private theorem find?_eq_of_unique {α : Type} {p : α → Bool} {l r : List α}
    (hmem : ∀ a, a ∈ l ↔ a ∈ r) (hunique : ∀ a ∈ l, ∀ b ∈ l, p a = true → p b = true → a = b) :
    l.find? p = r.find? p := by
  cases hleft : l.find? p with
  | none =>
    refine (List.find?_eq_none.mpr fun a ha => ?_).symm
    exact List.find?_eq_none.mp hleft a ((hmem a).mpr ha)
  | some a =>
    have ha := List.mem_of_find?_eq_some hleft
    have hpa : p a = true := List.find?_some hleft
    cases hright : r.find? p with
    | none => exact absurd hpa (List.find?_eq_none.mp hright a ((hmem a).mp ha))
    | some b =>
      have hb := (hmem b).mpr (List.mem_of_find?_eq_some hright)
      exact congrArg some (hunique a ha b hb hpa (List.find?_some hright))

/-- In a sound machine a label is found at the same position wherever the search begins. -/
theorem IsSound.search?_eq (hsound : machine.IsSound) (hi : i < machine.states.length)
    (hj : j < machine.states.length) (label : String) :
    machine.search? i label = machine.search? j label := by
  refine find?_eq_of_unique (fun entry => (mem_around hi).trans (mem_around hj).symm) ?_
  rintro ⟨a, positionA⟩ ha ⟨b, positionB⟩ hb hlabelA hlabelB
  have hstateA := List.mem_zipIdx_iff_getElem?.mp ((mem_around hi).mp ha)
  have hstateB := List.mem_zipIdx_iff_getElem?.mp ((mem_around hi).mp hb)
  obtain rfl : positionA = positionB :=
    hsound.position_unique hstateA hstateB hlabelA hlabelB
  obtain rfl : a = b := Option.some.inj (hstateA.symm.trans hstateB)
  rfl

/-- A label that the machine knows is found. -/
theorem exists_search?_of_knows (hi : i < machine.states.length) (hknows : machine.Knows label) :
    ∃ state position, machine.search? i label = some (state, position) := by
  obtain ⟨state, hstate, hlabel⟩ := hknows
  obtain ⟨position, hposition⟩ := List.mem_iff_getElem?.mp hstate
  have hentry : (state, position) ∈ machine.around i :=
    (mem_around hi).mpr (List.mem_zipIdx_iff_getElem?.mpr hposition)
  have hfound : (machine.search? i label).isSome = true :=
    List.find?_isSome.mpr ⟨(state, position), hentry, hlabel⟩
  obtain ⟨⟨found, place⟩, hsearch⟩ := Option.isSome_iff_exists.mp hfound
  exact ⟨found, place, hsearch⟩

end Machine

/-- What a state selects on an event is the target of one of its transitions, which has the event or
is a wildcard. The empty event is no transition's. -/
theorem State.transition_of_next? {state : State} {event target : String}
    (hnext : state.next? event = some target) :
    target ≠ "" ∧ ∃ transition ∈ state.transitions, transition.target = target ∧
      (transition.isWildcard = true ∨ event ≠ "" ∧ caselessEq transition.event event = true) := by
  unfold next? at hnext
  split at hnext
  · next transition hselected =>
    split at hnext
    · simp at hnext
    · next htarget =>
      obtain rfl := Option.some.inj hnext
      refine ⟨by simpa using htarget, transition, ?_⟩
      rcases Option.or_eq_some_iff.mp hselected with hexact | ⟨_, hwildcard⟩
      · unfold matching? at hexact
        split at hexact
        · simp at hexact
        · next hevent =>
          have hmatches := List.find?_some hexact
          rw [Bool.and_eq_true] at hmatches
          have hne : event ≠ "" := by simpa using hevent
          exact ⟨List.mem_of_find?_eq_some hexact, rfl, .inr ⟨hne, hmatches.2⟩⟩
      · exact ⟨List.mem_of_find?_eq_some hwildcard, rfl, .inl (List.find?_some hwildcard)⟩
  · simp at hnext

/-- What a state selects on an event is the target of one of its transitions. -/
theorem State.target_of_next? {state : State} {event target : String}
    (hnext : state.next? event = some target) :
    target ≠ "" ∧ ∃ transition ∈ state.transitions, transition.target = target := by
  obtain ⟨hne, transition, hmem, htarget, _⟩ := transition_of_next? hnext
  exact ⟨hne, transition, hmem, htarget⟩

/-- What a state of a sound machine selects on an event is known to the machine. -/
theorem Machine.IsSound.knows_of_next? {machine : Machine} (hsound : machine.IsSound)
    {state : State} (hstate : state ∈ machine.states) {event target : String}
    (hnext : state.next? event = some target) : machine.Knows target := by
  obtain ⟨htarget, transition, hmem, rfl⟩ := State.target_of_next? hnext
  exact hsound.knows_target state hstate transition hmem htarget

/-- The machines of a valid library are sound. -/
theorem Library.isSound_of_isValid {library : Library} (hvalid : library.isValid = true)
    {machine : Machine} (hmachine : machine ∈ library.machines) : machine.IsSound := by
  obtain ⟨position, hposition⟩ := List.mem_iff_getElem?.mp hmachine
  have hnone : library.violations = [] := List.isEmpty_iff.mp hvalid
  have hchecks := List.flatMap_eq_nil_iff.mp hnone (machine, position)
    (List.mem_zipIdx_iff_getElem?.mpr hposition)
  exact Machine.isSound_of_violations_eq_nil (List.append_eq_nil_iff.mp hchecks).2

end LayeredMachines
