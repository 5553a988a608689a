import LayeredMachines.Proofs.History.Retention
import LayeredMachines.Proofs.Layer.Lookups

/-!
# The path of a layer

A layer that follows events goes along the edges of its machine. This file lists the steps that its
walks make, from the searches of the walks and not from the history, and shows that the history is
the record of the latest of them. However its walks end, what a layer remembers is a path that leads
to the state it rests in.
-/

namespace LayeredMachines

/-- A step of a walk: the positions that it leads from and to, for an event at a time. -/
structure Step where
  source : Nat
  target : Nat
  event : String
  time : Instant

namespace Machine

variable {machine : Machine} {start last : Nat} {steps : List Step}

/-- The label of the state at a position, which is empty if there is none. -/
def labelAt (machine : Machine) (position : Nat) : String :=
  (machine.states[position]?.map State.label).getD ""

/-- The record of a step, in which labels stand for positions. -/
def moveOf (machine : Machine) (step : Step) : Move :=
  ⟨machine.labelAt step.source, machine.labelAt step.target, step.event, step.time⟩

/-- The state at one position has a transition to the label of the state at another one. -/
def HasEdge (machine : Machine) (source target : Nat) : Prop :=
  ∃ left entered, machine.states[source]? = some left ∧ machine.states[target]? = some entered ∧
    ∃ transition ∈ left.transitions, caselessEq transition.target entered.label = true

/-- Steps along edges lead one after another from a position to another one. -/
inductive Path (machine : Machine) : Nat → List Step → Nat → Prop
  | nil (position : Nat) : Path machine position [] position
  | cons {start last : Nat} {step : Step} {rest : List Step} (hstart : step.source = start)
      (hedge : machine.HasEdge step.source step.target)
      (hrest : Path machine step.target rest last) : Path machine start (step :: rest) last

theorem Path.append {middle : Nat} {more : List Step} (hsteps : machine.Path start steps middle)
    (hmore : machine.Path middle more last) : machine.Path start (steps ++ more) last := by
  induction hsteps with
  | nil => exact hmore
  | cons hstart hedge _ ih => exact .cons hstart hedge (ih hmore)

/-- All steps of a path are along edges. -/
theorem Path.hasEdge (hpath : machine.Path start steps last) :
    ∀ step ∈ steps, machine.HasEdge step.source step.target := by
  induction hpath with
  | nil => exact fun step hstep => absurd hstep List.not_mem_nil
  | cons _ hedge _ ih =>
    intro step hstep
    rcases List.mem_cons.mp hstep with rfl | hlater
    · exact hedge
    · exact ih step hlater

/-- A path that begins at a state ends at a state. -/
theorem Path.last_lt (hpath : machine.Path start steps last)
    (hstart : start < machine.states.length) : last < machine.states.length := by
  induction hpath with
  | nil => exact hstart
  | cons _ hedge _ ih =>
    obtain ⟨left, entered, _, hentered, _⟩ := hedge
    obtain ⟨hlt, _⟩ := List.getElem?_eq_some_iff.mp hentered
    exact ih hlt

/-- The last step of a path leads to its end. -/
theorem Path.target_of_getLast? (hpath : machine.Path start steps last) {step : Step}
    (hlast : steps.getLast? = some step) : step.target = last := by
  induction hpath with
  | nil => simp at hlast
  | @cons _ _ first rest _ _ hrest ih =>
    cases hrest with
    | nil =>
      obtain rfl : first = step := by simpa using hlast
      rfl
    | cons =>
      rw [List.getLast?_cons_cons] at hlast
      exact ih hlast

/-- The records of a path are contiguous. -/
theorem Path.isChain (hpath : machine.Path start steps last) :
    (steps.map machine.moveOf).IsChain fun move next => next.source = move.target := by
  induction hpath with
  | nil => exact .nil
  | cons _ _ hrest ih =>
    cases hrest with
    | nil => exact .singleton _
    | cons hnext => exact .cons_cons (congrArg machine.labelAt hnext) ih

/-- The position that layers start at is that of a state, if there are any. -/
theorem startIndex_lt (hstates : machine.states ≠ []) :
    machine.startIndex < machine.states.length := by
  have hpositive : 0 < machine.states.length := List.length_pos_iff.mpr hstates
  unfold startIndex
  cases hindex : machine.states.findIdx? State.isStart with
  | none => exact hpositive
  | some index => exact (List.findIdx?_eq_some_iff_getElem.mp hindex).1

end Machine

/-- The step that a search at a time leads to, if it finds a state. -/
def Lookup.step? (now : Instant) (lookup : Lookup) : Option Step :=
  lookup.position?.map fun position => ⟨lookup.layer.current, position, lookup.event, now⟩

namespace Layer

variable {σ : Type} {layer later last : Layer} {steps more : List Step} {state : State}

/-- The layer has made some steps, and recorded them. -/
structure Advances (layer : Layer) (steps : List Step) (later : Layer) : Prop where
  machine_eq : later.machine = layer.machine
  path : layer.machine.Path layer.current steps later.current
  history_eq : later.history = (steps.map layer.machine.moveOf).foldl History.record layer.history

/-- A layer of which only variables change makes no steps. -/
theorem Advances.frames (layer : Layer) (frames : FrameStack) :
    layer.Advances [] { layer with frames := frames } :=
  ⟨rfl, .nil layer.current, rfl⟩

theorem Advances.trans (hfirst : layer.Advances steps later) (hnext : later.Advances more last) :
    layer.Advances (steps ++ more) last where
  machine_eq := hnext.machine_eq.trans hfirst.machine_eq
  path := by
    have hmore := hnext.path
    rw [hfirst.machine_eq] at hmore
    exact hfirst.path.append hmore
  history_eq := by
    rw [hnext.history_eq, hfirst.history_eq, hfirst.machine_eq, List.map_append,
      List.foldl_append]

/-! ### One walk -/

/-- The steps of a layer that follows an event: those that its searches lead to. -/
def stepsOf (handler : Handler σ) (layer : Layer) (event : String) (now : Instant) (limit : Nat)
    (world : σ) : List Step :=
  (layer.lookups handler event now limit world).filterMap (Lookup.step? now)

/-- A layer that moves to a state it was sent to by its own state makes the step to it. -/
theorem advances_moveTo {next : State} {position : Nat} {target : String}
    (hstate : layer.state? = some state)
    (hselected : ∃ transition ∈ state.transitions, transition.target = target)
    (hfound : layer.machine.search? layer.current target = some (next, position)) (event : String)
    (now : Instant) (frames : FrameStack) :
    layer.Advances [⟨layer.current, position, event, now⟩]
      { layer.moveTo state next position event now with frames := frames } where
  machine_eq := rfl
  path := by
    have hposition := Machine.getElem?_of_search? hfound
    have hlabel : caselessEq next.label target = true := Machine.isLabelled_of_search? hfound
    obtain ⟨transition, htransition, rfl⟩ := hselected
    have hedge : layer.machine.HasEdge layer.current position :=
      ⟨state, next, hstate, hposition, transition, htransition,
        (caselessEq_comm _ _).trans hlabel⟩
    exact .cons rfl hedge (.nil position)
  history_eq := by
    have hposition := Machine.getElem?_of_search? hfound
    have hcurrent : layer.machine.states[layer.current]? = some state := hstate
    simp [moveTo, Machine.moveOf, Machine.labelAt, hcurrent, hposition]

/-- A walk makes the steps that its searches lead to. -/
theorem walk_advances (handler : Handler σ) (event : String) (now : Instant) (limit : Nat)
    (remaining : Nat) (previous : String) {selected : Option String} (world : σ)
    (hstate : layer.state? = some state)
    (hselected : ∀ target, selected = some target →
      ∃ transition ∈ state.transitions, transition.target = target) :
    layer.Advances
      ((walkLookups handler event now remaining state previous selected layer world).filterMap
        (Lookup.step? now))
      ((walk event now limit remaining state previous selected layer).run handler world).1 := by
  induction remaining generalizing state previous selected layer world with
  | zero => cases selected <;> exact .frames layer layer.frames
  | succ remaining ih =>
    cases selected with
    | none => exact .frames layer layer.frames
    | some target =>
      cases hfound : layer.machine.search? layer.current target with
      | none =>
        simp only [walk, walkLookups, hfound, Lookup.step?, Lookup.position?, Machine.locate?,
          Option.map_none, List.filterMap_cons_none, List.filterMap_nil]
        exact .frames layer layer.frames
      | some found =>
        obtain ⟨next, position⟩ := found
        have hstep : Lookup.step? now ⟨layer, event, target⟩ =
            some ⟨layer.current, position, event, now⟩ := by
          simp [Lookup.step?, Lookup.position?, Machine.locate?, hfound]
        rw [walk_of_search? _ _ _ _ _ hfound, walkLookups_of_search? _ _ _ _ _ _ hfound,
          Program.run_bind, Program.run_log, Program.run_bind, List.filterMap_cons_some hstep]
        -- The axions of the move may do anything but change where the layer is and what it records.
        have hmove := (layer.move_yields_moveTo state next position ⟨event, previous⟩ now).run
          handler (handler (.log (.moving layer.id state.label event target)) world).2
        generalize (layer.move state next position ⟨event, previous⟩ now).run handler
          (handler (.log (.moving layer.id state.label event target)) world).2 = run at hmove ⊢
        obtain ⟨⟨result, moved⟩, after⟩ := run
        obtain ⟨frames, rfl⟩ := hmove
        have hadvance := advances_moveTo hstate (hselected target rfl) hfound event now frames
        dsimp only
        by_cases hreentry : (position == layer.current) = true
        · simp only [hreentry, if_true]
          exact hadvance
        · simp only [hreentry, if_false, Bool.false_eq_true]
          refine hadvance.trans (ih _ _ (Machine.getElem?_of_search? hfound) fun label hlabel => ?_)
          exact (State.target_of_next? hlabel).2

/-- A layer that follows an event makes the steps that its searches lead to. -/
theorem follow_advances (handler : Handler σ) (layer : Layer) (event : String) (now : Instant)
    (limit : Nat) (world : σ) :
    layer.Advances (layer.stepsOf handler event now limit world)
      ((layer.follow event now limit).run handler world).1 := by
  unfold stepsOf lookups
  cases hstate : layer.state? with
  | none =>
    simp only [follow, hstate]
    exact .frames layer layer.frames
  | some state =>
    have hselected (target : String) (htarget : state.next? event = some target) :
        ∃ transition ∈ state.transitions, transition.target = target :=
      (State.target_of_next? htarget).2
    rw [follow_eq_walk hstate, Program.run_bind]
    have hwalk := walk_advances handler event now limit limit "" world hstate hselected
    generalize (walk event now limit limit state "" (state.next? event) layer).run handler world =
      walked at hwalk ⊢
    obtain ⟨frames, hfinished⟩ := (walked.1.finish_yields event).run handler walked.2
    rw [hfinished, ← List.append_nil (List.filterMap _ _)]
    exact hwalk.trans (.frames walked.1 frames)

/-- The steps of a walk are for the event that it follows. -/
theorem event_of_mem_walkLookups {handler : Handler σ} {event : String} {now : Instant}
    {remaining : Nat} {previous : String} {selected : Option String} {world : σ} :
    ∀ lookup ∈ walkLookups handler event now remaining state previous selected layer world,
      lookup.event = event := by
  induction remaining generalizing state previous selected layer world with
  | zero => simp [walkLookups]
  | succ remaining ih =>
    cases selected with
    | none => simp [walkLookups]
    | some target =>
      intro lookup hlookup
      simp only [walkLookups] at hlookup
      rcases List.mem_cons.mp hlookup with rfl | hlater
      · rfl
      · split at hlater
        · exact absurd hlater List.not_mem_nil
        · split at hlater
          · exact absurd hlater List.not_mem_nil
          · exact ih lookup hlater

/-- The steps of a layer that follows an event are for this event. -/
theorem event_of_mem_stepsOf {handler : Handler σ} {event : String} {now : Instant} {limit : Nat}
    {world : σ} {step : Step} (hstep : step ∈ layer.stepsOf handler event now limit world) :
    step.event = event := by
  obtain ⟨lookup, hlookup, hfound⟩ := List.mem_filterMap.mp hstep
  obtain ⟨position, _, rfl⟩ := Option.map_eq_some_iff.mp hfound
  unfold lookups at hlookup
  split at hlookup
  · exact event_of_mem_walkLookups lookup hlookup
  · exact absurd hlookup List.not_mem_nil

end Layer

end LayeredMachines
