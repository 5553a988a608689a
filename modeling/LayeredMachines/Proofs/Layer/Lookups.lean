import LayeredMachines.Proofs.Layer.Executions
import LayeredMachines.Proofs.Machine.Validity

/-!
# What a walk looks up

Each move of a walk begins with a search for the label that was selected. The walk announces the
search, and complains if nothing was found or if what was found is the state that the layer rests
in. This file lists the searches of a walk, shows that its lines about moves are those of its
searches, and shows that the searches of a sound machine never fail.
-/

namespace LayeredMachines

/-- The call writes a line about a move. -/
def Call.reportsMove : Call → Bool
  | .log (.moving ..) | .log (.notFound ..) => true
  | _ => false

/-- A line about a move is written by the walk itself. -/
theorem Call.isOfWalk_of_reportsMove {call : Call} (hreports : call.reportsMove = true) :
    call.isOfWalk = true := by
  unfold reportsMove at hreports
  split at hreports
  · rfl
  · rfl
  · simp at hreports

@[simp] theorem Call.reportsMove_moving (layer : LayerId) (state event target : String) :
    (Call.log (.moving layer state event target)).reportsMove = true := rfl

@[simp] theorem Call.reportsMove_notFound (layer : LayerId) (state event target : String) :
    (Call.log (.notFound layer state event target)).reportsMove = true := rfl

/-- A search of a layer for the label that was selected for an event. -/
structure Lookup where
  layer : Layer
  event : String
  target : String

namespace Lookup

/-- The position that the search finds. -/
def position? (lookup : Lookup) : Option Nat :=
  lookup.layer.machine.locate? lookup.layer.current lookup.target

/-- The line that announces the search. -/
def announcement (lookup : Lookup) : Diagnostic :=
  .moving lookup.layer.id lookup.layer.stateLabel lookup.event lookup.target

/-- The line that complains about the search. -/
def complaint (lookup : Lookup) : Diagnostic :=
  .notFound lookup.layer.id lookup.layer.stateLabel lookup.event lookup.target

/-- The calls that report the search: there is a complaint if nothing is found, and if what is found
is where the layer is. -/
def reports (lookup : Lookup) : List Call :=
  if lookup.position?.all (· == lookup.layer.current) then
    [.log lookup.announcement, .log lookup.complaint]
  else [.log lookup.announcement]

/-- A search that finds something is complained about only if that is where the layer is. -/
theorem eq_complaint_of_mem_reports {lookup : Lookup} (hfound : lookup.position? ≠ none)
    {layer : LayerId} {state event target : String}
    (hcall : .log (.notFound layer state event target) ∈ lookup.reports) :
    lookup.position? = some lookup.layer.current ∧
      .notFound layer state event target = lookup.complaint := by
  obtain ⟨position, hposition⟩ := Option.ne_none_iff_exists'.mp hfound
  unfold reports at hcall
  rw [hposition] at hcall ⊢
  split at hcall
  · next hreentry =>
    have hcurrent : position = lookup.layer.current := by simpa using hreentry
    refine ⟨congrArg some hcurrent, ?_⟩
    simpa [announcement] using hcall
  · simp [announcement] at hcall

end Lookup

namespace Layer

variable {σ : Type} {layer : Layer} {state next : State} {position : Nat} {target : String}

/-- The searches of a walk under a handler, in their order. -/
def walkLookups (handler : Handler σ) (event : String) (now : Instant) :
    (remaining : Nat) → (state : State) → (previous : String) → (selected : Option String) →
      Layer → σ → List Lookup
  | remaining + 1, state, previous, some target, layer, world =>
    ⟨layer, event, target⟩ ::
      match layer.machine.search? layer.current target with
      | none => []
      | some (next, position) =>
        if position == layer.current then []
        else
          let world := (handler (.log (.moving layer.id state.label event target)) world).2
          let ((result, moved), world) :=
            (layer.move state next position ⟨event, previous⟩ now).run handler world
          walkLookups handler event now remaining next (result.getD previous)
            (next.next? (result.getD "")) moved world
  | _, _, _, _, _, _ => []

/-- The searches of a layer that follows an event. -/
def lookups (handler : Handler σ) (layer : Layer) (event : String) (now : Instant) (limit : Nat)
    (world : σ) : List Lookup :=
  match layer.state? with
  | some state => walkLookups handler event now limit state "" (state.next? event) layer world
  | none => []

/-- The searches of a walk that finds a state are that search and, unless the layer has been there,
those of the walk from there. -/
theorem walkLookups_of_search? (handler : Handler σ) (event : String) (now : Instant)
    (remaining : Nat) (previous : String) (world : σ)
    (hfound : layer.machine.search? layer.current target = some (next, position)) :
    walkLookups handler event now (remaining + 1) state previous (some target) layer world =
      ⟨layer, event, target⟩ ::
        if position == layer.current then []
        else
          let moved := (layer.move state next position ⟨event, previous⟩ now).run handler
            (handler (.log (.moving layer.id state.label event target)) world).2
          walkLookups handler event now remaining next (moved.1.1.getD previous)
            (next.next? (moved.1.1.getD "")) moved.1.2 moved.2 := by
  simp only [walkLookups, hfound]

/-! ### The lines of a walk -/

/-- No execution reports a move. -/
theorem filter_reportsMove_made? (executions : List (Execution σ)) :
    ((executions.filterMap Execution.made?).map Prod.snd).filter Call.reportsMove = [] := by
  rw [List.filter_eq_nil_iff]
  intro call hcall hreports
  obtain ⟨made, hmade, rfl⟩ := List.mem_map.mp hcall
  obtain ⟨execution, _, hexecution⟩ := List.mem_filterMap.mp hmade
  have hown := Execution.isOfWalk_of_mem_made? hexecution
  rw [Call.isOfWalk_of_reportsMove hreports] at hown
  cases hown

/-- Between its search and its end a move is not reported. -/
theorem filter_trace_move (handler : Handler σ) (layer : Layer) (source next : State)
    (position : Nat) (context : WalkContext) (now : Instant) (world : σ) :
    ((layer.move source next position context now).trace handler world).filter
      Call.reportsMove = [] := by
  rw [← Program.map_snd_calls, calls_move, filter_reportsMove_made?]

/-- Finishing is no move. -/
theorem filter_trace_finish (handler : Handler σ) (layer : Layer) (event : String) (world : σ) :
    ((layer.finish event).trace handler world).filter Call.reportsMove = [] := by
  unfold finish
  split
  · split
    · rw [Program.trace_bind, List.filter_append, ← Program.map_snd_calls, calls_leaveState,
        filter_reportsMove_made?]
      rfl
    · rfl
  · rfl

/-- The calls that report a search name the state that the layer rests in. -/
theorem reports_eq (hstate : layer.state? = some state) (event target : String) :
    (⟨layer, event, target⟩ : Lookup).reports =
      if (layer.machine.locate? layer.current target).all (· == layer.current) then
        [.log (.moving layer.id state.label event target),
          .log (.notFound layer.id state.label event target)]
      else [.log (.moving layer.id state.label event target)] := by
  simp only [Lookup.reports, Lookup.position?, Lookup.announcement, Lookup.complaint, stateLabel,
    hstate, Option.map_some, Option.getD_some]

/-- The lines of a walk about moves are those of its searches. -/
theorem filter_trace_walk (handler : Handler σ) (event : String) (now : Instant) (limit : Nat)
    (remaining : Nat) (previous : String) (selected : Option String) (world : σ)
    (hstate : layer.state? = some state) :
    ((walk event now limit remaining state previous selected layer).trace handler world).filter
        Call.reportsMove =
      (walkLookups handler event now remaining state previous selected layer world).flatMap
        Lookup.reports := by
  induction remaining generalizing state previous selected layer world with
  | zero =>
    cases selected with
    | none => rfl
    | some target => rfl
  | succ remaining ih =>
    cases selected with
    | none => rfl
    | some target =>
      cases hfound : layer.machine.search? layer.current target with
      | none =>
        simp [walk, walkLookups, hfound, reports_eq hstate, Machine.locate?]
      | some found =>
        obtain ⟨next, position⟩ := found
        rw [walk_of_search? _ _ _ _ _ hfound, walkLookups_of_search? _ _ _ _ _ _ hfound]
        -- Whatever the axions of the move do, they report no moves between the lines of the walk.
        have hquiet := filter_trace_move handler layer state next position ⟨event, previous⟩ now
          (handler (.log (.moving layer.id state.label event target)) world).2
        have hmove := (move_yields state ⟨event, previous⟩ now hfound).run
          handler (handler (.log (.moving layer.id state.label event target)) world).2
        rw [Program.trace_bind, Program.trace_log, Program.run_log, Program.trace_bind,
          List.filter_append, List.filter_append, hquiet, List.nil_append, List.flatMap_cons]
        generalize (layer.move state next position ⟨event, previous⟩ now).run handler
          (handler (.log (.moving layer.id state.label event target)) world).2 = run at hmove ⊢
        obtain ⟨⟨result, moved⟩, after⟩ := run
        obtain ⟨⟨hid, _⟩, _, hnext⟩ := hmove
        dsimp only at hid hnext ⊢
        by_cases hreentry : position = layer.current
        · have hback : next = state := by
            have hposition := Machine.getElem?_of_search? hfound
            exact Option.some.inj (hposition.symm.trans (hreentry ▸ hstate))
          simp [reports_eq hstate, Machine.locate?, hfound, hreentry, hback, hid, List.filter_cons]
        · have hgoes : (position == layer.current) = false := beq_false_of_ne hreentry
          simp only [hgoes, Bool.false_eq_true, if_false]
          rw [ih _ _ _ hnext]
          simp [reports_eq hstate, Machine.locate?, hfound, hreentry, List.filter_cons]

/-- The lines about moves of a layer that follows an event are those of its searches. -/
theorem filter_trace_follow (handler : Handler σ) (layer : Layer) (event : String) (now : Instant)
    (limit : Nat) (world : σ) :
    ((layer.follow event now limit).trace handler world).filter Call.reportsMove =
      (layer.lookups handler event now limit world).flatMap Lookup.reports := by
  unfold lookups
  cases hstate : layer.state? with
  | none => simp [follow, hstate]
  | some state =>
    rw [follow_eq_walk hstate, Program.trace_bind, List.filter_append, filter_trace_finish,
      List.append_nil]
    exact filter_trace_walk handler event now limit limit "" _ world hstate

/-! ### Searches of a sound machine -/

/-- A walk in a sound machine finds whatever it searches for. -/
theorem found_of_mem_walkLookups (handler : Handler σ) (event : String) (now : Instant)
    (remaining : Nat) (previous : String) {selected : Option String} (world : σ)
    (hsound : layer.machine.IsSound) (hstate : layer.state? = some state)
    (hselected : ∀ target, selected = some target → layer.machine.Knows target) :
    ∀ lookup ∈ walkLookups handler event now remaining state previous selected layer world,
      lookup.layer.machine = layer.machine ∧ ∃ position, lookup.position? = some position := by
  induction remaining generalizing state previous selected layer world with
  | zero => simp [walkLookups]
  | succ remaining ih =>
    cases selected with
    | none => simp [walkLookups]
    | some target =>
      obtain ⟨hplace, _⟩ := List.getElem?_eq_some_iff.mp hstate
      obtain ⟨next, position, hfound⟩ :=
        Machine.exists_search?_of_knows hplace (hselected target rfl)
      rw [walkLookups_of_search? _ _ _ _ _ _ hfound]
      have hmove := (move_yields state ⟨event, previous⟩ now hfound).run
        handler (handler (.log (.moving layer.id state.label event target)) world).2
      generalize (layer.move state next position ⟨event, previous⟩ now).run handler
        (handler (.log (.moving layer.id state.label event target)) world).2 = run at hmove ⊢
      obtain ⟨⟨result, moved⟩, after⟩ := run
      obtain ⟨⟨_, hmachine⟩, _, hnext⟩ := hmove
      dsimp only at hmachine hnext ⊢
      intro lookup hlookup
      rcases List.mem_cons.mp hlookup with rfl | hlater
      · exact ⟨rfl, position, by simp [Lookup.position?, Machine.locate?, hfound]⟩
      · split at hlater
        · exact absurd hlater List.not_mem_nil
        · rw [← hmachine] at hsound ⊢
          refine ih _ _ hsound hnext (fun target htarget => ?_) lookup hlater
          exact hsound.knows_of_next? (List.mem_of_getElem? hnext) htarget

/-- A layer of a sound machine finds whatever it searches for when it follows an event. -/
theorem found_of_mem_lookups (handler : Handler σ) (event : String) (now : Instant) (limit : Nat)
    (world : σ) (hsound : layer.machine.IsSound) :
    ∀ lookup ∈ layer.lookups handler event now limit world,
      lookup.layer.machine = layer.machine ∧ ∃ position, lookup.position? = some position := by
  unfold lookups
  cases hstate : layer.state? with
  | none => exact fun lookup hlookup => absurd hlookup List.not_mem_nil
  | some state =>
    refine found_of_mem_walkLookups handler event now limit "" world hsound hstate ?_
    exact fun target htarget =>
      hsound.knows_of_next? (List.mem_of_getElem? hstate) htarget

end Layer

end LayeredMachines
