import LayeredMachines.Proofs.Layer.Legs

/-!
# The last calls of a walk

A layer asks to be taken out only when it comes to rest in a final state, and then once and as the
last thing that it does. Before that the axion for leaving the state is executed once more, and can
only reach out. So the layer ends as it came to rest, whatever the axion.
-/

namespace LayeredMachines

/-- What a call that reaches out is about: the argument that it needs on leaving. -/
def Call.key? : Call → Option String
  | .start machine _ => some machine
  | .raise event => some event
  | .blast event => some event
  | .patch command _ => some command
  | .write label _ => some label
  | _ => none

/-- On leaving, a verb that reaches out makes a call that is about something. -/
theorem Verb.exists_key?_of_call? {verb : Verb} {phase : Phase} {id : LayerId}
    {stack : FrameStack} {call : Call} (hreach : verb.reachesOut = true) (hphase : phase ≠ .entry)
    (hcall : verb.call? phase id stack = some call) : ∃ key, call.key? = some key ∧ key ≠ "" := by
  have hgiven {argument : String} {made : Call} (hkey : made.key? = some argument)
      (heq : (if phase.passesOver argument then none else some made) = some call) :
      ∃ key, call.key? = some key ∧ key ≠ "" := by
    obtain ⟨hgiven, hmade⟩ := Option.ite_none_left_eq_some.mp heq
    obtain rfl := Option.some.inj hmade
    refine ⟨argument, hkey, ?_⟩
    simpa [Phase.passesOver, hphase] using hgiven
  cases verb with
  | start => exact hgiven rfl hcall
  | raise => exact hgiven rfl hcall
  | blast => exact hgiven rfl hcall
  | patch => exact hgiven rfl hcall
  | write => exact hgiven rfl hcall
  | _ => simp [reachesOut] at hreach

/-- The call of a final execution is about something. -/
theorem Execution.exists_key?_of_call? {σ : Type} {execution : Execution σ} {call : Call}
    (hphase : execution.phase = .final) (hcall : execution.call? = some call) :
    ∃ key, call.key? = some key ∧ key ≠ "" := by
  have hmade := call?_of_verb hcall
  have hreach : execution.verb.reachesOut = true := by
    by_contra hnot
    have hnone : execution.call? = none :=
      if_pos ⟨hphase, Bool.eq_false_iff.mpr hnot⟩
    simp [hnone] at hcall
  have hleaves : execution.phase ≠ .entry := by
    rw [hphase]
    decide
  exact Verb.exists_key?_of_call? hreach hleaves hmade

/-! ### The calls on the way -/

/-- An execution does not ask for the layer to be taken out. -/
theorem Execution.ne_pop_of_call? {σ : Type} {execution : Execution σ} {call : Call}
    (hcall : execution.call? = some call) : call ≠ .pop := by
  rintro rfl
  have hown := Verb.isOfWalk_of_call? (call?_of_verb hcall)
  simp [Call.isOfWalk] at hown

/-- A move does not ask for the layer to be taken out. -/
theorem Leg.pop_not_mem_calls {σ : Type} (handler : Handler σ) (now : Instant) (leg : Leg σ) :
    Call.pop ∉ leg.calls handler now := by
  rw [calls_eq]
  intro hpop
  obtain ⟨execution, _, hcall⟩ := List.mem_filterMap.mp (List.mem_of_ne_of_mem (by simp) hpop)
  exact Execution.ne_pop_of_call? hcall rfl

/-- The lines with which a walk ends do not ask for the layer to be taken out. -/
theorem Standing.pop_not_mem_lastLines {σ : Type} (handler : Handler σ) {event : String}
    {now : Instant} {limit remaining : Nat} {standing : Standing} {legs : List (Leg σ)} :
    Call.pop ∉ standing.lastLines handler event now limit remaining legs := by
  have hending (standing : Standing) (isSpent : Bool) :
      Call.pop ∉ standing.ending event limit isSpent := by
    unfold ending
    cases standing.selected with
    | none => simp
    | some target => cases isSpent <;> simp
  unfold lastLines
  split
  · exact hending _ _
  · split
    · simp
    · exact hending _ _

/-! ### The calls at the end -/

namespace Layer

variable {σ : Type}

/-- The call that a layer makes when the axion for leaving its state is executed once more. -/
def farewell? (layer : Layer) (event : String) : Option Call :=
  layer.state?.bind fun state =>
    if state.leave.isEmpty then none
    else (⟨state.leave, .final, ⟨event, ""⟩, layer, ()⟩ : Execution Unit).call?

/-- What a layer does when it finishes is to say farewell and to ask to be taken out. -/
theorem closing_eq (layer : Layer) (event : String) :
    layer.closing event =
      if caselessEq layer.stateLabel finalLabel then (layer.farewell? event).toList ++ [.pop]
      else [] := by
  rw [← isFinal_eq]
  unfold closing isFinal farewell? leaveExecutions
  cases layer.state? with
  | none => rfl
  | some state =>
    rw [Option.any_some, Option.bind_some]
    by_cases hfinal : state.isFinal = true
    · simp only [hfinal, if_true]
      split
      · rfl
      · rw [filterMap_singleton]
    · simp only [hfinal, if_false, Bool.false_eq_true]

/-- What is called with a farewell is about something. -/
theorem exists_key?_of_farewell? {layer : Layer} {event : String} {call : Call}
    (hcall : layer.farewell? event = some call) : ∃ key, call.key? = some key ∧ key ≠ "" := by
  obtain ⟨state, _, hfarewell⟩ := Option.bind_eq_some_iff.mp hcall
  obtain ⟨_, hmade⟩ := Option.ite_none_left_eq_some.mp hfarewell
  exact Execution.exists_key?_of_call? rfl hmade

/-- A layer that finishes asks to be taken out once, and any other one does not. -/
theorem count_pop_closing (layer : Layer) (event : String) :
    (layer.closing event).count .pop = if caselessEq layer.stateLabel finalLabel then 1 else 0 := by
  have hfarewell : Call.pop ∉ (layer.farewell? event).toList := by
    intro hpop
    obtain ⟨key, hkey, _⟩ := exists_key?_of_farewell? (Option.mem_toList.mp hpop)
    simp [Call.key?] at hkey
  rw [closing_eq]
  split
  · rw [List.count_append, List.count_eq_zero_of_not_mem hfarewell, List.count_singleton_self]
  · rfl

/-- A layer that is on its way does not ask to be taken out. -/
theorem pop_not_mem_stroll (handler : Handler σ) (layer : Layer) (event : String) (now : Instant)
    (limit : Nat) (world : σ) : Call.pop ∉ (layer.stroll event now limit).trace handler world := by
  cases hstate : layer.state? with
  | none =>
    simp only [stroll, hstate, Program.trace_pure, List.not_mem_nil, not_false_eq_true]
  | some state =>
    rw [(trace_stroll handler hstate event now limit world).1]
    intro hpop
    rcases List.mem_append.mp hpop with hleg | hline
    · obtain ⟨leg, _, hcall⟩ := List.mem_flatMap.mp hleg
      exact leg.pop_not_mem_calls handler now hcall
    · exact Standing.pop_not_mem_lastLines handler hline

/-- Whatever a layer follows, it first comes to rest, and then finishes. It ends as it came to rest:
the same state, variables and history. If the label of that state is "final" up to case, it asks to
be taken out, and it does so once and as the last of its calls. Only the farewell stands between
this and the calls of its walk: at most one call, to start a layer, to send an event up or down, to
notify the application or to bind a variable of the layer above, and with a name for that. In any
other state it does not ask to be taken out, and makes no calls after those of its walk. -/
theorem pops_last_in_final (handler : Handler σ) (layer : Layer) (event : String) (now : Instant)
    (limit : Nat) (world : σ) :
    let rest := ((layer.stroll event now limit).run handler world).1
    let moves := (layer.stroll event now limit).trace handler world
    let calls := (layer.follow event now limit).trace handler world
    let isFinal := caselessEq rest.stateLabel finalLabel
    layer.follow event now limit =
        layer.stroll event now limit >>= (fun rest => rest.finish event) ∧
      ((layer.follow event now limit).run handler world).1 = rest ∧
      Call.pop ∉ moves ∧
      calls.count .pop = (if isFinal then 1 else 0) ∧
      (isFinal = true → calls = moves ++ (rest.farewell? event).toList ++ [.pop]) ∧
      (isFinal = false → calls = moves) ∧
      ∀ call ∈ rest.farewell? event, ∃ key, call.key? = some key ∧ key ≠ "" := by
  intro rest moves calls isFinal
  have hmoves : Call.pop ∉ moves := pop_not_mem_stroll handler layer event now limit world
  have hcalls : calls = moves ++ rest.closing event :=
    (trace_follow handler layer event now limit world).1
  have hlast := (trace_follow handler layer event now limit world).2
  refine ⟨layer.follow_eq_stroll event now limit, hlast, hmoves, ?_, fun hfinal => ?_,
    fun hgoes => ?_, fun call => exists_key?_of_farewell?⟩
  · rw [hcalls, List.count_append, List.count_eq_zero_of_not_mem hmoves, Nat.zero_add]
    exact count_pop_closing rest event
  · rw [hcalls, closing_eq, if_pos hfinal, List.append_assoc]
  · rw [hcalls, closing_eq, if_neg (Bool.eq_false_iff.mp hgoes), List.append_nil]

end Layer

end LayeredMachines
