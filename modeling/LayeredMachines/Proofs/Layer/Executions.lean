import LayeredMachines.Proofs.Layer.Follow

/-!
# The executions of a walk

All that a walk does to the world, apart from its lines and from asking to be taken out, it does by
executing axions. This file lists the executions of a walk in their order, each with the layer and
the world at its time, and shows that each makes at most one call, which is known beforehand. The
calls of a walk are those of its executions.
-/

namespace LayeredMachines

/-- The call is one of the walk itself: a line about its moves, or to be taken out. -/
def Call.isOfWalk : Call → Bool
  | .log (.moving ..) | .log (.notFound ..) | .log (.stopped ..) | .pop => true
  | _ => false

/-- The call that a verb makes for a layer with the given variables, if it makes one. -/
def Verb.call? (verb : Verb) (phase : Phase) (layer : LayerId) (stack : FrameStack) : Option Call :=
  let given (argument : String) (call : Call) :=
    if phase.passesOver argument then none else some call
  match verb with
  | .start machine seed => given machine (.start machine seed)
  | .raise event => given event (.raise event)
  | .blast event => given event (.blast event)
  | .patch command status => given command (.patch command status)
  | .write label value => given label (.write label value)
  | .count tuple => some (.count tuple)
  | .timer none _ => none
  | .timer (some delay) event => if event.isEmpty then none else some (.timer delay event)
  | .trace text => some (.trace text)
  | .equ label value =>
    let current := stack.lookupOr label "0"
    some (.log (.compared layer current
      (if caselessEq current value then Outcome.success else Outcome.notSame)))
  | .custom verb parameters => some (.execute verb parameters)
  | _ => none

/-- The execution of an axion: its text, when it is executed and what the walk tells it, and the
layer and the world at that time. -/
structure Execution (σ : Type) where
  text : String
  phase : Phase
  context : WalkContext
  layer : Layer
  world : σ

namespace Execution

variable {σ : Type}

/-- The axion with the variables of the layer put in for its markers. -/
def axion (execution : Execution σ) : Axion :=
  (Axion.split execution.text).expand execution.layer.frames

/-- The verb of the axion with its arguments. -/
def verb (execution : Execution σ) : Verb :=
  execution.axion.toVerb

/-- The call that the execution makes, if it makes one. -/
def call? (execution : Execution σ) : Option Call :=
  if execution.phase = .final ∧ execution.verb.reachesOut = false then none
  else execution.verb.call? execution.phase execution.layer.id execution.layer.frames

/-- The call that the execution makes, with the world that it is made in. -/
def made? (execution : Execution σ) : Option (σ × Call) :=
  execution.call?.map (execution.world, ·)

end Execution

namespace Layer

variable {σ : Type}

/-- The execution of the axion for leaving a state, if it has one. -/
def leaveExecutions (layer : Layer) (state : State) (phase : Phase) (context : WalkContext)
    (world : σ) : List (Execution σ) :=
  if state.leave.isEmpty then [] else [⟨state.leave, phase, context, layer, world⟩]

/-- The execution of the axion for entering a state, if it has one. -/
def enterExecutions (layer : Layer) (state : State) (context : WalkContext) (world : σ) :
    List (Execution σ) :=
  if state.entry.isEmpty then [] else [⟨state.entry, .entry, context, layer, world⟩]

/-- The executions of a move. -/
def moveExecutions (handler : Handler σ) (layer : Layer) (source next : State) (position : Nat)
    (context : WalkContext) (now : Instant) (world : σ) : List (Execution σ) :=
  let (left, after) := (layer.leaveState source .leave context).run handler world
  layer.leaveExecutions source .leave context world ++
    (left.moveTo source next position context.external now).enterExecutions next context after

/-- The executions of a walk under a handler, in their order. -/
def walkExecutions (handler : Handler σ) (event : String) (now : Instant) :
    (remaining : Nat) → (state : State) → (previous : String) → (selected : Option String) →
      Layer → σ → List (Execution σ)
  | remaining + 1, state, previous, some target, layer, world =>
    match layer.machine.search? layer.current target with
    | none => []
    | some (next, position) =>
      let context := ⟨event, previous⟩
      let world := (handler (.log (.moving layer.id state.label event target)) world).2
      layer.moveExecutions handler state next position context now world ++
        if position == layer.current then []
        else
          let ((result, moved), world) :=
            (layer.move state next position context now).run handler world
          walkExecutions handler event now remaining next (result.getD previous)
            (next.next? (result.getD "")) moved world
  | _, _, _, _, _, _ => []

/-- The execution of a layer that has walked, if it is finished. -/
def finishExecutions (layer : Layer) (event : String) (world : σ) : List (Execution σ) :=
  match layer.state? with
  | some state => if state.isFinal then layer.leaveExecutions state .final ⟨event, ""⟩ world else []
  | none => []

/-- The executions of a layer that follows an event. -/
def executions (handler : Handler σ) (layer : Layer) (event : String) (now : Instant) (limit : Nat)
    (world : σ) : List (Execution σ) :=
  match layer.state? with
  | some state =>
    let selected := state.next? event
    let (walked, after) :=
      (walk event now limit limit state "" selected layer).run handler world
    walkExecutions handler event now limit state "" selected layer world ++
      walked.finishExecutions event after
  | none => []

end Layer

/-! ### The call of an execution -/

/-- A verb makes the call that is known beforehand, and no other. -/
theorem Verb.calls_execute {σ : Type} (verb : Verb) (phase : Phase) (context : WalkContext)
    (id : LayerId) (stack : FrameStack) (handler : Handler σ) (world : σ) :
    (verb.execute phase context id stack).calls handler world =
      ((verb.call? phase id stack).map (world, ·)).toList := by
  have hrequest (argument : String) (call : Program Outcome) (made : Call)
      (hcall : call.calls handler world = [(world, made)]) :
      (phase.request argument stack call).calls handler world =
        (Option.map (world, ·)
          (if phase.passesOver argument then none else some made)).toList := by
    unfold Phase.request
    split
    · rfl
    · simp [Program.request, hcall]
  cases verb with
  | start machine seed => exact hrequest machine _ _ rfl
  | raise event => exact hrequest event _ _ rfl
  | blast event => exact hrequest event _ _ rfl
  | patch command status => exact hrequest command _ _ rfl
  | write label value => exact hrequest label _ _ rfl
  | timer delay event =>
    cases delay with
    | none => rfl
    | some delay =>
      simp only [Verb.execute, Verb.call?]
      split <;> rfl
  | _ => rfl

/-- No verb makes one of the calls of the walk itself. -/
theorem Verb.isOfWalk_of_call? {verb : Verb} {phase : Phase} {id : LayerId} {stack : FrameStack}
    {call : Call} (hcall : verb.call? phase id stack = some call) : call.isOfWalk = false := by
  have hgiven {argument : String} {made : Call} (hmade : made.isOfWalk = false)
      (heq : (if phase.passesOver argument then none else some made) = some call) :
      call.isOfWalk = false := by
    obtain ⟨_, heq⟩ := Option.ite_none_left_eq_some.mp heq
    exact Option.some.inj heq ▸ hmade
  cases verb with
  | start => exact hgiven rfl hcall
  | raise => exact hgiven rfl hcall
  | blast => exact hgiven rfl hcall
  | patch => exact hgiven rfl hcall
  | write => exact hgiven rfl hcall
  | timer delay event =>
    cases delay with
    | none => simp [call?] at hcall
    | some delay =>
      obtain ⟨_, hcall⟩ := Option.ite_none_left_eq_some.mp hcall
      exact Option.some.inj hcall ▸ rfl
  | count => exact Option.some.inj hcall ▸ rfl
  | trace => exact Option.some.inj hcall ▸ rfl
  | equ => exact Option.some.inj hcall ▸ rfl
  | custom => exact Option.some.inj hcall ▸ rfl
  | _ => simp [call?] at hcall

/-- The only line that a verb writes shows a comparison. -/
theorem Verb.exists_compared_of_call? {verb : Verb} {phase : Phase} {id : LayerId}
    {stack : FrameStack} {line : Diagnostic}
    (hcall : verb.call? phase id stack = some (.log line)) :
    ∃ value outcome, line = .compared id value outcome := by
  cases verb with
  | equ label value =>
    obtain rfl : _ = line := Call.log.inj (Option.some.inj hcall)
    exact ⟨_, _, rfl⟩
  | timer delay event => cases delay <;> simp [call?] at hcall
  | _ => simp [call?] at hcall

/-- Only one verb starts a layer, with its own arguments. -/
theorem Verb.eq_start_of_call? {verb : Verb} {phase : Phase} {id : LayerId} {stack : FrameStack}
    {machine : String} {seed : List Parameter}
    (hcall : verb.call? phase id stack = some (.start machine seed)) :
    verb = .start machine seed := by
  cases verb with
  | start name parameters =>
    obtain ⟨_, rfl, rfl⟩ : _ ∧ name = machine ∧ parameters = seed := by simpa [call?] using hcall
    rfl
  | timer delay event => cases delay <;> simp [call?] at hcall
  | _ => simp [call?] at hcall

/-- The arguments for starting a layer are the machine that is named and the other parameters. -/
theorem Axion.start_of_toVerb {axion : Axion} {machine : String} {seed : List Parameter}
    (hverb : axion.toVerb = .start machine seed) :
    machine = axion.valueOf "machine" "" ∧ seed = axion.without "machine" := by
  unfold toVerb at hverb
  split at hverb <;> simp_all

/-- A list of one element has what is selected of it, or nothing. -/
theorem filterMap_singleton {α β : Type} (select : α → Option β) (a : α) :
    [a].filterMap select = (select a).toList := by
  cases hselected : select a with
  | none => rw [List.filterMap_cons_none hselected, List.filterMap_nil, Option.toList_none]
  | some b => rw [List.filterMap_cons_some hselected, List.filterMap_nil, Option.toList_some]

namespace Execution

variable {σ : Type} {execution : Execution σ} {call : Call}

/-- An execution makes the call that is known beforehand, and no other. -/
theorem calls_executeText (execution : Execution σ) (handler : Handler σ) :
    (executeText execution.text execution.phase execution.context execution.layer.id
        execution.layer.frames).calls handler execution.world =
      execution.made?.toList := by
  obtain ⟨text, phase, context, layer, world⟩ := execution
  unfold executeText made? call? verb axion
  dsimp only
  generalize ((Axion.split text).expand layer.frames).toVerb = verb
  cases phase with
  | entry => simpa using verb.calls_execute .entry context layer.id layer.frames handler world
  | leave => simpa using verb.calls_execute .leave context layer.id layer.frames handler world
  | final =>
    cases verb.reachesOut with
    | false => rfl
    | true => simpa using verb.calls_execute .final context layer.id layer.frames handler world

/-- The call of an execution is that of its verb. -/
theorem call?_of_verb (hcall : execution.call? = some call) :
    execution.verb.call? execution.phase execution.layer.id execution.layer.frames = some call := by
  exact (Option.ite_none_left_eq_some.mp hcall).2

/-- An execution that starts a layer gives it the parameters of its axion for a seed, without the
name of the machine. -/
theorem start_of_call? {machine : String} {seed : List Parameter}
    (hcall : execution.call? = some (.start machine seed)) :
    machine = execution.axion.valueOf "machine" "" ∧ seed = execution.axion.without "machine" :=
  Axion.start_of_toVerb (Verb.eq_start_of_call? (call?_of_verb hcall))

/-- The call of an execution is none of the walk itself. -/
theorem isOfWalk_of_mem_made? {made : σ × Call} (hmade : execution.made? = some made) :
    made.2.isOfWalk = false := by
  obtain ⟨call, hcall, rfl⟩ := Option.map_eq_some_iff.mp hmade
  exact Verb.isOfWalk_of_call? (call?_of_verb hcall)

/-- Among the calls of executions there is none of the walk itself. -/
theorem filter_filterMap_made? (executions : List (Execution σ)) :
    (executions.filterMap made?).filter (!·.2.isOfWalk) = executions.filterMap made? := by
  rw [List.filter_eq_self]
  intro made hmade
  obtain ⟨execution, _, hcall⟩ := List.mem_filterMap.mp hmade
  rw [isOfWalk_of_mem_made? hcall, Bool.not_false]

/-- Without their worlds the calls that executions make are known from the executions. -/
theorem map_snd_filterMap_made? (executions : List (Execution σ)) :
    (executions.filterMap made?).map Prod.snd = executions.filterMap call? := by
  have hcall (execution : Execution σ) : execution.made?.map Prod.snd = execution.call? := by
    rw [made?, Option.map_map]
    exact Option.map_id'
  rw [List.map_filterMap]
  exact congrArg (executions.filterMap ·) (funext hcall)

end Execution

/-! ### The calls of a walk -/

namespace Layer

variable {σ : Type} {state next : State} {position : Nat} {target : String} {layer : Layer}

/-- A layer that leaves a state makes the call of the execution. -/
theorem calls_leaveState (handler : Handler σ) (layer : Layer) (state : State) (phase : Phase)
    (context : WalkContext) (world : σ) :
    (layer.leaveState state phase context).calls handler world =
      (layer.leaveExecutions state phase context world).filterMap Execution.made? := by
  have haxion := Execution.calls_executeText ⟨state.leave, phase, context, layer, world⟩ handler
  unfold leaveState leaveExecutions
  dsimp only at haxion
  generalize executeText state.leave phase context layer.id layer.frames = program at haxion ⊢
  split
  · rfl
  · rw [Program.calls_bind, haxion, filterMap_singleton]
    exact List.append_nil _

/-- A layer that enters a state makes the call of the execution. -/
theorem calls_enterState (handler : Handler σ) (layer : Layer) (state : State)
    (context : WalkContext) (world : σ) :
    (layer.enterState state context).calls handler world =
      (layer.enterExecutions state context world).filterMap Execution.made? := by
  have haxion := Execution.calls_executeText ⟨state.entry, .entry, context, layer, world⟩ handler
  unfold enterState enterExecutions
  dsimp only at haxion
  generalize executeText state.entry .entry context layer.id layer.frames = program at haxion ⊢
  split
  · rfl
  · rw [Program.calls_bind, haxion, filterMap_singleton]
    exact List.append_nil _

/-- A move makes the calls of its executions. -/
theorem calls_move (handler : Handler σ) (layer : Layer) (source next : State) (position : Nat)
    (context : WalkContext) (now : Instant) (world : σ) :
    (layer.move source next position context now).calls handler world =
      (layer.moveExecutions handler source next position context now world).filterMap
        Execution.made? := by
  rw [move, Program.calls_bind, calls_leaveState, calls_enterState, moveExecutions,
    List.filterMap_append]

/-- The executions of a walk that finds a state are those of the move there and, unless the layer has
been there, those of the walk from there. -/
theorem walkExecutions_of_search? (handler : Handler σ) (event : String) (now : Instant)
    (remaining : Nat) (previous : String) (world : σ)
    (hfound : layer.machine.search? layer.current target = some (next, position)) :
    walkExecutions handler event now (remaining + 1) state previous (some target) layer world =
      let announced := (handler (.log (.moving layer.id state.label event target)) world).2
      layer.moveExecutions handler state next position ⟨event, previous⟩ now announced ++
        if position == layer.current then []
        else
          let moved := (layer.move state next position ⟨event, previous⟩ now).run handler announced
          walkExecutions handler event now remaining next (moved.1.1.getD previous)
            (next.next? (moved.1.1.getD "")) moved.1.2 moved.2 := by
  simp only [walkExecutions, hfound]

/-- Apart from its own calls a walk makes those of its executions. -/
theorem filter_calls_walk (handler : Handler σ) (event : String) (now : Instant) (limit : Nat)
    (remaining : Nat) (state : State) (previous : String) (selected : Option String)
    (layer : Layer) (world : σ) :
    ((walk event now limit remaining state previous selected layer).calls handler world).filter
        (!·.2.isOfWalk) =
      (walkExecutions handler event now remaining state previous selected layer world).filterMap
        Execution.made? := by
  induction remaining generalizing state previous selected layer world with
  | zero => cases selected <;> rfl
  | succ remaining ih =>
    cases selected with
    | none => rfl
    | some target =>
      cases hfound : layer.machine.search? layer.current target with
      | none => simp [walk, walkExecutions, hfound, Call.isOfWalk]
      | some found =>
        obtain ⟨next, position⟩ := found
        rw [walk_of_search? _ _ _ _ _ hfound, walkExecutions_of_search? _ _ _ _ _ _ hfound]
        rw [Program.calls_bind, Program.calls_log, Program.run_log, Program.calls_bind,
          List.filter_append, List.filter_append, calls_move, Execution.filter_filterMap_made?,
          List.filterMap_append]
        generalize (layer.move state next position ⟨event, previous⟩ now).run handler
          (handler (.log (.moving layer.id state.label event target)) world).2 = run
        obtain ⟨⟨result, moved⟩, after⟩ := run
        dsimp only
        by_cases hreentry : (position == layer.current) = true
        · simp [hreentry, Call.isOfWalk]
        · simp only [hreentry, if_false, Bool.false_eq_true, ih]
          simp [Call.isOfWalk]

/-- A layer that finishes makes the call of its execution and asks to be taken out. -/
theorem filter_calls_finish (handler : Handler σ) (layer : Layer) (event : String) (world : σ) :
    ((layer.finish event).calls handler world).filter (!·.2.isOfWalk) =
      (layer.finishExecutions event world).filterMap Execution.made? := by
  unfold finish finishExecutions
  cases layer.state? with
  | none => rfl
  | some state =>
    dsimp only
    split
    · rw [Program.calls_bind, calls_leaveState, List.filter_append,
        Execution.filter_filterMap_made?]
      exact List.append_nil _
    · rfl

/-- Apart from its own calls the walk of a layer that follows an event makes those of its
executions. -/
theorem filter_calls_follow (handler : Handler σ) (layer : Layer) (event : String) (now : Instant)
    (limit : Nat) (world : σ) :
    ((layer.follow event now limit).calls handler world).filter (!·.2.isOfWalk) =
      (layer.executions handler event now limit world).filterMap Execution.made? := by
  unfold executions
  cases hstate : layer.state? with
  | none => simp [follow, hstate]
  | some state =>
    rw [follow_eq_walk hstate, Program.calls_bind, List.filter_append, filter_calls_walk,
      filter_calls_finish, List.filterMap_append]

/-- A call of a layer that follows an event, if it is not one of the walk itself, is made by an
execution in the world of that time. -/
theorem exists_execution_of_mem_calls {handler : Handler σ} {event : String} {now : Instant}
    {limit : Nat} {world mid : σ} {call : Call}
    (hcall : (mid, call) ∈ (layer.follow event now limit).calls handler world)
    (hown : call.isOfWalk = false) :
    ∃ execution ∈ layer.executions handler event now limit world,
      execution.world = mid ∧ execution.call? = some call := by
  have hfiltered : (mid, call) ∈
      ((layer.follow event now limit).calls handler world).filter (!·.2.isOfWalk) :=
    List.mem_filter.mpr ⟨hcall, by rw [hown, Bool.not_false]⟩
  rw [filter_calls_follow] at hfiltered
  obtain ⟨execution, hexecution, hmade⟩ := List.mem_filterMap.mp hfiltered
  obtain ⟨made, hmake, heq⟩ := Option.map_eq_some_iff.mp hmade
  obtain ⟨rfl, rfl⟩ := Prod.mk.inj heq
  exact ⟨execution, hexecution, rfl, hmake⟩

/-- The call of an execution is made by the layer that follows the event. -/
theorem mem_calls_of_mem_executions {handler : Handler σ} {event : String} {now : Instant}
    {limit : Nat} {world : σ} {execution : Execution σ} {call : Call}
    (hexecution : execution ∈ layer.executions handler event now limit world)
    (hcall : execution.call? = some call) :
    (execution.world, call) ∈ (layer.follow event now limit).calls handler world := by
  have hmade : execution.made? = some (execution.world, call) := by
    rw [Execution.made?, hcall, Option.map_some]
  have hfiltered := List.mem_filterMap.mpr ⟨execution, hexecution, hmade⟩
  rw [← filter_calls_follow] at hfiltered
  exact (List.mem_filter.mp hfiltered).1

/-- A walk does not write the lines that a layer may ask for. -/
theorem ne_traced_of_mem_calls {handler : Handler σ} {event : String} {now : Instant} {limit : Nat}
    {world mid : σ} {line : Diagnostic}
    (hcall : (mid, .log line) ∈ (layer.follow event now limit).calls handler world) (id : LayerId)
    (text : String) : line ≠ .traced id text := by
  rintro rfl
  obtain ⟨execution, _, _, hmade⟩ := exists_execution_of_mem_calls hcall rfl
  obtain ⟨value, outcome, hline⟩ :=
    Verb.exists_compared_of_call? (Execution.call?_of_verb hmade)
  cases hline

end Layer

end LayeredMachines
