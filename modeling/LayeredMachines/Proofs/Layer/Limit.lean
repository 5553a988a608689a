import LayeredMachines.Proofs.Layer.Closing
import LayeredMachines.Proofs.Layer.Paths
import LayeredMachines.Proofs.Layer.Renaming

/-!
# The limit of a walk

A walk may make a limited number of moves. The limit does not change what the walk does, but only
how long it goes on: a walk that is not stopped is the same under every larger limit, and one that
is stopped has done what it would have begun with under a larger one.
-/

namespace LayeredMachines

/-- The call says that a walk is stopped by its limit. -/
def Call.isStopped : Call → Bool
  | .log (.stopped ..) => true
  | _ => false

/-- The call announces a move. -/
def Call.announcesMove : Call → Bool
  | .log (.moving ..) => true
  | _ => false

/-- The positions that a search leads from and to, if it finds a state. -/
def Lookup.move? (lookup : Lookup) : Option (Nat × Nat) :=
  lookup.position?.map (lookup.layer.current, ·)

/-- All there is to a walk: the layer and the world at its end, the calls that it made, and the
positions between which it moved. -/
structure Tour (σ : Type) where
  layer : Layer
  world : σ
  calls : List Call
  moves : List (Nat × Nat)

attribute [ext] Tour

namespace Layer

variable {σ : Type} {layer other : Layer} {state next : State} {position : Nat} {target : String}

/-- The tour of a layer that follows an event. -/
def tour (handler : Handler σ) (layer : Layer) (event : String) (now : Instant) (limit : Nat)
    (world : σ) : Tour σ where
  layer := ((layer.follow event now limit).run handler world).1
  world := ((layer.follow event now limit).run handler world).2
  calls := (layer.follow event now limit).trace handler world
  moves := (layer.stepsOf handler event now limit world).map fun step =>
    (step.source, step.target)

/-- The tour of a walk with a number of moves left out of `limit`. -/
def walkTour (handler : Handler σ) (event : String) (now : Instant) (limit remaining : Nat)
    (state : State) (previous : String) (selected : Option String) (layer : Layer) (world : σ) :
    Tour σ where
  layer := ((walk event now limit remaining state previous selected layer).run handler world).1
  world := ((walk event now limit remaining state previous selected layer).run handler world).2
  calls := (walk event now limit remaining state previous selected layer).trace handler world
  moves := (walkLookups handler event now remaining state previous selected layer
    world).filterMap Lookup.move?

end Layer

namespace Tour

variable {σ : Type} {cut full : Tour σ} {limit : Nat}

/-- The first tour has ended within a number of moves, and the second one is the same at another
time. -/
structure IsSame (cut full : Tour σ) (limit : Nat) : Prop where
  layer : cut.layer.Renames .timeless full.layer
  world_eq : full.world = cut.world
  calls_eq : full.calls = cut.calls
  moves_eq : full.moves = cut.moves
  not_stopped : ∀ call ∈ cut.calls, call.isStopped = false
  announced_le : cut.calls.countP Call.announcesMove ≤ limit
  moves_le : cut.moves.length ≤ limit

/-- The first tour was stopped after a number of moves, and the second one begins like it. -/
structure IsCut (cut full : Tour σ) (limit : Nat) (before : List Call) (line : Diagnostic) :
    Prop where
  calls_eq : cut.calls = before ++ [.log line]
  stopped : (Call.log line).isStopped = true
  not_stopped : ∀ call ∈ before, call.isStopped = false
  before_prefix : before <+: full.calls
  moves_prefix : cut.moves <+: full.moves
  announced_eq : before.countP Call.announcesMove = limit
  moves_eq : cut.moves.length = limit

/-- Of two tours the first one has ended or was stopped. -/
def Agrees (cut full : Tour σ) (limit : Nat) : Prop :=
  cut.IsSame full limit ∨ ∃ before line, cut.IsCut full limit before line

/-- The tour after a move, which made some calls. -/
def after (tour : Tour σ) (calls : List Call) (move : Nat × Nat) : Tour σ :=
  { tour with calls := calls ++ tour.calls, moves := move :: tour.moves }

/-- Tours that agree after the same move agree. -/
theorem Agrees.after (h : cut.Agrees full limit) {calls : List Call}
    (hcalls : ∀ call ∈ calls, call.isStopped = false)
    (hannounced : calls.countP Call.announcesMove = 1) (move : Nat × Nat) :
    (cut.after calls move).Agrees (full.after calls move) (limit + 1) := by
  rcases h with h | ⟨before, line, h⟩
  · left
    exact
      { layer := h.layer
        world_eq := h.world_eq
        calls_eq := congrArg (calls ++ ·) h.calls_eq
        moves_eq := congrArg (move :: ·) h.moves_eq
        not_stopped := List.forall_mem_append.mpr ⟨hcalls, h.not_stopped⟩
        announced_le := by
          have hle := h.announced_le
          simp only [Tour.after, List.countP_append]
          omega
        moves_le := Nat.succ_le_succ h.moves_le }
  · right
    refine ⟨calls ++ before, line, ?_⟩
    exact
      { calls_eq := by simp only [Tour.after, h.calls_eq, List.append_assoc]
        stopped := h.stopped
        not_stopped := List.forall_mem_append.mpr ⟨hcalls, h.not_stopped⟩
        before_prefix := (List.prefix_append_right_inj calls).mpr h.before_prefix
        moves_prefix := List.cons_prefix_cons.mpr ⟨rfl, h.moves_prefix⟩
        announced_eq := by
          rw [List.countP_append, hannounced, h.announced_eq, Nat.add_comm]
        moves_eq := congrArg Nat.succ h.moves_eq }

end Tour

namespace Layer

variable {σ : Type} {layer other : Layer} {state next : State} {position : Nat} {target : String}

/-! ### One move -/

/-- No axion stops a walk or announces a move. -/
theorem of_call? {execution : Execution σ} {call : Call} (hcall : execution.call? = some call) :
    call.isStopped = false ∧ call.announcesMove = false := by
  have hown : call.isOfWalk = false := Verb.isOfWalk_of_call? (Execution.call?_of_verb hcall)
  cases call with
  | log line => cases line <;> simp_all [Call.isOfWalk, Call.isStopped, Call.announcesMove]
  | _ => exact ⟨rfl, rfl⟩

/-- The calls of a move neither stop a walk nor announce a move. -/
theorem of_mem_trace_move (handler : Handler σ) (layer : Layer) (source next : State)
    (position : Nat) (context : WalkContext) (now : Instant) (world : σ) :
    ∀ call ∈ (layer.move source next position context now).trace handler world,
      call.isStopped = false ∧ call.announcesMove = false := by
  intro call hcall
  rw [← Program.map_snd_calls, calls_move] at hcall
  obtain ⟨made, hmade, rfl⟩ := List.mem_map.mp hcall
  obtain ⟨execution, _, hexecution⟩ := List.mem_filterMap.mp hmade
  obtain ⟨call, hmakes, rfl⟩ := Option.map_eq_some_iff.mp hexecution
  exact of_call? hmakes

/-- The calls that a layer makes for a move, from the announcement on. -/
def moveCalls (handler : Handler σ) (event : String) (now : Instant) (state next : State)
    (position : Nat) (previous target : String) (layer : Layer) (world : σ) : List Call :=
  let announcement := Call.log (.moving layer.id state.label event target)
  announcement :: (layer.move state next position ⟨event, previous⟩ now).trace handler
    (handler announcement world).2

theorem not_stopped_moveCalls (handler : Handler σ) (event : String) (now : Instant)
    (state next : State) (position : Nat) (previous target : String) (layer : Layer) (world : σ) :
    ∀ call ∈ moveCalls handler event now state next position previous target layer world,
      call.isStopped = false := by
  refine List.forall_mem_cons.mpr ⟨rfl, fun call hcall => ?_⟩
  exact (of_mem_trace_move _ _ _ _ _ _ _ _ call hcall).1

theorem countP_moveCalls (handler : Handler σ) (event : String) (now : Instant)
    (state next : State) (position : Nat) (previous target : String) (layer : Layer) (world : σ) :
    (moveCalls handler event now state next position previous target layer world).countP
      Call.announcesMove = 1 := by
  have hmove : ((layer.move state next position ⟨event, previous⟩ now).trace handler
      (handler (.log (.moving layer.id state.label event target)) world).2).countP
        Call.announcesMove = 0 := by
    refine List.countP_eq_zero.mpr fun call hcall => ?_
    rw [(of_mem_trace_move _ _ _ _ _ _ _ _ call hcall).2]
    exact Bool.false_ne_true
  rw [moveCalls, List.countP_cons_of_pos rfl, hmove]

/-- A walk that finds a state moves there first. -/
theorem walkTour_of_search? (handler : Handler σ) (event : String) (now : Instant)
    (limit remaining : Nat) (previous : String) (world : σ)
    (hfound : layer.machine.search? layer.current target = some (next, position)) :
    let moved := (layer.move state next position ⟨event, previous⟩ now).run handler
      (handler (.log (.moving layer.id state.label event target)) world).2
    let rest : Tour σ :=
      if position == layer.current then
        let complaint := Call.log (.notFound moved.1.2.id next.label event target)
        ⟨moved.1.2, (handler complaint moved.2).2, [complaint], []⟩
      else
        walkTour handler event now limit remaining next (moved.1.1.getD previous)
          (next.next? (moved.1.1.getD "")) moved.1.2 moved.2
    walkTour handler event now limit (remaining + 1) state previous (some target) layer world =
      rest.after
        (moveCalls handler event now state next position previous target layer world)
        (layer.current, position) := by
  intro moved rest
  have hmove : Lookup.move? ⟨layer, event, target⟩ = some (layer.current, position) := by
    simp [Lookup.move?, Lookup.position?, Machine.locate?, hfound]
  unfold walkTour
  rw [walk_of_search? _ _ _ _ _ hfound, walkLookups_of_search? _ _ _ _ _ _ hfound,
    List.filterMap_cons_some hmove]
  simp only [Program.run_bind, Program.run_log, Program.trace_bind, Program.trace_log]
  subst rest
  cases hback : position == layer.current <;> rfl

/-- A walk for which no move is selected is over. -/
theorem walkTour_none (handler : Handler σ) (event : String) (now : Instant)
    (limit remaining : Nat) (state : State) (previous : String) (layer : Layer) (world : σ) :
    walkTour handler event now limit remaining state previous none layer world =
      ⟨layer, world, [], []⟩ := by
  cases remaining <;> rfl

/-- A walk that finds nothing is over when it has said so. -/
theorem walkTour_of_search?_eq_none (handler : Handler σ) (event : String) (now : Instant)
    (limit remaining : Nat) (previous : String) (world : σ)
    (hfound : layer.machine.search? layer.current target = none) :
    let announcement := Call.log (.moving layer.id state.label event target)
    let complaint := Call.log (.notFound layer.id state.label event target)
    walkTour handler event now limit (remaining + 1) state previous (some target) layer world =
      ⟨layer, (handler complaint (handler announcement world).2).2, [announcement, complaint],
        []⟩ := by
  have hmove : Lookup.move? ⟨layer, event, target⟩ = none := by
    simp [Lookup.move?, Lookup.position?, Machine.locate?, hfound]
  simp only [walkTour, walk, walkLookups, hfound, List.filterMap_cons_none hmove]
  rfl

/-! ### Two walks -/

/-- Layers that differ in the times of their moves only make the same move, with the same calls. -/
theorem run_move_of_timeless (handler : Handler σ) (h : layer.Renames .timeless other)
    (source next : State) (position : Nat) (context : WalkContext) (now later : Instant)
    (world : σ) :
    let moved := (layer.move source next position context now).run handler world
    let followed := (other.move source next position context later).run handler world
    (other.move source next position context later).trace handler world =
        (layer.move source next position context now).trace handler world ∧
      followed.2 = moved.2 ∧ followed.1.1 = moved.1.1 ∧
      moved.1.2.Renames .timeless followed.1.2 := by
  intro moved followed
  have hrespected := Likeness.isRespected_ofRenaming .timeless
  rw [← alike_ofRenaming] at h ⊢
  have hcontext : context.Alike (.ofRenaming .timeless) context := ⟨rfl, rfl⟩
  have htime : (Likeness.ofRenaming .timeless).instant now later := trivial
  obtain ⟨htrace, hworld, hresult, hlayer⟩ :=
    (h.move hrespected hcontext htime source next position).run_eq
      (fun _ _ hline => hline.eq_of_timeless) handler world
  have heq {result like : Option String} (hrel : Option.Rel Eq result like) : like = result := by
    cases hrel with
    | none => rfl
    | some hsame => rw [hsame]
  exact ⟨htrace.symm, hworld.symm, heq hresult, hlayer⟩

theorem moveCalls_of_timeless (handler : Handler σ) (event : String) (now later : Instant)
    (h : layer.Renames .timeless other) (state next : State) (position : Nat)
    (previous target : String) (world : σ) :
    moveCalls handler event later state next position previous target other world =
      moveCalls handler event now state next position previous target layer world := by
  have hid : other.id = layer.id := h.id_eq_of_timeless
  have htrace := (run_move_of_timeless handler h state next position ⟨event, previous⟩ now later
    (handler (.log (.moving layer.id state.label event target)) world).2).1
  rw [moveCalls, moveCalls, hid]
  exact congrArg (Call.log (.moving layer.id state.label event target) :: ·) htrace

/-- Walks for which no move is selected are over, and agree. -/
theorem agrees_of_none (handler : Handler σ) (event : String) (now later : Instant)
    {limit larger remaining more : Nat} (h : layer.Renames .timeless other) (state : State)
    (previous : String) (world : σ) :
    (walkTour handler event now limit remaining state previous none layer world).Agrees
      (walkTour handler event later larger more state previous none other world) remaining := by
  rw [walkTour_none, walkTour_none]
  exact .inl ⟨h, rfl, rfl, rfl, List.forall_mem_nil _, Nat.zero_le _, Nat.zero_le _⟩

/-- A walk agrees with one under a larger limit at another time. -/
theorem agrees_walk (handler : Handler σ) (event : String) (now later : Instant)
    {limit larger remaining more : Nat} (hle : remaining ≤ more) (state : State) (previous : String)
    (selected : Option String) (h : layer.Renames .timeless other) (world : σ) :
    (walkTour handler event now limit remaining state previous selected layer world).Agrees
      (walkTour handler event later larger more state previous selected other world) remaining := by
  induction remaining generalizing more state previous selected layer other world with
  | zero =>
    cases selected with
    | none => exact agrees_of_none handler event now later h state previous world
    | some target =>
      -- The walk is stopped here, whatever the other one does.
      refine .inr ⟨[], .stopped layer.id state.label event target limit, ?_⟩
      exact ⟨rfl, rfl, List.forall_mem_nil _, List.nil_prefix, List.nil_prefix, rfl, rfl⟩
  | succ remaining ih =>
    cases selected with
    | none => exact agrees_of_none handler event now later h state previous world
    | some target =>
      obtain ⟨more, rfl⟩ : ∃ rest, more = rest + 1 := ⟨more - 1, by omega⟩
      have hid : other.id = layer.id := h.id_eq_of_timeless
      have hsearch : other.machine.search? other.current target =
          layer.machine.search? layer.current target := by
        rw [h.machine_eq, h.current_eq]
      cases hfound : layer.machine.search? layer.current target with
      | none =>
        rw [walkTour_of_search?_eq_none _ _ _ _ _ _ _ hfound,
          walkTour_of_search?_eq_none _ _ _ _ _ _ _ (hsearch.trans hfound), hid]
        refine .inl ⟨h, rfl, rfl, rfl, ?_, ?_, Nat.zero_le _⟩
        · simp [Call.isStopped]
        · simp [Call.announcesMove, List.countP_cons]
      | some found =>
        obtain ⟨next, position⟩ := found
        obtain ⟨_, hworld, hresult, hmoved⟩ := run_move_of_timeless handler h state next
          position ⟨event, previous⟩ now later
          (handler (.log (.moving layer.id state.label event target)) world).2
        have hcalls := moveCalls_of_timeless handler event now later h state next position previous
          target world
        rw [walkTour_of_search? _ _ _ _ _ _ _ hfound,
          walkTour_of_search? _ _ _ _ _ _ _ (hsearch.trans hfound), hcalls, h.current_eq, hid]
        refine Tour.Agrees.after ?_ (not_stopped_moveCalls _ _ _ _ _ _ _ _ _ _)
          (countP_moveCalls _ _ _ _ _ _ _ _ _ _) _
        split
        · -- The layer has been there: both walks say so and are over.
          rw [hworld, hmoved.id_eq_of_timeless]
          refine .inl ⟨hmoved, rfl, rfl, rfl, ?_, ?_, Nat.zero_le _⟩
          · simp [Call.isStopped]
          · simp [Call.announcesMove]
        · rw [hworld, hresult]
          exact ih (Nat.le_of_succ_le_succ hle) _ _ _ hmoved _

/-! ### The end of the walk -/

/-- The moves of a layer that follows an event are what its searches lead to. -/
theorem moves_tour (handler : Handler σ) (layer : Layer) (event : String) (now : Instant)
    (limit : Nat) (world : σ) :
    (layer.tour handler event now limit world).moves =
      (layer.lookups handler event now limit world).filterMap Lookup.move? := by
  have hmove : (fun lookup => (Lookup.step? now lookup).map fun step => (step.source, step.target)) =
      Lookup.move? := by
    funext lookup
    rw [Lookup.step?, Lookup.move?, Option.map_map]
    rfl
  rw [tour, stepsOf, List.map_filterMap, hmove]

/-- A layer without a state has no tour to make. -/
theorem tour_of_state?_eq_none (hstate : layer.state? = none) (handler : Handler σ)
    (event : String) (now : Instant) (limit : Nat) (world : σ) :
    layer.tour handler event now limit world = ⟨layer, world, [], []⟩ := by
  simp [tour, follow, stepsOf, lookups, hstate]

/-- The tour when the layer where it ended has finished. -/
def finished (handler : Handler σ) (event : String) (walked : Tour σ) : Tour σ :=
  { walked with
    world := ((walked.layer.finish event).run handler walked.world).2
    calls := walked.calls ++ walked.layer.closing event }

/-- The tour of a layer with a state is that of its walk, and then the layer finishes. -/
theorem tour_of_state? (hstate : layer.state? = some state) (handler : Handler σ)
    (event : String) (now : Instant) (limit : Nat) (world : σ) :
    layer.tour handler event now limit world =
      finished handler event
        (walkTour handler event now limit limit state "" (state.next? event) layer world) := by
  apply Tour.ext
  · simp only [tour, follow_eq_walk hstate, Program.run_bind]
    exact (finish_yields_self _ event).run handler _
  · simp only [tour, follow_eq_walk hstate, Program.run_bind]
    rfl
  · simp only [tour, follow_eq_walk hstate, Program.trace_bind, trace_finish]
    rfl
  · rw [moves_tour, lookups, hstate]
    rfl

/-- Layers that differ in the times of their moves only finish alike. -/
theorem finish_of_timeless (handler : Handler σ) (h : layer.Renames .timeless other)
    (event : String) (world : σ) :
    other.closing event = layer.closing event ∧
      ((other.finish event).run handler world).2 = ((layer.finish event).run handler world).2 := by
  have hrespected := Likeness.isRespected_ofRenaming .timeless
  rw [← alike_ofRenaming] at h
  have hevent : (Likeness.ofRenaming .timeless).text event event := rfl
  obtain ⟨htrace, hworld, _⟩ :=
    (h.finish hrespected hevent).run_eq (fun _ _ hline => hline.eq_of_timeless) handler world
  rw [trace_finish, trace_finish] at htrace
  exact ⟨htrace.symm, hworld.symm⟩

/-- The calls at the end of a walk do not say that it was stopped, and announce no move. -/
theorem of_mem_closing {event : String} :
    ∀ call ∈ layer.closing event, call.isStopped = false ∧ call.announcesMove = false := by
  intro call hcall
  unfold closing at hcall
  split at hcall
  · split at hcall
    · rcases List.mem_append.mp hcall with hparting | hpop
      · obtain ⟨execution, _, hmakes⟩ := List.mem_filterMap.mp hparting
        exact of_call? hmakes
      · rw [List.mem_singleton.mp hpop]
        exact ⟨rfl, rfl⟩
    · exact absurd hcall List.not_mem_nil
  · exact absurd hcall List.not_mem_nil

/-- What is not among some calls is not counted in them. -/
private theorem countP_eq_zero_of {calls : List Call} {counts : Call → Bool}
    (hnone : ∀ call ∈ calls, counts call = false) : calls.countP counts = 0 := by
  refine List.countP_eq_zero.mpr fun call hcall => ?_
  rw [hnone call hcall]
  exact Bool.false_ne_true

theorem countP_closing (layer : Layer) (event : String) :
    (layer.closing event).countP Call.isStopped = 0 ∧
      (layer.closing event).countP Call.announcesMove = 0 :=
  ⟨countP_eq_zero_of fun call hcall => (of_mem_closing call hcall).1,
    countP_eq_zero_of fun call hcall => (of_mem_closing call hcall).2⟩

/-- A tour that has ended within a limit is the same under a larger one also when the layer has
finished. -/
theorem isSame_finished {cut full : Tour σ} {limit : Nat} (h : cut.IsSame full limit)
    (handler : Handler σ) (event : String) :
    (finished handler event cut).IsSame (finished handler event full) limit := by
  obtain ⟨hclosing, hworld⟩ := finish_of_timeless handler h.layer event cut.world
  exact
    { layer := h.layer
      world_eq := by simpa only [finished, h.world_eq] using hworld
      calls_eq := by simp only [finished, h.calls_eq, hclosing]
      moves_eq := h.moves_eq
      not_stopped := List.forall_mem_append.mpr
        ⟨h.not_stopped, fun call hcall => (of_mem_closing call hcall).1⟩
      announced_le := by
        have hle := h.announced_le
        have hnone := (countP_closing cut.layer event).2
        simp only [finished, List.countP_append]
        omega
      moves_le := h.moves_le }

/-- What a tour that was stopped consists of when the layer has finished. -/
theorem finished_of_isCut {cut full : Tour σ} {limit : Nat} {before : List Call}
    {line : Diagnostic} (h : cut.IsCut full limit before line) (handler : Handler σ)
    (event : String) :
    let stopped := finished handler event cut
    stopped.calls = before ++ .log line :: stopped.layer.closing event ∧
      stopped.calls.countP Call.announcesMove = limit ∧
      stopped.calls.countP Call.isStopped = 1 ∧
      before <+: (finished handler event full).calls := by
  intro stopped
  have hcalls : stopped.calls = before ++ .log line :: cut.layer.closing event := by
    simp only [stopped, finished, h.calls_eq, List.append_assoc, List.singleton_append]
  obtain ⟨hstops, hannounces⟩ := countP_closing cut.layer event
  have hbefore : before.countP Call.isStopped = 0 := countP_eq_zero_of h.not_stopped
  have hline : (Call.log line).announcesMove = false := by
    have hstopped := h.stopped
    cases line <;> first | rfl | exact absurd hstopped Bool.false_ne_true
  refine ⟨hcalls, ?_, ?_, h.before_prefix.trans (List.prefix_append _ _)⟩
  · rw [hcalls, List.countP_append, List.countP_cons_of_neg (by simp [hline]), hannounces,
      h.announced_eq, Nat.add_zero]
  · rw [hcalls, List.countP_append, List.countP_cons_of_pos h.stopped, hbefore, hstops]

/-! ### The theorem -/

/-- Whatever a layer follows, and however its calls are answered, it makes at most as many moves as
the limit allows, and announces no more. Its moves lead one after another along edges of its machine
from where it was to where it ends, and its history records them. A walk that does not say that it
was stopped is the same under every larger limit: it ends in the same layer, apart from the times in
its history, with the same calls and in the same world. A walk that says so has made as many moves
as the limit allows and says it once. Until then its moves and its calls are those with which the
walk under a larger limit begins, and after that only the calls of a finished layer follow. -/
theorem limit_only_cuts (handler : Handler σ) (layer : Layer) (event : String)
    (now later : Instant) {limit larger : Nat} (hle : limit ≤ larger) (world : σ) :
    let cut := layer.tour handler event now limit world
    let full := layer.tour handler event later larger world
    (∃ steps : List Step, cut.moves = steps.map (fun step => (step.source, step.target)) ∧
      layer.Advances steps cut.layer ∧ ∀ step ∈ steps, step.event = event) ∧
    (cut.moves.length ≤ limit ∧ cut.calls.countP Call.announcesMove ≤ limit) ∧
    ((∀ call ∈ cut.calls, call.isStopped = false) →
      cut.layer.Renames .timeless full.layer ∧ full.world = cut.world ∧
        full.calls = cut.calls ∧ full.moves = cut.moves) ∧
    ((∃ call ∈ cut.calls, call.isStopped = true) →
      cut.moves.length = limit ∧ cut.calls.countP Call.announcesMove = limit ∧
        cut.calls.countP Call.isStopped = 1 ∧
        ∃ before line, cut.calls = before ++ .log line :: cut.layer.closing event ∧
          (Call.log line).isStopped = true ∧ before <+: full.calls ∧
            cut.moves <+: full.moves) := by
  intro cut full
  refine ⟨⟨_, rfl, follow_advances handler layer event now limit world,
    fun _ => event_of_mem_stepsOf⟩, ?_⟩
  cases hstate : layer.state? with
  | none =>
    have hcut : cut = ⟨layer, world, [], []⟩ := tour_of_state?_eq_none hstate ..
    have hfull : full = ⟨layer, world, [], []⟩ := tour_of_state?_eq_none hstate ..
    rw [hcut, hfull]
    exact ⟨⟨Nat.zero_le _, Nat.zero_le _⟩, fun _ => ⟨.timeless layer, rfl, rfl, rfl⟩, by simp⟩
  | some state =>
    have hagrees : Tour.Agrees
        (walkTour handler event now limit limit state "" (state.next? event) layer world)
        (walkTour handler event later larger larger state "" (state.next? event) layer world)
        limit :=
      agrees_walk handler event now later hle state "" _ (.timeless layer) world
    rw [show cut = _ from tour_of_state? hstate handler event now limit world,
      show full = _ from tour_of_state? hstate handler event later larger world]
    rcases hagrees with hsame | ⟨before, line, hcut⟩
    · have hended := isSame_finished hsame handler event
      refine ⟨⟨hended.moves_le, hended.announced_le⟩,
        fun _ => ⟨hended.layer, hended.world_eq, hended.calls_eq, hended.moves_eq⟩, ?_⟩
      rintro ⟨call, hcall, hstops⟩
      exact absurd (hended.not_stopped call hcall) (by simp [hstops])
    · obtain ⟨hcalls, hannounced, hstopped, hprefix⟩ := finished_of_isCut hcut handler event
      refine ⟨⟨hcut.moves_eq.le, hannounced.le⟩, fun hnone => ?_, fun _ =>
        ⟨hcut.moves_eq, hannounced, hstopped, before, line, hcalls, hcut.stopped, hprefix,
          hcut.moves_prefix⟩⟩
      have hline : (Call.log line).isStopped = false := by
        apply hnone
        rw [hcalls]
        exact List.mem_append_cons_self
      exact absurd hcut.stopped (by simp [hline])

/-- A layer of a machine whose states lead to each other in a circle. -/
def circling : Layer :=
  create ⟨1⟩ ⟨"m", [(State.named "start").otherwise "ping",
    ((State.named "ping").onEntry "inc:label=n,value=1").otherwise "pong",
    (State.named "pong").otherwise "ping"]⟩ 0

/-- Every call of a circling layer is answered as if there were nothing to do. -/
def idle : Handler Unit
  | .count _, world => (0, world)
  | .execute _ _, world => ("", world)
  | .log _, world => ((), world)
  | .start _ _, world | .raise _, world | .blast _, world | .patch _ _, world | .write _ _, world
  | .timer _ _, world | .trace _, world | .pop, world => (.success, world)

/-- A circling layer is stopped after nine moves, which are the first of its twelve and lead to
where it ends. -/
theorem limit_only_cuts_of_circling :
    let cut := circling.tour idle "go" (.ofMillis 0) 9 ()
    let full := circling.tour idle "go" (.ofMillis 1) 12 ()
    9 ≤ 12 ∧ (∃ call ∈ cut.calls, call.isStopped = true) ∧ cut.moves.length = 9 ∧
      cut.moves <+: full.moves ∧
      ∃ steps : List Step, cut.moves = steps.map (fun step => (step.source, step.target)) ∧
        circling.machine.Path circling.current steps cut.layer.current := by
  intro cut full
  have hle : 9 ≤ 12 := by decide
  have hstopped : ∃ call ∈ cut.calls, call.isStopped = true := by decide +kernel
  obtain ⟨⟨steps, hsteps, hadvances, _⟩, _, _, hcut⟩ :=
    limit_only_cuts idle circling "go" (.ofMillis 0) (.ofMillis 1) hle ()
  obtain ⟨hmoves, _, _, _, _, _, _, _, hprefix⟩ := hcut hstopped
  exact ⟨hle, hstopped, hmoves, hprefix, steps, hsteps, hadvances.path⟩

end Layer

end LayeredMachines
