import LayeredMachines.Proofs.Layer.Closing
import Mathlib.Data.List.Chain

/-!
# The legs of a walk

A walk is made of moves, one after another. This file lists them with all that goes into each: the
layer and the world when the move is announced, what its axions are told, what was selected for it
and what was found. Each leg begins where the one before has ended. The calls of a walk are those of
its legs, and then at most two lines that say why it goes no further.
-/

namespace LayeredMachines

/-- A move of a walk: the layer and the world when it is announced, what its axions are told, the
state that the layer leaves, the label that was selected, and the state that was found for it, with
its position. -/
structure Leg (σ : Type) where
  layer : Layer
  world : σ
  context : WalkContext
  source : State
  target : String
  next : State
  position : Nat

/-- Where a walk stands between two moves: the layer, the state that it rests in, and the label that
is selected for the next move, if there is one. -/
structure Standing where
  layer : Layer
  state : State
  selected : Option String

namespace Leg

variable {σ : Type}

/-- The line that announces the move. -/
def announcement (leg : Leg σ) : Diagnostic :=
  .moving leg.layer.id leg.source.label leg.context.external leg.target

/-- The world when the move has been announced. -/
def outset (handler : Handler σ) (leg : Leg σ) : σ :=
  (handler (.log leg.announcement) leg.world).2

/-- The program of the move. -/
def program (now : Instant) (leg : Leg σ) : Program (Option String × Layer) :=
  leg.layer.move leg.source leg.next leg.position leg.context now

/-- What the move comes to: the result of the entry axion, if there is one, the layer, and the
world. -/
def run (handler : Handler σ) (now : Instant) (leg : Leg σ) : (Option String × Layer) × σ :=
  (leg.program now).run handler (leg.outset handler)

/-- The result of the entry axion, if there is one. -/
def result? (handler : Handler σ) (now : Instant) (leg : Leg σ) : Option String :=
  (leg.run handler now).1.1

/-- Where the walk stands after the move. The result of the entry axion selects what comes next, or
the empty event if there is no entry axion. -/
def stop (handler : Handler σ) (now : Instant) (leg : Leg σ) : Standing where
  layer := (leg.run handler now).1.2
  state := leg.next
  selected := leg.next.next? ((leg.result? handler now).getD "")

/-- The move leads to where the layer is. -/
def isReentry (leg : Leg σ) : Bool :=
  leg.position == leg.layer.current

/-- The line that complains about a move to where the layer is. -/
def complaint (handler : Handler σ) (now : Instant) (leg : Leg σ) : Diagnostic :=
  .notFound (leg.stop handler now).layer.id leg.next.label leg.context.external leg.target

/-- The calls of the move, from its announcement on. -/
def calls (handler : Handler σ) (now : Instant) (leg : Leg σ) : List Call :=
  .log leg.announcement :: (leg.program now).trace handler (leg.outset handler)

/-- The execution of the axion for leaving the state, if it has one. -/
def leaving (handler : Handler σ) (leg : Leg σ) : List (Execution σ) :=
  leg.layer.leaveExecutions leg.source .leave leg.context (leg.outset handler)

/-- The layer when it has left its state and rests in the next one, and the world then. -/
def left (handler : Handler σ) (now : Instant) (leg : Leg σ) : Layer × σ :=
  let (layer, world) := (leg.layer.leaveState leg.source .leave leg.context).run handler
    (leg.outset handler)
  (layer.moveTo leg.source leg.next leg.position leg.context.external now, world)

/-- The execution of the axion for entering the next state, if it has one. -/
def entering (handler : Handler σ) (now : Instant) (leg : Leg σ) : List (Execution σ) :=
  let (layer, world) := leg.left handler now
  layer.enterExecutions leg.next leg.context world

/-- The latest result of an entry axion among some moves, or what there was before. -/
def latestResult (handler : Handler σ) (now : Instant) (previous : String) (legs : List (Leg σ)) :
    String :=
  (legs.filterMap (result? handler now)).getLast?.getD previous

/-- A leg goes on where another one has ended, which has not led to where the layer was. -/
structure IsFollowedBy (handler : Handler σ) (now : Instant) (leg later : Leg σ) : Prop where
  not_reentry : leg.isReentry = false
  layer_eq : later.layer = (leg.stop handler now).layer
  source_eq : later.source = leg.next
  target_eq : (leg.stop handler now).selected = some later.target
  world_eq : later.world = (leg.run handler now).2

end Leg

namespace Standing

variable {σ : Type}

/-- The leg that a walk begins where it stands, if a label is selected and found. -/
def leg? (standing : Standing) (context : WalkContext) (world : σ) : Option (Leg σ) :=
  standing.selected.bind fun target =>
    (standing.layer.machine.search? standing.layer.current target).map fun (next, position) =>
      ⟨standing.layer, world, context, standing.state, target, next, position⟩

/-- The walk on from where it stands, with a number of moves left. -/
def walk (event : String) (now : Instant) (limit remaining : Nat) (previous : String)
    (standing : Standing) : Program Layer :=
  standing.layer.walk event now limit remaining standing.state previous standing.selected

/-- The lines that a walk writes when it makes no move from where it stands, with or without moves
left. -/
def ending (standing : Standing) (event : String) (limit : Nat) (isSpent : Bool) : List Call :=
  let layer := standing.layer
  match standing.selected with
  | none => []
  | some target =>
    if isSpent then [.log (.stopped layer.id standing.state.label event target limit)]
    else
      [.log (.moving layer.id standing.state.label event target),
        .log (.notFound layer.id standing.state.label event target)]

/-- The legs of a walk under a handler, in their order. -/
def legs (handler : Handler σ) (event : String) (now : Instant) :
    (remaining : Nat) → (previous : String) → Standing → σ → List (Leg σ)
  | 0, _, _, _ => []
  | remaining + 1, previous, standing, world =>
    match standing.leg? ⟨event, previous⟩ world with
    | none => []
    | some leg =>
      leg ::
        if leg.isReentry then []
        else
          legs handler event now remaining ((leg.result? handler now).getD previous)
            (leg.stop handler now) (leg.run handler now).2

/-- Where a walk stands that began somewhere and has made some legs. -/
def after (handler : Handler σ) (now : Instant) (standing : Standing) (legs : List (Leg σ)) :
    Standing :=
  (legs.getLast?.map (Leg.stop handler now)).getD standing

/-- The lines with which a walk ends that began somewhere with a number of moves left and has made
some legs. -/
def lastLines (handler : Handler σ) (event : String) (now : Instant) (limit remaining : Nat)
    (standing : Standing) (legs : List (Leg σ)) : List Call :=
  match legs.getLast? with
  | none => standing.ending event limit (remaining == 0)
  | some leg =>
    if leg.isReentry then [.log (leg.complaint handler now)]
    else (leg.stop handler now).ending event limit (legs.length == remaining)

end Standing

namespace Layer

variable {σ : Type}

/-- The walk of a layer that follows an event, until it comes to rest. -/
def stroll (layer : Layer) (event : String) (now : Instant) (limit : Nat) : Program Layer :=
  match layer.state? with
  | some state => walk event now limit limit state "" (state.next? event) layer
  | none => pure layer

/-- Where a layer stands when it is to follow an event. -/
def stand (layer : Layer) (state : State) (event : String) : Standing :=
  ⟨layer, state, state.next? event⟩

/-- The legs of a layer that follows an event. -/
def legs (handler : Handler σ) (layer : Layer) (event : String) (now : Instant) (limit : Nat)
    (world : σ) : List (Leg σ) :=
  match layer.state? with
  | some state => (layer.stand state event).legs handler event now limit "" world
  | none => []

end Layer

/-! ### One leg -/

/-- A result counts as long as there is no later one. -/
theorem Leg.latestResult_cons {σ : Type} (handler : Handler σ) (now : Instant) (previous : String)
    (leg : Leg σ) (legs : List (Leg σ)) :
    latestResult handler now previous (leg :: legs) =
      latestResult handler now ((leg.result? handler now).getD previous) legs := by
  unfold latestResult
  cases hresult : leg.result? handler now with
  | none => rw [List.filterMap_cons_none hresult, Option.getD_none]
  | some result =>
    rw [List.filterMap_cons_some hresult, List.getLast?_cons, Option.getD_some, Option.getD_some]

/-- A leg announces its move, leaves the state, and then enters the next one. -/
theorem Leg.calls_eq {σ : Type} (handler : Handler σ) (now : Instant) (leg : Leg σ) :
    leg.calls handler now = .log leg.announcement ::
      (leg.leaving handler ++ leg.entering handler now).filterMap Execution.call? := by
  unfold calls program
  rw [← Program.map_snd_calls, Layer.calls_move, Execution.map_snd_filterMap_made?]
  rfl

namespace Standing

variable {σ : Type} {standing : Standing} {context : WalkContext} {world : σ} {leg : Leg σ}

/-- A leg begins where the walk stands, and leads to the state that was found. -/
theorem of_leg?_eq_some (hleg : standing.leg? context world = some leg) :
    leg.layer = standing.layer ∧ leg.source = standing.state ∧ leg.context = context ∧
      leg.world = world ∧ standing.selected = some leg.target ∧
      leg.layer.machine.search? leg.layer.current leg.target = some (leg.next, leg.position) := by
  obtain ⟨target, hselected, hmap⟩ := Option.bind_eq_some_iff.mp hleg
  obtain ⟨⟨next, position⟩, hfound, rfl⟩ := Option.map_eq_some_iff.mp hmap
  exact ⟨rfl, rfl, rfl, rfl, hselected, hfound⟩

/-- A walk that begins a leg makes its calls, and goes on unless that has led to where the layer
was. -/
theorem trace_walk_of_leg? (handler : Handler σ) {event previous : String} (now : Instant)
    (limit remaining : Nat) (hleg : standing.leg? ⟨event, previous⟩ world = some leg) :
    let rest := walk event now limit remaining ((leg.result? handler now).getD previous)
      (leg.stop handler now)
    (standing.walk event now limit (remaining + 1) previous).trace handler world =
        leg.calls handler now ++
          (if leg.isReentry then [.log (leg.complaint handler now)]
          else rest.trace handler (leg.run handler now).2) ∧
      ((standing.walk event now limit (remaining + 1) previous).run handler world).1 =
        if leg.isReentry then (leg.stop handler now).layer
        else (rest.run handler (leg.run handler now).2).1 := by
  intro rest
  obtain ⟨target, hselected, hmap⟩ := Option.bind_eq_some_iff.mp hleg
  obtain ⟨⟨next, position⟩, hfound, rfl⟩ := Option.map_eq_some_iff.mp hmap
  rw [walk, hselected, Layer.walk_of_search? _ _ _ _ _ hfound, Program.trace_bind, Program.run_bind,
    Program.trace_log, Program.run_log, Program.trace_bind, Program.run_bind]
  by_cases hback : (position == standing.layer.current) = true
  · simp only [Leg.isReentry, hback, if_true]
    exact ⟨rfl, rfl⟩
  · simp only [Leg.isReentry, hback, if_false, Bool.false_eq_true]
    exact ⟨rfl, rfl⟩

/-- A walk that begins no leg writes the lines for it. -/
theorem trace_walk_of_leg?_eq_none (handler : Handler σ) {event previous : String} (now : Instant)
    (limit remaining : Nat) (hleg : standing.leg? ⟨event, previous⟩ world = none) :
    (standing.walk event now limit (remaining + 1) previous).trace handler world =
        standing.ending event limit false ∧
      ((standing.walk event now limit (remaining + 1) previous).run handler world).1 =
        standing.layer := by
  obtain ⟨layer, state, selected⟩ := standing
  cases selected with
  | none => exact ⟨rfl, rfl⟩
  | some target =>
    have hfound : layer.machine.search? layer.current target = none := by
      simpa [leg?] using hleg
    simp [walk, Layer.walk, ending, hfound]

/-! ### All legs -/

theorem legs_of_leg? (handler : Handler σ) {event previous : String} (now : Instant)
    (remaining : Nat) (hleg : standing.leg? ⟨event, previous⟩ world = some leg) :
    standing.legs handler event now (remaining + 1) previous world =
      leg ::
        if leg.isReentry then []
        else
          legs handler event now remaining ((leg.result? handler now).getD previous)
            (leg.stop handler now) (leg.run handler now).2 := by
  rw [legs, hleg]

theorem legs_of_leg?_eq_none (handler : Handler σ) {event previous : String} (now : Instant)
    (remaining : Nat) (hleg : standing.leg? ⟨event, previous⟩ world = none) :
    standing.legs handler event now (remaining + 1) previous world = [] := by
  rw [legs, hleg]

/-- The first leg begins where the walk began. -/
theorem of_mem_head?_legs (handler : Handler σ) {event : String} {now : Instant} {remaining : Nat}
    {previous : String}
    (hleg : leg ∈ (standing.legs handler event now remaining previous world).head?) :
    leg.layer = standing.layer ∧ leg.source = standing.state ∧ leg.world = world ∧
      standing.selected = some leg.target := by
  cases remaining with
  | zero => simp [legs] at hleg
  | succ remaining =>
    cases hfirst : standing.leg? ⟨event, previous⟩ world with
    | none => simp [legs_of_leg?_eq_none _ _ _ hfirst] at hleg
    | some first =>
      rw [legs_of_leg? _ _ _ hfirst, List.head?_cons] at hleg
      obtain rfl : first = leg := Option.mem_some_iff.mp hleg
      obtain ⟨hlayer, hsource, _, hworld, hselected, _⟩ := of_leg?_eq_some hfirst
      exact ⟨hlayer, hsource, hworld, hselected⟩

/-- Each leg goes on where the one before has ended. -/
theorem isChain_legs (handler : Handler σ) (event : String) (now : Instant) (remaining : Nat)
    (previous : String) (standing : Standing) (world : σ) :
    (standing.legs handler event now remaining previous world).IsChain
      (Leg.IsFollowedBy handler now) := by
  induction remaining generalizing previous standing world with
  | zero => exact .nil
  | succ remaining ih =>
    cases hleg : standing.leg? ⟨event, previous⟩ world with
    | none =>
      rw [legs_of_leg?_eq_none _ _ _ hleg]
      exact .nil
    | some leg =>
      rw [legs_of_leg? _ _ _ hleg]
      by_cases hback : leg.isReentry = true
      · rw [if_pos hback]
        exact .singleton leg
      · rw [if_neg hback]
        refine List.isChain_cons.mpr ⟨fun later hlater => ?_, ih _ _ _⟩
        obtain ⟨hlayer, hsource, hworld, hselected⟩ := of_mem_head?_legs handler hlater
        exact ⟨Bool.eq_false_iff.mpr hback, hlayer, hsource, hselected, hworld⟩

/-- The layer of each leg rests in the state that it leaves, and the state found has the place that
was found for it. -/
theorem of_mem_legs (handler : Handler σ) {event : String} {now : Instant} {remaining : Nat}
    {previous : String} (hstate : standing.layer.state? = some standing.state)
    (hleg : leg ∈ standing.legs handler event now remaining previous world) :
    leg.layer.state? = some leg.source ∧
      leg.layer.machine.search? leg.layer.current leg.target = some (leg.next, leg.position) := by
  induction remaining generalizing previous standing world with
  | zero => simp [legs] at hleg
  | succ remaining ih =>
    cases hfirst : standing.leg? ⟨event, previous⟩ world with
    | none => simp [legs_of_leg?_eq_none _ _ _ hfirst] at hleg
    | some first =>
      obtain ⟨hlayer, hsource, _, _, _, hfound⟩ := of_leg?_eq_some hfirst
      rw [legs_of_leg? _ _ _ hfirst] at hleg
      rcases List.mem_cons.mp hleg with rfl | hlater
      · rw [hlayer, hsource]
        exact ⟨hstate, hlayer ▸ hfound⟩
      · by_cases hback : first.isReentry = true
        · simp [hback] at hlater
        · rw [if_neg hback] at hlater
          have hmoved := (Layer.move_yields first.source first.context now hfound).run handler
            (first.outset handler)
          exact ih hmoved.2.2 hlater

/-- The axions of a leg are told the event and the latest result of the legs before it. -/
theorem context_of_legs_eq (handler : Handler σ) {event : String} {now : Instant} {remaining : Nat}
    {previous : String} {before later : List (Leg σ)}
    (hlegs : standing.legs handler event now remaining previous world = before ++ leg :: later) :
    leg.context = ⟨event, Leg.latestResult handler now previous before⟩ := by
  induction remaining generalizing previous standing world before with
  | zero => simp [legs] at hlegs
  | succ remaining ih =>
    cases hfirst : standing.leg? ⟨event, previous⟩ world with
    | none => simp [legs_of_leg?_eq_none _ _ _ hfirst] at hlegs
    | some first =>
      rw [legs_of_leg? _ _ _ hfirst] at hlegs
      cases before with
      | nil =>
        obtain ⟨rfl, _⟩ := List.cons.inj hlegs
        exact (of_leg?_eq_some hfirst).2.2.1
      | cons earlier before =>
        obtain ⟨rfl, hrest⟩ := List.cons.inj hlegs
        by_cases hback : first.isReentry = true
        · simp [hback] at hrest
        · rw [if_neg hback] at hrest
          rw [ih hrest, Leg.latestResult_cons]

/-- Where a walk ends, and what it writes then, depends on its last leg only. -/
theorem lastLines_cons (handler : Handler σ) (event : String) (now : Instant)
    (limit remaining : Nat) (standing : Standing) (legs : List (Leg σ))
    (hgoes : leg.isReentry = false) :
    standing.lastLines handler event now limit (remaining + 1) (leg :: legs) =
        (leg.stop handler now).lastLines handler event now limit remaining legs ∧
      standing.after handler now (leg :: legs) = (leg.stop handler now).after handler now legs := by
  unfold lastLines after
  rw [List.getLast?_cons, List.length_cons]
  cases hlast : legs.getLast? with
  | none =>
    obtain rfl := List.getLast?_eq_none_iff.mp hlast
    simp [hgoes]
  | some last => simp

/-- The calls of a walk are those of its legs, and then the lines with which it ends. Its layer is
the one after the last leg. -/
theorem trace_walk (handler : Handler σ) (event : String) (now : Instant) (limit remaining : Nat)
    (previous : String) (standing : Standing) (world : σ) :
    let legs := standing.legs handler event now remaining previous world
    (standing.walk event now limit remaining previous).trace handler world =
        legs.flatMap (Leg.calls handler now) ++
          standing.lastLines handler event now limit remaining legs ∧
      ((standing.walk event now limit remaining previous).run handler world).1 =
        (standing.after handler now legs).layer := by
  induction remaining generalizing previous standing world with
  | zero =>
    obtain ⟨layer, state, selected⟩ := standing
    cases selected <;> exact ⟨rfl, rfl⟩
  | succ remaining ih =>
    cases hleg : standing.leg? ⟨event, previous⟩ world with
    | none =>
      rw [legs_of_leg?_eq_none _ _ _ hleg]
      exact trace_walk_of_leg?_eq_none handler now limit remaining hleg
    | some leg =>
      obtain ⟨htrace, hrun⟩ := trace_walk_of_leg? handler now limit remaining hleg
      rw [legs_of_leg? _ _ _ hleg, htrace, hrun]
      by_cases hback : leg.isReentry = true
      · simp only [hback, if_true, List.flatMap_singleton]
        exact ⟨by simp [lastLines, hback], rfl⟩
      · simp only [hback, if_false, Bool.false_eq_true]
        obtain ⟨hlines, hafter⟩ := lastLines_cons handler event now limit remaining standing
          (legs handler event now remaining ((leg.result? handler now).getD previous)
            (leg.stop handler now) (leg.run handler now).2) (Bool.eq_false_iff.mpr hback)
        obtain ⟨hrest, hlayer⟩ := ih ((leg.result? handler now).getD previous)
          (leg.stop handler now) (leg.run handler now).2
        rw [hrest, hlayer, hlines, hafter, List.flatMap_cons, List.append_assoc]
        exact ⟨rfl, rfl⟩

end Standing

/-! ### The legs of a layer -/

namespace Layer

variable {σ : Type} {layer : Layer} {state : State}

/-- A layer follows an event until it comes to rest, and then finishes. -/
theorem follow_eq_stroll (layer : Layer) (event : String) (now : Instant) (limit : Nat) :
    layer.follow event now limit =
      layer.stroll event now limit >>= fun rest => rest.finish event := by
  unfold stroll
  cases hstate : layer.state? with
  | none =>
    have hfinish : layer.finish event = pure layer := by
      unfold finish
      rw [hstate]
    dsimp only
    rw [pure_bind, hfinish]
    unfold follow
    rw [hstate]
  | some state => exact follow_eq_walk hstate event now limit

/-- A layer that follows an event makes the calls of its walk and then those of a finished layer. It
ends as it has come to rest. -/
theorem trace_follow (handler : Handler σ) (layer : Layer) (event : String) (now : Instant)
    (limit : Nat) (world : σ) :
    let rest := ((layer.stroll event now limit).run handler world).1
    (layer.follow event now limit).trace handler world =
        (layer.stroll event now limit).trace handler world ++ rest.closing event ∧
      ((layer.follow event now limit).run handler world).1 = rest := by
  intro rest
  rw [follow_eq_stroll, Program.trace_bind, Program.run_bind, trace_finish]
  exact ⟨rfl, (finish_yields_self rest event).run handler _⟩

/-- A layer with a state walks from where it stands. -/
theorem stroll_of_state? (hstate : layer.state? = some state) (event : String) (now : Instant)
    (limit : Nat) :
    layer.stroll event now limit = (layer.stand state event).walk event now limit limit "" := by
  unfold stroll
  rw [hstate]
  rfl

theorem legs_of_state? (handler : Handler σ) (hstate : layer.state? = some state) (event : String)
    (now : Instant) (limit : Nat) (world : σ) :
    layer.legs handler event now limit world =
      (layer.stand state event).legs handler event now limit "" world := by
  unfold legs
  rw [hstate]

/-- The calls of a layer until it comes to rest are those of its legs, and then the lines with which
its walk ends. It comes to rest after the last leg. -/
theorem trace_stroll (handler : Handler σ) (hstate : layer.state? = some state) (event : String)
    (now : Instant) (limit : Nat) (world : σ) :
    let legs := layer.legs handler event now limit world
    (layer.stroll event now limit).trace handler world =
        legs.flatMap (Leg.calls handler now) ++
          (layer.stand state event).lastLines handler event now limit limit legs ∧
      ((layer.stroll event now limit).run handler world).1 =
        ((layer.stand state event).after handler now legs).layer := by
  rw [stroll_of_state? hstate, legs_of_state? handler hstate]
  exact Standing.trace_walk handler event now limit limit "" (layer.stand state event) world

end Layer

end LayeredMachines
