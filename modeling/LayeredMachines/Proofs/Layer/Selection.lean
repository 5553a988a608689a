import LayeredMachines.Proofs.Layer.Legs
import LayeredMachines.Proofs.Layer.Limit
import LayeredMachines.Proofs.Machine.Validity

/-!
# What selects the moves of a walk

The event that a layer follows selects its first move. Every later move is selected by the entry
axion of the state that the move before has led to: by its result, or by the empty event if there is
no such axion, which only a wildcard answers. The axions for leaving states have no say in it. What
`use` sees is the result of the latest entry axion in the same walk.
-/

namespace LayeredMachines

namespace Execution

variable {σ : Type} {execution : Execution σ}

/-- The result of an execution in its world. -/
def result (handler : Handler σ) (execution : Execution σ) : String :=
  ((executeText execution.text execution.phase execution.context execution.layer.id
    execution.layer.frames).run handler execution.world).1.1

theorem result_mk (handler : Handler σ) (text : String) (phase : Phase) (context : WalkContext)
    (layer : Layer) (world : σ) :
    result handler ⟨text, phase, context, layer, world⟩ =
      ((executeText text phase context layer.id layer.frames).run handler world).1.1 := rfl

/-- Only an entry has a result. -/
theorem result_of_ne_entry (handler : Handler σ) (hphase : execution.phase ≠ .entry) :
    execution.result handler = "" := by
  obtain ⟨text, phase, context, layer, world⟩ := execution
  rw [result_mk]
  unfold executeText
  dsimp only
  generalize ((Axion.split text).expand layer.frames).toVerb = verb
  cases phase with
  | entry => exact absurd rfl hphase
  | leave =>
    dsimp only
    rw [Program.run_bind]
    rfl
  | final =>
    dsimp only
    split
    · rw [Program.run_bind]
      rfl
    · rfl

/-- On an entry `use` has the result that the walk has told it. -/
theorem result_of_use (handler : Handler σ) (hphase : execution.phase = .entry)
    (hverb : execution.verb = .use) : execution.result handler = execution.context.previous := by
  obtain ⟨text, phase, context, layer, world⟩ := execution
  obtain rfl : phase = .entry := hphase
  have huse : ((Axion.split text).expand layer.frames).toVerb = .use := hverb
  rw [result_mk]
  unfold executeText
  dsimp only
  rw [huse]
  rfl

end Execution

/-- The result of entering a state is that of its axion, if it has one. -/
theorem Layer.result_enterState {σ : Type} (handler : Handler σ) (layer : Layer) (state : State)
    (context : WalkContext) (world : σ) :
    ((layer.enterState state context).run handler world).1.1 =
      ((layer.enterExecutions state context world).map (Execution.result handler)).head? := by
  have hresult := Execution.result_mk handler state.entry .entry context layer world
  unfold enterState enterExecutions
  generalize executeText state.entry .entry context layer.id layer.frames = program at hresult ⊢
  split
  · rfl
  · rw [Program.run_bind, List.map_singleton, List.head?_cons, hresult]
    rfl

namespace Leg

variable {σ : Type}

/-- The result of a leg is that of the axion for entering the next state. -/
theorem result?_eq (handler : Handler σ) (now : Instant) (leg : Leg σ) :
    leg.result? handler now =
      ((leg.entering handler now).map (Execution.result handler)).head? := by
  unfold result? run program Layer.move
  rw [Program.run_bind]
  exact Layer.result_enterState handler _ leg.next leg.context _

/-- The state is left when the layer still rests in it, and leaving it has no result. -/
theorem of_mem_leaving (handler : Handler σ) {leg : Leg σ} {execution : Execution σ}
    (hmem : execution ∈ leg.leaving handler) :
    execution.layer = leg.layer ∧ execution.result handler = "" := by
  unfold leaving Layer.leaveExecutions at hmem
  split at hmem
  · exact absurd hmem List.not_mem_nil
  · obtain rfl := List.mem_singleton.mp hmem
    have hphase : Phase.leave ≠ .entry := by decide
    exact ⟨rfl, Execution.result_of_ne_entry handler hphase⟩

/-- Apart from its variables, a layer that has left its state is the one that has made the move. -/
theorem exists_left_eq (handler : Handler σ) (now : Instant) (leg : Leg σ) :
    ∃ frames, (leg.left handler now).1 =
      { leg.layer.moveTo leg.source leg.next leg.position leg.context.external now with
        frames := frames } := by
  obtain ⟨frames, hleft⟩ :=
    (leg.layer.leaveState_yields leg.source .leave leg.context).run handler (leg.outset handler)
  refine ⟨frames, ?_⟩
  unfold left
  dsimp only
  rw [hleft]
  rfl

/-- The next state is entered when the layer has made the move, and its axion is told what the walk
tells it. -/
theorem of_mem_entering (handler : Handler σ) {now : Instant} {leg : Leg σ}
    {execution : Execution σ} (hmem : execution ∈ leg.entering handler now) :
    execution.phase = .entry ∧ execution.context = leg.context ∧
      execution.layer = (leg.left handler now).1 := by
  unfold entering Layer.enterExecutions at hmem
  dsimp only at hmem
  split at hmem
  · exact absurd hmem List.not_mem_nil
  · obtain rfl := List.mem_singleton.mp hmem
    exact ⟨rfl, rfl, rfl⟩

/-- When a leg is followed by another one, a transition of the state between them has been taken: a
wildcard, or one whose event is the result of the entry axion. -/
theorem IsFollowedBy.transition {handler : Handler σ} {now : Instant} {leg later : Leg σ}
    (hfollowed : leg.IsFollowedBy handler now later) :
    ∃ transition ∈ leg.next.transitions, transition.target = later.target ∧
      (transition.isWildcard = true ∨ ∃ result, leg.result? handler now = some result ∧
        caselessEq transition.event result = true) := by
  obtain ⟨_, transition, hmem, htarget, htaken⟩ := State.transition_of_next? hfollowed.target_eq
  refine ⟨transition, hmem, htarget, htaken.imp_right ?_⟩
  rintro ⟨hresult, hevent⟩
  cases hentry : leg.result? handler now with
  | none => simp [hentry] at hresult
  | some result =>
    rw [hentry] at hevent
    exact ⟨result, rfl, hevent⟩

end Leg

namespace Layer

variable {σ : Type} {layer : Layer} {first : State}

/-- A layer that follows an event first makes the move that the event selects in its state. Each
later move is made from the state that the move before has led to, and is what the result of the
axion for entering that state selects there, or the empty event if there is no such axion: the
transition is a wildcard, or its event is that result. With each move the axion for leaving is
executed first, before the layer moves, and has no result; the one for entering is executed when it
has moved. Both are told the latest result of an entry in the same walk, which is what `use`
returns, or the empty text if there is none. After a move to where the layer is, there is no other one. The
calls of these moves are all that the walk makes, apart from the lines with which it ends and the
calls of a finished layer. -/
theorem entries_select_moves (handler : Handler σ) (hstate : layer.state? = some first)
    (external : String) (now : Instant) (limit : Nat) (world : σ) :
    let legs := layer.legs handler external now limit world
    let last := ((layer.stand first external).after handler now legs).layer
    (layer.follow external now limit).trace handler world =
        legs.flatMap (Leg.calls handler now) ++
          (layer.stand first external).lastLines handler external now limit limit legs ++
            last.closing external ∧
    ((layer.follow external now limit).run handler world).1 = last ∧
    (∀ leg ∈ legs.head?, leg.layer = layer ∧ leg.source = first ∧
      first.next? external = some leg.target) ∧
    (legs.IsChain fun leg later => leg.isReentry = false ∧
      later.layer = (leg.stop handler now).layer ∧ later.source = leg.next ∧
      leg.next.next? ((leg.result? handler now).getD "") = some later.target ∧
      ∃ transition ∈ leg.next.transitions, transition.target = later.target ∧
        (transition.isWildcard = true ∨ ∃ result, leg.result? handler now = some result ∧
          caselessEq transition.event result = true)) ∧
    ∀ before leg after, legs = before ++ leg :: after →
      leg.layer.state? = some leg.source ∧
      leg.layer.machine.search? leg.layer.current leg.target = some (leg.next, leg.position) ∧
      leg.context = ⟨external, Leg.latestResult handler now "" before⟩ ∧
      leg.calls handler now = .log leg.announcement ::
        (leg.leaving handler ++ leg.entering handler now).filterMap Execution.call? ∧
      leg.result? handler now =
        ((leg.entering handler now).map (Execution.result handler)).head? ∧
      (∀ execution ∈ leg.leaving handler,
        execution.layer = leg.layer ∧ execution.result handler = "") ∧
      ∀ execution ∈ leg.entering handler now,
        (∃ frames, execution.layer =
          { leg.layer.moveTo leg.source leg.next leg.position external now with
            frames := frames }) ∧
        (execution.verb = .use →
          execution.result handler = Leg.latestResult handler now "" before) := by
  intro legs last
  obtain ⟨hcalls, hended⟩ := trace_follow handler layer external now limit world
  obtain ⟨hmoves, hrest⟩ := trace_stroll handler hstate external now limit world
  rw [hmoves, hrest] at hcalls
  have hlast := hended.trans hrest
  have hlegs : legs = (layer.stand first external).legs handler external now limit "" world :=
    legs_of_state? handler hstate external now limit world
  refine ⟨hcalls, hlast, fun leg hleg => ?_, ?_, fun before leg after hsplit => ?_⟩
  · rw [hlegs] at hleg
    obtain ⟨hlayer, hsource, _, htarget⟩ := Standing.of_mem_head?_legs handler hleg
    exact ⟨hlayer, hsource, htarget⟩
  · rw [hlegs]
    refine (Standing.isChain_legs handler external now limit "" _ world).imp fun leg later h => ?_
    exact ⟨h.not_reentry, h.layer_eq, h.source_eq, h.target_eq, h.transition⟩
  · rw [hlegs] at hsplit
    have hmem : leg ∈ (layer.stand first external).legs handler external now limit "" world := by
      rw [hsplit]
      exact List.mem_append_cons_self
    obtain ⟨hsource, hfound⟩ := Standing.of_mem_legs handler hstate hmem
    have hcontext := Standing.context_of_legs_eq handler hsplit
    refine ⟨hsource, hfound, hcontext, leg.calls_eq handler now, leg.result?_eq handler now,
      fun _ => Leg.of_mem_leaving handler, fun execution hentering => ?_⟩
    obtain ⟨hphase, htold, hmoved⟩ := Leg.of_mem_entering handler hentering
    obtain ⟨frames, hleft⟩ := leg.exists_left_eq handler now
    refine ⟨⟨frames, ?_⟩, fun huse => ?_⟩
    · rw [hmoved, hleft, hcontext]
    · rw [Execution.result_of_use handler hphase huse, htold, hcontext]

/-- A layer of a machine in which one state has no axion for its entry, and the next one returns
what the one before that has returned. -/
def relaying : Layer :=
  create ⟨1⟩ ⟨"m", [(State.named "start").on "go" "set",
    (((State.named "set").onEntry "set:label=x,value=1").onLeave "raise:event=go").on
      "success" "rest",
    ((State.named "rest").on "go" "start").otherwise "use",
    ((State.named "use").onEntry "use").on "success" "use"]⟩ 0

/-- The event of a relaying layer selects its first move only. After that a result, a wildcard and
the first result again select the moves, and the last one leads to where the layer is. -/
theorem entries_select_moves_of_relaying :
    let legs := relaying.legs idle "go" (.ofMillis 0) 9 ()
    relaying.state? = some ((State.named "start").on "go" "set") ∧
      legs.map Leg.target = ["set", "rest", "use", "use"] ∧
      legs.map (fun leg => leg.context.previous) = ["", "success", "success", "success"] ∧
      (∀ leg ∈ legs.head?, leg.layer = relaying) ∧
      legs.IsChain fun leg later => leg.isReentry = false ∧ later.source = leg.next := by
  intro legs
  have hstate : relaying.state? = some ((State.named "start").on "go" "set") := by decide
  obtain ⟨_, _, hhead, hchain, _⟩ :=
    entries_select_moves idle hstate "go" (.ofMillis 0) 9 ()
  refine ⟨hstate, by decide +kernel, by decide +kernel, fun leg hleg => (hhead leg hleg).1, ?_⟩
  exact hchain.imp fun leg later h => ⟨h.1, h.2.2.1⟩

end Layer

end LayeredMachines
