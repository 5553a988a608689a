import LayeredMachines.Layer.Walk
import LayeredMachines.Proofs.Programs

/-!
# A layer after its walk

Whatever its calls are answered, a layer ends its walk as the layer that it was: with the same
identity and the same machine. If it ends in a final state, the last thing that it has done is to
ask to be taken out, however the walk came to its end.
-/

namespace LayeredMachines

/-- A sink selects no move. -/
theorem State.next?_of_isSink {state : State} (hsink : state.isSink = true) (event : String) :
    state.next? event = none := by
  simp [next?, matching?, List.isEmpty_iff.mp hsink]

namespace Layer

variable {σ : Type} {layer later last : Layer} {state next : State} {position : Nat} {target : String}

/-- A layer at an earlier and at a later time: the identity and the machine are the same. -/
structure IsSame (layer later : Layer) : Prop where
  id_eq : later.id = layer.id
  machine_eq : later.machine = layer.machine

theorem IsSame.refl (layer : Layer) : layer.IsSame layer :=
  ⟨rfl, rfl⟩

theorem IsSame.trans (hlater : layer.IsSame later) (hlast : later.IsSame last) :
    layer.IsSame last :=
  ⟨hlast.id_eq.trans hlater.id_eq, hlast.machine_eq.trans hlater.machine_eq⟩

/-- A layer that rests in a final state has a label that is "final" up to case, and no other. -/
theorem isFinal_eq (layer : Layer) : layer.isFinal = caselessEq layer.stateLabel finalLabel := by
  unfold isFinal stateLabel
  cases layer.state? with
  | none => decide
  | some state => rfl

/-! ### What is left of a layer -/

/-- Leaving a state changes nothing but variables. -/
theorem leaveState_yields (layer : Layer) (state : State) (phase : Phase) (context : WalkContext) :
    (layer.leaveState state phase context).Yields fun later =>
      ∃ frames, later = { layer with frames := frames } := by
  unfold leaveState
  split
  · exact ⟨layer.frames, rfl⟩
  · refine Program.yields_bind ?_ _
    rintro ⟨result, frames⟩
    exact ⟨frames, rfl⟩

/-- Entering a state changes nothing but variables. -/
theorem enterState_yields (layer : Layer) (state : State) (context : WalkContext) :
    (layer.enterState state context).Yields fun result =>
      ∃ frames, result.2 = { layer with frames := frames } := by
  unfold enterState
  -- Nothing is known of the program of the axion, and it must not be looked into.
  generalize executeText state.entry .entry context layer.id layer.frames = program
  split
  · exact ⟨layer.frames, rfl⟩
  · refine Program.yields_bind ?_ program
    rintro ⟨result, frames⟩
    exact ⟨frames, rfl⟩

/-! ### One move -/

/-- Leave a state, rest in another one, and enter that. -/
def move (layer : Layer) (source next : State) (position : Nat) (context : WalkContext)
    (now : Instant) : Program (Option String × Layer) := do
  let layer ← layer.leaveState source .leave context
  (layer.moveTo source next position context.external now).enterState next context

/-- A walk whose search finds a state moves there, and goes on unless it has been there. -/
theorem walk_of_search? (event : String) (now : Instant) (limit remaining : Nat) (previous : String)
    (hfound : layer.machine.search? layer.current target = some (next, position)) :
    walk event now limit (remaining + 1) state previous (some target) layer =
      Program.log (.moving layer.id state.label event target) >>= fun _ =>
      layer.move state next position ⟨event, previous⟩ now >>= fun (result, moved) =>
        if position == layer.current then do
          Program.log (.notFound moved.id next.label event target)
          pure moved
        else
          walk event now limit remaining next (result.getD previous)
            (next.next? (result.getD "")) moved := by
  simp only [walk, hfound, move, bind_assoc]

/-- A move changes nothing but variables apart from resting elsewhere and recording it. -/
theorem move_yields_moveTo (layer : Layer) (source next : State) (position : Nat)
    (context : WalkContext) (now : Instant) :
    (layer.move source next position context now).Yields fun result => ∃ frames, result.2 =
      { layer.moveTo source next position context.external now with frames := frames } := by
  refine (layer.leaveState_yields source .leave context).bind ?_
  rintro _ ⟨left, rfl⟩
  refine (enterState_yields _ next context).mono ?_
  rintro ⟨result, _⟩ ⟨entered, rfl⟩
  exact ⟨entered, rfl⟩

/-- After a move the layer rests where the move leads. -/
theorem move_yields (source : State) (context : WalkContext) (now : Instant)
    (hfound : layer.machine.search? layer.current target = some (next, position)) :
    (layer.move source next position context now).Yields fun result =>
      layer.IsSame result.2 ∧ result.2.current = position ∧ result.2.state? = some next := by
  refine (layer.move_yields_moveTo source next position context now).mono ?_
  rintro ⟨result, _⟩ ⟨frames, rfl⟩
  exact ⟨⟨rfl, rfl⟩, rfl, Machine.getElem?_of_search? hfound⟩

/-! ### What a walk keeps -/

/-- A property of layers that a walk cannot take from them: it holds on when variables change, and
when a layer moves to a state that it has found. -/
structure IsStable (holds : Layer → Prop) : Prop where
  frames : ∀ {layer : Layer} (frames : FrameStack), holds layer →
    holds { layer with frames := frames }
  moveTo : ∀ {layer : Layer} {next : State} {position : Nat} {target : String} (source : State)
    (event : String) (now : Instant), holds layer →
    layer.machine.search? layer.current target = some (next, position) →
    holds (layer.moveTo source next position event now)

/-- What is stable holds of a layer wherever its walk ends. -/
theorem IsStable.walk {holds : Layer → Prop} (hstable : IsStable holds) (event : String)
    (now : Instant) (limit remaining : Nat) (state : State) (previous : String)
    (selected : Option String) {layer : Layer} (hlayer : holds layer) :
    (layer.walk event now limit remaining state previous selected).Yields holds := by
  induction remaining generalizing state previous selected layer with
  | zero =>
    cases selected with
    | none => exact hlayer
    | some target =>
      refine Program.yields_bind (fun _ => ?_) _
      exact hlayer
  | succ remaining ih =>
    cases selected with
    | none => exact hlayer
    | some target =>
      cases hfound : layer.machine.search? layer.current target with
      | none =>
        simp only [Layer.walk, hfound]
        refine Program.yields_bind (fun _ => Program.yields_bind (fun _ => ?_) _) _
        exact hlayer
      | some found =>
        obtain ⟨next, position⟩ := found
        rw [walk_of_search? _ _ _ _ _ hfound]
        refine Program.yields_bind (fun _ => ?_) _
        refine (layer.move_yields_moveTo state next position ⟨event, previous⟩ now).bind ?_
        rintro ⟨result, _⟩ ⟨frames, rfl⟩
        have hmoved := hstable.moveTo state event now hlayer hfound
        have hentered := hstable.frames frames hmoved
        dsimp only
        split
        · refine Program.yields_bind (fun _ => ?_) _
          exact hentered
        · exact ih _ _ _ hentered

/-- Finishing a layer changes nothing but variables. -/
theorem finish_yields (layer : Layer) (event : String) :
    (layer.finish event).Yields fun later => ∃ frames, later = { layer with frames := frames } := by
  unfold finish
  split
  · split
    · refine (layer.leaveState_yields _ .final _).bind fun later hlater => ?_
      refine Program.yields_bind (fun _ => ?_) _
      exact hlater
    · exact ⟨layer.frames, rfl⟩
  · exact ⟨layer.frames, rfl⟩

/-- A layer with a state walks from there, which in a sink is no walk at all, and then finishes. -/
theorem follow_eq_walk {state : State} (hstate : layer.state? = some state) (event : String)
    (now : Instant) (limit : Nat) :
    layer.follow event now limit =
      walk event now limit limit state "" (state.next? event) layer >>=
        fun later => later.finish event := by
  unfold follow
  rw [hstate]
  by_cases hsink : state.isSink = true
  · rw [State.next?_of_isSink hsink]
    simp only [hsink, if_true]
    cases limit <;> rfl
  · simp only [hsink, if_false, Bool.false_eq_true]

/-- What is stable holds of a layer that has followed an event. -/
theorem IsStable.follow {holds : Layer → Prop} (hstable : IsStable holds) (event : String)
    (now : Instant) (limit : Nat) {layer : Layer} (hlayer : holds layer) :
    (layer.follow event now limit).Yields holds := by
  cases hstate : layer.state? with
  | none =>
    unfold Layer.follow
    rw [hstate]
    exact hlayer
  | some state =>
    rw [follow_eq_walk hstate]
    have hwalk := hstable.walk event now limit limit state "" (state.next? event) hlayer
    refine hwalk.bind fun later hlater => (later.finish_yields event).mono ?_
    rintro _ ⟨frames, rfl⟩
    exact hstable.frames frames hlater

/-- What a layer is does not change in its walks. -/
theorem isStable_isSame (layer : Layer) : IsStable layer.IsSame where
  frames _ hsame := hsame.trans ⟨rfl, rfl⟩
  moveTo _ _ _ hsame _ := hsame.trans ⟨rfl, rfl⟩

/-- A layer that follows an event stays the same one. -/
theorem follow_yields (layer : Layer) (event : String) (now : Instant) (limit : Nat) :
    (layer.follow event now limit).Yields layer.IsSame :=
  (isStable_isSame layer).follow event now limit (.refl layer)

/-! ### The last call of a finished layer -/

/-- A layer that is finished asks to be taken out. -/
theorem run_finish_of_isFinal {handler : Handler σ} {layer : Layer} {event : String} {state : σ}
    (hfinal : ((layer.finish event).run handler state).1.isFinal = true) :
    ∃ before, ((layer.finish event).run handler state).2 = (handler .pop before).2 := by
  obtain ⟨frames, hlater⟩ := (layer.finish_yields event).run handler state
  rw [hlater] at hfinal
  have hlayer : layer.isFinal = true := hfinal
  unfold finish
  cases hstate : layer.state? with
  | none => simp [isFinal, hstate] at hlayer
  | some rest =>
    have hrest : rest.isFinal = true := by simpa [isFinal, hstate] using hlayer
    simp only [hrest, if_true, Program.run_bind, Program.run_pure]
    exact ⟨_, rfl⟩

/-- A layer whose walk ends in a final state has asked to be taken out, and done nothing since. -/
theorem run_follow_of_isFinal {handler : Handler σ} {layer : Layer} {event : String}
    {now : Instant} {limit : Nat} {state : σ}
    (hfinal : ((layer.follow event now limit).run handler state).1.isFinal = true) :
    ∃ before, ((layer.follow event now limit).run handler state).2 = (handler .pop before).2 := by
  cases hstate : layer.state? with
  | none =>
    unfold follow at hfinal
    simp [hstate, isFinal] at hfinal
  | some start =>
    rw [follow_eq_walk hstate, Program.run_bind] at hfinal ⊢
    exact run_finish_of_isFinal hfinal

end Layer

end LayeredMachines
