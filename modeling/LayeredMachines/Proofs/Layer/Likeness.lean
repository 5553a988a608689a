import LayeredMachines.Proofs.History.Retention
import LayeredMachines.Proofs.Layer.Follow
import LayeredMachines.Proofs.Programs.Wording
import LayeredMachines.Proofs.Text.Spelling

/-!
# Walks that correspond

A layer shows its identity in lines, and the time in its history, but neither decides anything. The
text of an event passes through a walk: it may become the result of an entry, and results select the
moves; but every comparison on the way ignores case. Two layers that correspond in identities, times
and texts therefore walk in step: they make the same calls and the same moves, and differ only in
the lines that they write and in the moves that they record.
-/

namespace LayeredMachines

/-- A sense in which identities, texts, instants and lines of two runs correspond. -/
structure Likeness where
  id : LayerId → LayerId → Prop
  /-- For the texts of events, and for results, which may be such. -/
  text : String → String → Prop
  instant : Instant → Instant → Prop
  line : Diagnostic → Diagnostic → Prop

/-- Texts that correspond are equal up to case, and what is written about them corresponds. -/
structure Likeness.IsRespected (κ : Likeness) : Prop where
  refl (text : String) : κ.text text text
  caselessEq {text other : String} (htext : κ.text text other) : caselessEq text other = true
  compared {id name : LayerId} (hid : κ.id id name) (value : String) (outcome : Outcome) :
    κ.line (.compared id value outcome) (.compared name value outcome)
  moving {id name : LayerId} (hid : κ.id id name) {event other : String}
    (hevent : κ.text event other) (state target : String) :
    κ.line (.moving id state event target) (.moving name state other target)
  notFound {id name : LayerId} (hid : κ.id id name) {event other : String}
    (hevent : κ.text event other) (state target : String) :
    κ.line (.notFound id state event target) (.notFound name state other target)
  stopped {id name : LayerId} (hid : κ.id id name) {event other : String}
    (hevent : κ.text event other) (state target : String) (limit : Nat) :
    κ.line (.stopped id state event target limit) (.stopped name state other target limit)

/-- The same move on a corresponding event at a corresponding time. -/
structure Move.Alike (κ : Likeness) (move other : Move) : Prop where
  source_eq : other.source = move.source
  target_eq : other.target = move.target
  event : κ.text move.event other.event
  time : κ.instant move.time other.time

/-- Corresponding moves under the same limit. -/
structure History.Alike (κ : Likeness) (history other : History) : Prop where
  limit_eq : other.limit = history.limit
  moves : List.Forall₂ (Move.Alike κ) history.moves other.moves

/-- The same layer under a corresponding identity, and with corresponding moves. -/
structure Layer.Alike (κ : Likeness) (layer other : Layer) : Prop where
  id : κ.id layer.id other.id
  machine_eq : other.machine = layer.machine
  current_eq : other.current = layer.current
  frames_eq : other.frames = layer.frames
  history : layer.history.Alike κ other.history

/-- Walks that follow corresponding events, after corresponding results. -/
structure WalkContext.Alike (κ : Likeness) (context other : WalkContext) : Prop where
  external : κ.text context.external other.external
  previous : κ.text context.previous other.previous

/-- Corresponding results, with the same variables. -/
structure Likeness.Result (κ : Likeness) (result other : String × FrameStack) : Prop where
  text : κ.text result.1 other.1
  frames_eq : other.2 = result.2

variable {κ : Likeness} {id name : LayerId} {context like : WalkContext}

/-- Recording corresponding moves keeps histories alike. -/
theorem History.Alike.record {history other : History} {move later : Move}
    (hhistory : history.Alike κ other) (hmove : move.Alike κ later) :
    (history.record move).Alike κ (other.record later) :=
  ⟨by rw [limit_record, limit_record, hhistory.limit_eq],
    forall₂_record hhistory.limit_eq hhistory.moves hmove⟩

/-! ### Axions -/

namespace Likeness.IsRespected

/-- Results without a text of an event correspond to themselves. -/
theorem result (hκ : κ.IsRespected) (result : String × FrameStack) : κ.Result result result :=
  ⟨hκ.refl result.1, rfl⟩

/-- A request that is in step with itself stays so when its phase may pass over it. -/
theorem request (hκ : κ.IsRespected) (phase : Phase) (argument : String) (stack : FrameStack)
    {call : Program Outcome} (hcall : Program.InStep κ.line Eq call call) :
    Program.InStep κ.line κ.Result (phase.request argument stack call)
      (phase.request argument stack call) := by
  unfold Phase.request
  split
  · exact .done (hκ.result _)
  · refine hcall.bind ?_
    rintro outcome _ rfl
    exact .done (hκ.result _)

/-- A verb does the same for corresponding layers. -/
theorem executeVerb (hκ : κ.IsRespected) (hid : κ.id id name) (hcontext : context.Alike κ like)
    (verb : Verb) (phase : Phase) (stack : FrameStack) :
    Program.InStep κ.line κ.Result (verb.execute phase context id stack)
      (verb.execute phase like name stack) := by
  have hdone (result : String × FrameStack) :
      Program.InStep κ.line κ.Result (.done result) (.done result) := .done (hκ.result result)
  cases verb with
  | start machine seed =>
    refine hκ.request phase machine stack ?_
    exact .ask (.start machine seed) (by simp) fun _ => .done rfl
  | raise event =>
    refine hκ.request phase event stack ?_
    exact .ask (.raise event) (by simp) fun _ => .done rfl
  | blast event =>
    refine hκ.request phase event stack ?_
    exact .ask (.blast event) (by simp) fun _ => .done rfl
  | patch command status =>
    refine hκ.request phase command stack ?_
    exact .ask (.patch command status) (by simp) fun _ => .done rfl
  | write label value =>
    refine hκ.request phase label stack ?_
    exact .ask (.write label value) (by simp) fun _ => .done rfl
  | count tuple => exact .ask (.count tuple) (by simp) fun _ => hdone _
  | timer delay event =>
    cases delay with
    | none => exact hdone _
    | some delay =>
      simp only [Verb.execute]
      split
      · exact hdone _
      · exact .ask (.timer delay event) (by simp) fun _ => hdone _
  | trace text => exact .ask (.trace text) (by simp) fun _ => hdone _
  | equ label value => exact .log (hκ.compared hid _ _) (hdone _)
  | custom verb parameters => exact .ask (.execute verb parameters) (by simp) fun _ => hdone _
  | rem => exact .done ⟨hcontext.external, rfl⟩
  | use => exact .done ⟨hcontext.previous, rfl⟩
  | _ => exact hdone _

/-- The text of an axion does the same for corresponding layers. -/
theorem executeText (hκ : κ.IsRespected) (hid : κ.id id name) (hcontext : context.Alike κ like)
    (text : String) (phase : Phase) (stack : FrameStack) :
    Program.InStep κ.line κ.Result (executeText text phase context id stack)
      (executeText text phase like name stack) := by
  unfold LayeredMachines.executeText
  generalize ((Axion.split text).expand stack).toVerb = verb
  have hverb (phase : Phase) := hκ.executeVerb hid hcontext verb phase stack
  have hsilent (phase : Phase) := (hverb phase).bind fun result other hresult =>
    (.done ⟨hκ.refl "", hresult.frames_eq⟩ : Program.InStep κ.line κ.Result
      (pure ("", result.2)) (pure ("", other.2)))
  cases phase with
  | entry => exact hverb .entry
  | leave => exact hsilent .leave
  | final =>
    dsimp only
    split
    · exact hsilent .final
    · exact .done (hκ.result _)

end Likeness.IsRespected

namespace Layer.Alike

variable {layer other : Layer} {event spelled previous result : String} {now later : Instant}

/-! ### Layers -/

theorem state?_eq (h : layer.Alike κ other) : other.state? = layer.state? := by
  rw [state?, state?, h.machine_eq, h.current_eq]

/-- Both layers may be given the same variables. -/
theorem setFrames (h : layer.Alike κ other) (frames : FrameStack) :
    { layer with frames := frames }.Alike κ { other with frames := frames } :=
  { h with frames_eq := rfl }

/-- New layers of a machine are alike. -/
theorem create (hid : κ.id id name) (machine : Machine) (historyLimit : Nat) :
    (Layer.create id machine historyLimit).Alike κ (Layer.create name machine historyLimit) :=
  ⟨hid, rfl, rfl, rfl, rfl, .nil⟩

/-! ### Walks -/

/-- Layers that are alike leave a state in step. -/
theorem leaveState (h : layer.Alike κ other) (hκ : κ.IsRespected)
    (hcontext : context.Alike κ like) (state : State) (phase : Phase) :
    Program.InStep κ.line (Layer.Alike κ) (layer.leaveState state phase context)
      (other.leaveState state phase like) := by
  have haxion := hκ.executeText h.id hcontext state.leave phase layer.frames
  unfold Layer.leaveState
  rw [h.frames_eq]
  split
  · exact .done h
  · refine haxion.bind ?_
    rintro ⟨result, _⟩ ⟨_, frames⟩ ⟨_, rfl⟩
    exact .done (h.setFrames frames)

/-- Layers that are alike enter a state in step. -/
theorem enterState (h : layer.Alike κ other) (hκ : κ.IsRespected)
    (hcontext : context.Alike κ like) (state : State) :
    Program.InStep κ.line
      (fun entered like => Option.Rel κ.text entered.1 like.1 ∧ entered.2.Alike κ like.2)
      (layer.enterState state context) (other.enterState state like) := by
  have haxion := hκ.executeText h.id hcontext state.entry .entry layer.frames
  unfold Layer.enterState
  rw [h.frames_eq]
  -- Nothing is known of the programs of the axion but that they are in step.
  generalize LayeredMachines.executeText state.entry .entry context layer.id layer.frames = program
    at haxion ⊢
  generalize LayeredMachines.executeText state.entry .entry like other.id layer.frames = follower
    at haxion ⊢
  split
  · exact .done ⟨.none, h⟩
  · refine haxion.bind ?_
    rintro ⟨result, _⟩ ⟨_, frames⟩ ⟨hresult, rfl⟩
    exact .done ⟨.some hresult, h.setFrames frames⟩

/-- Layers that are alike make the same move. -/
theorem move (h : layer.Alike κ other) (hκ : κ.IsRespected) (hcontext : context.Alike κ like)
    (htime : κ.instant now later) (source next : State) (position : Nat) :
    Program.InStep κ.line
      (fun entered like => Option.Rel κ.text entered.1 like.1 ∧ entered.2.Alike κ like.2)
      (layer.move source next position context now)
      (other.move source next position like later) := by
  refine (h.leaveState hκ hcontext source .leave).bind fun left otherLeft hleft => ?_
  have hmoved : (left.moveTo source next position context.external now).Alike κ
      (otherLeft.moveTo source next position like.external later) :=
    { hleft with
      current_eq := rfl, history := hleft.history.record ⟨rfl, rfl, hcontext.external, htime⟩ }
  exact hmoved.enterState hκ hcontext next

/-- Layers that are alike walk in step. -/
theorem walk (h : layer.Alike κ other) (hκ : κ.IsRespected) (hevent : κ.text event spelled)
    (htime : κ.instant now later) (limit remaining : Nat) (state : State)
    (hprevious : κ.text previous result) (selected : Option String) :
    Program.InStep κ.line (Layer.Alike κ)
      (walk event now limit remaining state previous selected layer)
      (Layer.walk spelled later limit remaining state result selected other) := by
  induction remaining generalizing state previous result selected layer other with
  | zero =>
    cases selected with
    | none => exact .done h
    | some target =>
      exact .log_bind (hκ.stopped h.id hevent state.label target limit) (.done h)
  | succ remaining ih =>
    cases selected with
    | none => exact .done h
    | some target =>
      have hsearch : other.machine.search? other.current target =
          layer.machine.search? layer.current target := by
        rw [h.machine_eq, h.current_eq]
      cases hfound : layer.machine.search? layer.current target with
      | none =>
        simp only [Layer.walk, hsearch, hfound]
        refine .log_bind (hκ.moving h.id hevent state.label target) ?_
        exact .log_bind (hκ.notFound h.id hevent state.label target) (.done h)
      | some found =>
        obtain ⟨next, position⟩ := found
        rw [walk_of_search? _ _ _ _ _ hfound, walk_of_search? _ _ _ _ _ (hsearch.trans hfound),
          h.current_eq]
        refine .log_bind (hκ.moving h.id hevent state.label target) ?_
        refine (h.move hκ ⟨hevent, hprevious⟩ htime state next position).bind ?_
        rintro ⟨entered, moved⟩ ⟨likewise, otherMoved⟩ ⟨hentered, hmoved⟩
        dsimp only at hentered hmoved ⊢
        split
        · exact .log_bind (hκ.notFound hmoved.id hevent next.label target) (.done hmoved)
        · -- The result selects the next move, and is what the next entry sees of this one.
          have hresult : κ.text (entered.getD "") (likewise.getD "") ∧
              κ.text (entered.getD previous) (likewise.getD result) := by
            cases hentered with
            | none => exact ⟨hκ.refl "", hprevious⟩
            | some htext => exact ⟨htext, htext⟩
          rw [← next.next?_congr (hκ.caselessEq hresult.1)]
          exact ih hmoved next hresult.2 _

/-- Layers that are alike finish in step. -/
theorem finish (h : layer.Alike κ other) (hκ : κ.IsRespected) (hevent : κ.text event spelled) :
    Program.InStep κ.line (Layer.Alike κ) (layer.finish event) (other.finish spelled) := by
  have hcontext : WalkContext.Alike κ ⟨event, ""⟩ ⟨spelled, ""⟩ := ⟨hevent, hκ.refl ""⟩
  unfold Layer.finish
  rw [h.state?_eq]
  split
  · split
    · next state _ _ =>
      refine (h.leaveState hκ hcontext state .final).bind fun left otherLeft hleft => ?_
      exact .ask .pop (by simp) fun _ => .done hleft
    · exact .done h
  · exact .done h

/-- Layers that are alike follow corresponding events in step. -/
theorem follow (h : layer.Alike κ other) (hκ : κ.IsRespected) (hevent : κ.text event spelled)
    (htime : κ.instant now later) (limit : Nat) :
    Program.InStep κ.line (Layer.Alike κ) (layer.follow event now limit)
      (other.follow spelled later limit) := by
  cases hstate : layer.state? with
  | none =>
    simp only [Layer.follow, h.state?_eq, hstate]
    exact .done h
  | some state =>
    rw [follow_eq_walk hstate, follow_eq_walk (h.state?_eq.trans hstate),
      ← state.next?_congr (hκ.caselessEq hevent)]
    have hwalk := h.walk hκ hevent htime limit limit state (hκ.refl "") (state.next? event)
    exact hwalk.bind fun _ _ hlater => hlater.finish hκ hevent

end Layer.Alike

end LayeredMachines
