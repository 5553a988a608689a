import LayeredMachines.Proofs.Layer.Axions
import LayeredMachines.Proofs.Layer.Follow
import LayeredMachines.Proofs.Programs.Lines

/-!
# Local machines

A machine is local if none of its axions reaches beyond its layer. Such a layer makes no call while
it walks but for its lines, and so ends in the same way whatever it runs in. When it is finished it
still asks to be taken out.
-/

namespace LayeredMachines

/-- The built-in verbs that do not reach beyond their layer. -/
def Builtin.locals : List Builtin :=
  [.set, .inc, .dec, .equ, .rem, .use, .new, .pop]

/-- The axion with a text has a verb that does not reach beyond its layer. -/
def Axion.isLocal (text : String) : Bool :=
  Builtin.locals.any (Axion.hasVerb · text)

/-- No axion of the machine reaches beyond its layer. -/
def Machine.IsLocal (machine : Machine) : Prop :=
  ∀ text ∈ machine.axions, Axion.isLocal text = true

instance (machine : Machine) : Decidable machine.IsLocal :=
  inferInstanceAs (Decidable (∀ text ∈ machine.axions, _))

/-! ### Axions -/

/-- A verb that does not reach beyond its layer only writes lines. -/
theorem Verb.exists_execute_writes {verb : Verb} {builtin : Builtin}
    (hverb : verb.builtin? = some builtin) (hlocal : builtin ∈ Builtin.locals) (phase : Phase)
    (context : WalkContext) (id : LayerId) (stack : FrameStack) :
    ∃ result, Program.Writes false result (verb.execute phase context id stack) := by
  have hmember : verb.builtin? ∈ Builtin.locals.map some := hverb ▸ List.mem_map_of_mem hlocal
  cases verb with
  | set label value => exact ⟨_, .done _⟩
  | inc label amount => exact ⟨_, .done _⟩
  | dec label amount => exact ⟨_, .done _⟩
  | equ label value => exact ⟨_, .log _ (.done _)⟩
  | rem => exact ⟨_, .done _⟩
  | use => exact ⟨_, .done _⟩
  | new => exact ⟨_, .done _⟩
  | pop => exact ⟨_, .done _⟩
  | _ => simp [Verb.builtin?, Builtin.locals] at hmember

/-- An axion that does not reach beyond its layer only writes lines. -/
theorem exists_executeText_writes {text : String} (hlocal : Axion.isLocal text = true)
    (phase : Phase) (context : WalkContext) (id : LayerId) (stack : FrameStack) :
    ∃ result, Program.Writes false result (executeText text phase context id stack) := by
  obtain ⟨builtin, hbuiltin, hname⟩ := List.any_eq_true.mp hlocal
  have hverb : ((Axion.split text).expand stack).toVerb.builtin? = some builtin := by
    rw [Axion.builtin?_toVerb]
    exact Axion.hasVerb_iff.mp hname
  unfold executeText
  generalize ((Axion.split text).expand stack).toVerb = verb at hverb ⊢
  have hexecute (phase : Phase) := verb.exists_execute_writes hverb hbuiltin phase context id stack
  cases phase with
  | entry => exact hexecute .entry
  | leave =>
    obtain ⟨result, hresult⟩ := hexecute .leave
    exact ⟨_, hresult.bind (.done ("", result.2))⟩
  | final =>
    dsimp only
    split
    · obtain ⟨result, hresult⟩ := hexecute .final
      exact ⟨_, hresult.bind (.done ("", result.2))⟩
    · exact ⟨_, .done _⟩

namespace Layer

variable {layer : Layer} {state next : State} {position : Nat}

/-! ### Walks -/

/-- A layer of a local machine only writes lines when it leaves a state. -/
theorem exists_leaveState_writes (hlocal : layer.machine.IsLocal)
    (hstate : state ∈ layer.machine.states) (phase : Phase) (context : WalkContext) :
    ∃ frames, Program.Writes false { layer with frames := frames }
      (layer.leaveState state phase context) := by
  unfold leaveState
  split
  · exact ⟨layer.frames, .done layer⟩
  · next hleave =>
    have hmem := Machine.leave_mem_axions hstate (by simpa using hleave)
    obtain ⟨result, hresult⟩ :=
      exists_executeText_writes (hlocal _ hmem) phase context layer.id layer.frames
    exact ⟨result.2, hresult.bind (.done _)⟩

/-- A layer of a local machine only writes lines when it enters a state. -/
theorem exists_enterState_writes (layer : Layer) (hlocal : layer.machine.IsLocal)
    (hstate : state ∈ layer.machine.states) (context : WalkContext) :
    ∃ entered, Program.Writes false entered (layer.enterState state context) := by
  unfold enterState
  split
  · exact ⟨_, .done _⟩
  · next hentry =>
    have hmem := Machine.entry_mem_axions hstate (by simpa using hentry)
    have haxion := exists_executeText_writes (hlocal _ hmem) .entry context layer.id layer.frames
    -- Nothing more is known of the program of the axion, and it must not be looked into.
    generalize executeText state.entry .entry context layer.id layer.frames = program at haxion ⊢
    obtain ⟨⟨result, frames⟩, hresult⟩ := haxion
    exact ⟨(some result, { layer with frames := frames }), hresult.bind (.done _)⟩

/-- A layer of a local machine only writes lines when it moves. -/
theorem exists_move_writes (hlocal : layer.machine.IsLocal) (hstate : state ∈ layer.machine.states)
    (hnext : next ∈ layer.machine.states) (position : Nat) (context : WalkContext)
    (now : Instant) :
    ∃ moved, Program.Writes false moved (layer.move state next position context now) := by
  obtain ⟨frames, hleft⟩ := exists_leaveState_writes hlocal hstate .leave context
  obtain ⟨entered, hentered⟩ := exists_enterState_writes
    ({ layer with frames := frames }.moveTo state next position context.external now) hlocal hnext
    context
  exact ⟨entered, hleft.bind hentered⟩

/-- A layer of a local machine only writes lines while it walks. -/
theorem exists_walk_writes (hlocal : layer.machine.IsLocal) (hstate : state ∈ layer.machine.states)
    (event : String) (now : Instant) (limit remaining : Nat) (previous : String)
    (selected : Option String) :
    ∃ last, Program.Writes false last
      (walk event now limit remaining state previous selected layer) := by
  induction remaining generalizing state previous selected layer with
  | zero =>
    cases selected with
    | none => exact ⟨layer, .done layer⟩
    | some target => exact ⟨layer, .log_bind _ (.done layer)⟩
  | succ remaining ih =>
    cases selected with
    | none => exact ⟨layer, .done layer⟩
    | some target =>
      cases hfound : layer.machine.search? layer.current target with
      | none =>
        simp only [walk, hfound]
        exact ⟨layer, .log_bind _ (.log_bind _ (.done layer))⟩
      | some found =>
        obtain ⟨next, position⟩ := found
        have hnext : next ∈ layer.machine.states :=
          List.mem_of_getElem? (Machine.getElem?_of_search? hfound)
        rw [walk_of_search? _ _ _ _ _ hfound]
        obtain ⟨⟨result, moved⟩, hmove⟩ :=
          exists_move_writes hlocal hstate hnext position ⟨event, previous⟩ now
        have hsame := (hmove.of_yields (move_yields state ⟨event, previous⟩ now hfound)).1
        dsimp only at hsame
        have hrest : ∃ last, Program.Writes false last
            (if position == layer.current then do
              Program.log (.notFound moved.id next.label event target)
              pure moved
            else walk event now limit remaining next (result.getD previous)
              (next.next? (result.getD "")) moved) := by
          split
          · exact ⟨moved, .log_bind _ (.done moved)⟩
          · rw [← hsame.machine_eq] at hlocal hnext
            exact ih hlocal hnext _ _
        obtain ⟨last, hlast⟩ := hrest
        exact ⟨last, .log_bind _ (hmove.bind hlast)⟩

/-- A layer of a local machine only writes lines at its end, and asks to be taken out if it is
finished. -/
theorem exists_finish_writes (hlocal : layer.machine.IsLocal) (event : String) :
    ∃ last, Program.Writes last.isFinal last (layer.finish event) := by
  cases hstate : layer.state? with
  | none =>
    have hrests : layer.isFinal = false := by rw [isFinal, hstate, Option.any_none]
    simp only [finish, hstate]
    exact ⟨layer, hrests ▸ .done layer⟩
  | some state =>
    have hfinal : layer.isFinal = state.isFinal := by rw [isFinal, hstate, Option.any_some]
    simp only [finish, hstate]
    split
    · next hends =>
      obtain ⟨frames, hleft⟩ :=
        exists_leaveState_writes hlocal (List.mem_of_getElem? hstate) .final ⟨event, ""⟩
      have hlast : ({ layer with frames := frames } : Layer).isFinal = true := hfinal.trans hends
      refine ⟨{ layer with frames := frames }, ?_⟩
      rw [hlast]
      exact hleft.bind (.pop fun _ => rfl)
    · next hrests =>
      rw [Bool.not_eq_true, ← hfinal] at hrests
      exact ⟨layer, hrests ▸ .done layer⟩

/-- A layer of a local machine only writes lines when it follows an event, and asks to be taken out
if it is finished then. -/
theorem exists_follow_writes (hlocal : layer.machine.IsLocal) (event : String) (now : Instant)
    (limit : Nat) : ∃ last, Program.Writes last.isFinal last (layer.follow event now limit) := by
  cases hstate : layer.state? with
  | none =>
    have hrests : layer.isFinal = false := by rw [isFinal, hstate, Option.any_none]
    simp only [follow, hstate]
    exact ⟨layer, hrests ▸ .done layer⟩
  | some state =>
    obtain ⟨walked, hwalked⟩ := exists_walk_writes hlocal (List.mem_of_getElem? hstate) event now
      limit limit "" (state.next? event)
    have hyields := (isStable_isSame layer).walk event now limit limit state "" (state.next? event)
      (.refl layer)
    have hsame : layer.IsSame walked := hwalked.of_yields hyields
    obtain ⟨last, hlast⟩ := exists_finish_writes (hsame.machine_eq ▸ hlocal) event
    rw [follow_eq_walk hstate]
    exact ⟨last, hwalked.bind hlast⟩

/-! ### Walking alone -/

/-- What becomes of a layer that follows an event by itself, in a world that a handler answers for.
-/
def followed {σ : Type} (handler : Handler σ) (world : σ) (event : String) (now : Instant)
    (limit : Nat) (layer : Layer) : Layer :=
  ((layer.follow event now limit).run handler world).1

/-- A layer keeps its identity, whatever it follows. -/
theorem id_followed {σ : Type} (handler : Handler σ) (world : σ) (event : String) (now : Instant)
    (limit : Nat) (layer : Layer) :
    (layer.followed handler world event now limit).id = layer.id :=
  ((layer.follow_yields event now limit).run handler world).id_eq

/-- A layer of a local machine only writes lines until it has followed an event. -/
theorem followed_writes {σ : Type} (hlocal : layer.machine.IsLocal) (handler : Handler σ)
    (world : σ) (event : String) (now : Instant) (limit : Nat) :
    Program.Writes (layer.followed handler world event now limit).isFinal
      (layer.followed handler world event now limit) (layer.follow event now limit) := by
  obtain ⟨last, hlast⟩ := exists_follow_writes hlocal event now limit
  have heq : layer.followed handler world event now limit = last := hlast.run_fst handler world
  rwa [heq]

end Layer

end LayeredMachines
