import LayeredMachines.Proofs.Layer.Executions
import LayeredMachines.Proofs.Machine.Axions

/-!
# Which axions a walk executes

A walk executes only axions of the machine of its layer: at most two for a move, and one more when
the layer has finished. Which calls it can make therefore depends on the verbs of these axions.
-/

namespace LayeredMachines

/-- The built-in verb without its arguments. -/
def Verb.builtin? : Verb → Option Builtin
  | .start .. => some .start
  | .raise .. => some .raise
  | .blast .. => some .blast
  | .patch .. => some .patch
  | .write .. => some .write
  | .count .. => some .count
  | .timer .. => some .timer
  | .trace .. => some .trace
  | .set .. => some .set
  | .inc .. => some .inc
  | .dec .. => some .dec
  | .equ .. => some .equ
  | .rem => some .rem
  | .use => some .use
  | .new => some .new
  | .pop => some .pop
  | .custom .. => none

/-- The built-in verb that makes a call, if one does. -/
def Call.builtin? : Call → Option Builtin
  | .start .. => some .start
  | .raise .. => some .raise
  | .blast .. => some .blast
  | .patch .. => some .patch
  | .write .. => some .write
  | .count .. => some .count
  | .timer .. => some .timer
  | .trace .. => some .trace
  | .log (.compared ..) => some .equ
  | .log _ | .pop | .execute .. => none

/-- The arguments that are picked for a verb do not change it. -/
theorem Axion.builtin?_toVerb (axion : Axion) :
    axion.toVerb.builtin? = Builtin.ofText? axion.verb := by
  unfold toVerb
  split <;> simp_all [Verb.builtin?]

/-- A verb makes no other call than its own. -/
theorem Verb.builtin?_of_call? {verb : Verb} {phase : Phase} {id : LayerId} {stack : FrameStack}
    {call : Call} (hcall : verb.call? phase id stack = some call) :
    call.builtin? = verb.builtin? := by
  have hgiven {argument : String} {made : Call} (hmade : made.builtin? = verb.builtin?)
      (heq : (if phase.passesOver argument then none else some made) = some call) :
      call.builtin? = verb.builtin? := by
    split at heq
    · simp at heq
    · exact Option.some.inj heq ▸ hmade
  cases verb with
  | start => exact hgiven rfl hcall
  | raise => exact hgiven rfl hcall
  | blast => exact hgiven rfl hcall
  | patch => exact hgiven rfl hcall
  | write => exact hgiven rfl hcall
  | timer delay event =>
    cases delay with
    | none => simp [call?] at hcall
    | some delay =>
      simp only [call?] at hcall
      split at hcall
      · simp at hcall
      · exact Option.some.inj hcall ▸ rfl
  | count => exact Option.some.inj hcall ▸ rfl
  | trace => exact Option.some.inj hcall ▸ rfl
  | equ => exact Option.some.inj hcall ▸ rfl
  | custom => exact Option.some.inj hcall ▸ rfl
  | _ => simp [call?] at hcall

/-- An execution makes a call of the verb that its axion has, whatever the variables of its layer. -/
theorem Execution.ofText?_of_call? {σ : Type} {execution : Execution σ} {call : Call}
    (hcall : execution.call? = some call) :
    Builtin.ofText? (Axion.split execution.text).verb = call.builtin? := by
  rw [Verb.builtin?_of_call? (call?_of_verb hcall), verb, Axion.builtin?_toVerb]
  rfl

namespace Layer

variable {σ : Type} {handler : Handler σ} {layer : Layer} {state next : State} {position : Nat}
  {event : String} {now : Instant} {context : WalkContext} {world : σ} {execution : Execution σ}

/-! ### One move -/

theorem text_mem_of_mem_leaveExecutions {phase : Phase}
    (hexecution : execution ∈ layer.leaveExecutions state phase context world)
    (hstate : state ∈ layer.machine.states) :
    execution.text ∈ layer.machine.axions := by
  unfold leaveExecutions at hexecution
  split at hexecution
  · simp at hexecution
  · next hleave =>
    obtain rfl := List.mem_singleton.mp hexecution
    exact Machine.leave_mem_axions hstate (by simpa using hleave)

theorem text_mem_of_mem_enterExecutions
    (hexecution : execution ∈ layer.enterExecutions state context world)
    (hstate : state ∈ layer.machine.states) :
    execution.text ∈ layer.machine.axions := by
  unfold enterExecutions at hexecution
  split at hexecution
  · simp at hexecution
  · next hentry =>
    obtain rfl := List.mem_singleton.mp hexecution
    exact Machine.entry_mem_axions hstate (by simpa using hentry)

/-- A move executes axions of the two states only. -/
theorem text_mem_of_mem_moveExecutions (hstate : state ∈ layer.machine.states)
    (hnext : next ∈ layer.machine.states)
    (hexecution : execution ∈ layer.moveExecutions handler state next position context now world) :
    execution.text ∈ layer.machine.axions := by
  rcases List.mem_append.mp hexecution with hleave | henter
  · exact text_mem_of_mem_leaveExecutions hleave hstate
  · obtain ⟨frames, hleft⟩ := (layer.leaveState_yields state .leave context).run handler world
    rw [hleft] at henter
    have hentered := text_mem_of_mem_enterExecutions henter hnext
    exact hentered

theorem length_leaveExecutions_le (layer : Layer) (state : State) (phase : Phase)
    (context : WalkContext) (world : σ) :
    (layer.leaveExecutions state phase context world).length ≤ 1 := by
  unfold leaveExecutions
  split <;> simp

theorem length_enterExecutions_le (layer : Layer) (state : State) (context : WalkContext)
    (world : σ) : (layer.enterExecutions state context world).length ≤ 1 := by
  unfold enterExecutions
  split <;> simp

/-- A move executes at most one axion for each of the two states. -/
theorem length_moveExecutions_le (handler : Handler σ) (layer : Layer) (source next : State)
    (position : Nat) (context : WalkContext) (now : Instant) (world : σ) :
    (layer.moveExecutions handler source next position context now world).length ≤ 2 := by
  unfold moveExecutions
  rw [List.length_append]
  exact Nat.add_le_add (length_leaveExecutions_le ..) (length_enterExecutions_le ..)

/-! ### Walks -/

/-- A walk executes axions of its machine only. -/
theorem text_mem_of_mem_walkExecutions {remaining : Nat} {previous : String}
    {selected : Option String} (hstate : state ∈ layer.machine.states)
    (hexecution : execution ∈
      walkExecutions handler event now remaining state previous selected layer world) :
    execution.text ∈ layer.machine.axions := by
  induction remaining generalizing state previous selected layer world with
  | zero => simp [walkExecutions] at hexecution
  | succ remaining ih =>
    cases selected with
    | none => simp [walkExecutions] at hexecution
    | some target =>
      cases hfound : layer.machine.search? layer.current target with
      | none => simp [walkExecutions, hfound] at hexecution
      | some found =>
        obtain ⟨next, position⟩ := found
        have hnext : next ∈ layer.machine.states :=
          List.mem_of_getElem? (Machine.getElem?_of_search? hfound)
        rw [walkExecutions_of_search? _ _ _ _ _ _ hfound] at hexecution
        rcases List.mem_append.mp hexecution with hmove | hrest
        · exact text_mem_of_mem_moveExecutions hstate hnext hmove
        · split at hrest
          · simp at hrest
          · have hmoved := ((move_yields state ⟨event, previous⟩ now hfound).run handler
              (handler (.log (.moving layer.id state.label event target)) world).2).1
            rw [← hmoved.machine_eq] at hnext ⊢
            exact ih hnext hrest

/-- A walk executes at most two axions for each of its moves. -/
theorem length_walkExecutions_le (handler : Handler σ) (event : String) (now : Instant)
    (remaining : Nat) (state : State) (previous : String) (selected : Option String)
    (layer : Layer) (world : σ) :
    (walkExecutions handler event now remaining state previous selected layer world).length ≤
      2 * remaining := by
  induction remaining generalizing state previous selected layer world with
  | zero => simp [walkExecutions]
  | succ remaining ih =>
    cases selected with
    | none => simp [walkExecutions]
    | some target =>
      cases hfound : layer.machine.search? layer.current target with
      | none => simp [walkExecutions, hfound]
      | some found =>
        obtain ⟨next, position⟩ := found
        rw [walkExecutions_of_search? _ _ _ _ _ _ hfound, List.length_append]
        have hmove := layer.length_moveExecutions_le handler state next position ⟨event, previous⟩
          now (handler (.log (.moving layer.id state.label event target)) world).2
        split
        · rw [List.length_nil]
          omega
        · exact Nat.le_trans (Nat.add_le_add hmove (ih next _ _ _ _)) (by omega)

/-- A layer that follows an event executes axions of its machine only. -/
theorem text_mem_axions {limit : Nat}
    (hexecution : execution ∈ layer.executions handler event now limit world) :
    execution.text ∈ layer.machine.axions := by
  unfold executions at hexecution
  cases hstate : layer.state? with
  | none => simp [hstate] at hexecution
  | some state =>
    simp only [hstate] at hexecution
    have hmem : state ∈ layer.machine.states := List.mem_of_getElem? hstate
    rcases List.mem_append.mp hexecution with hwalk | hfinish
    · exact text_mem_of_mem_walkExecutions hmem hwalk
    · have hsame : layer.IsSame _ := ((isStable_isSame layer).walk event now limit limit state ""
        (state.next? event) (.refl layer)).run handler world
      unfold finishExecutions at hfinish
      split at hfinish
      · next last hlast =>
        split at hfinish
        · rw [← hsame.machine_eq]
          exact text_mem_of_mem_leaveExecutions hfinish (List.mem_of_getElem? hlast)
        · simp at hfinish
      · simp at hfinish

/-- A layer that follows an event executes at most two axions for each of its moves, and one more
when it is finished. -/
theorem length_executions_le (handler : Handler σ) (layer : Layer) (event : String) (now : Instant)
    (limit : Nat) (world : σ) :
    (layer.executions handler event now limit world).length ≤ 2 * limit + 1 := by
  unfold executions
  cases layer.state? with
  | none => simp
  | some state =>
    dsimp only
    rw [List.length_append]
    refine Nat.add_le_add (length_walkExecutions_le ..) ?_
    unfold finishExecutions
    split
    · split
      · exact length_leaveExecutions_le ..
      · simp
    · simp

end Layer

end LayeredMachines
