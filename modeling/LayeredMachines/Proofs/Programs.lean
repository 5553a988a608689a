import LayeredMachines.Program

/-!
# What holds along the run of a program

A program says nothing of what its calls do. This file carries properties of single calls to
whole runs: an invariant of the handler holds in every state of a run, two handlers that agree
on every call agree on every run, and a property of all ends of a program holds of its value
under any handler.
-/

namespace LayeredMachines.Program

variable {α β σ τ : Type}

/-- The states of a run: the one that it starts in, and the one after each call. -/
def states (handler : Handler σ) : Program α → σ → List σ
  | .done _, state => [state]
  | .ask call next, state =>
    let (answer, after) := handler call state
    state :: (next answer).states handler after

/-- A run starts in one of its states. -/
theorem start_mem_states (handler : Handler σ) (program : Program α) (state : σ) :
    state ∈ program.states handler state := by
  cases program with
  | done => exact List.mem_singleton.mpr rfl
  | ask call next => exact List.mem_cons_self

/-- A run ends in one of its states. -/
theorem run_mem_states (handler : Handler σ) (program : Program α) (state : σ) :
    (program.run handler state).2 ∈ program.states handler state := by
  induction program generalizing state with
  | done => exact List.mem_singleton.mpr rfl
  | ask call next ih => exact List.mem_cons_of_mem _ (ih _ _)

/-- What every call keeps holds in all states of a run. -/
theorem forall_mem_states {handler : Handler σ} {holds : σ → Prop}
    (hcall : ∀ call state, holds state → holds (handler call state).2) (program : Program α)
    {state : σ} (hstate : holds state) : ∀ mid ∈ program.states handler state, holds mid := by
  induction program generalizing state with
  | done => exact fun mid hmid => List.mem_singleton.mp hmid ▸ hstate
  | ask call next ih =>
    intro mid hmid
    rcases List.mem_cons.mp hmid with rfl | hlater
    · exact hstate
    · exact ih _ (hcall call state hstate) mid hlater

/-- What every call keeps holds at the end of a run. -/
theorem run_invariant {handler : Handler σ} {holds : σ → Prop}
    (hcall : ∀ call state, holds state → holds (handler call state).2) (program : Program α)
    {state : σ} (hstate : holds state) : holds (program.run handler state).2 :=
  forall_mem_states hcall program hstate _ (run_mem_states handler program state)

/-- Where every call leads from a state to one above it, each state of a run has the end of the run
above it. -/
theorem run_above_of_mem_states {handler : Handler σ} (above : σ → σ → Prop)
    (hrefl : ∀ state, above state state)
    (htrans : ∀ {first second third}, above first second → above second third → above first third)
    (hcall : ∀ call state, above state (handler call state).2) (program : Program α)
    {state mid : σ} (hmid : mid ∈ program.states handler state) :
    above mid (program.run handler state).2 := by
  induction program generalizing state with
  | done =>
    obtain rfl := List.mem_singleton.mp hmid
    exact hrefl mid
  | ask call next ih =>
    rcases List.mem_cons.mp hmid with rfl | hlater
    · have hkept (call : Call) (later : σ) (hlater : above mid later) :
          above mid (handler call later).2 := htrans hlater (hcall call later)
      exact run_invariant hkept (.ask call next) (hrefl mid)
    · exact ih _ hlater

/-- Two handlers that give the same answers in related states, and keep the states related, run a
program to the same value. -/
theorem run_related {handler : Handler σ} {other : Handler τ} {related : σ → τ → Prop}
    (hcall : ∀ call s t, related s t →
      (handler call s).1 = (other call t).1 ∧ related (handler call s).2 (other call t).2)
    (program : Program α) {s : σ} {t : τ} (hstates : related s t) :
    (program.run handler s).1 = (program.run other t).1 ∧
      related (program.run handler s).2 (program.run other t).2 := by
  induction program generalizing s t with
  | done => exact ⟨rfl, hstates⟩
  | ask call next ih =>
    obtain ⟨hanswer, hafter⟩ := hcall call s t hstates
    simp only [run]
    rw [hanswer]
    exact ih _ hafter

/-! ### The calls of a run -/

/-- The calls of a run in their order, each with the state that it is made in. -/
def calls (handler : Handler σ) : Program α → σ → List (σ × Call)
  | .done _, _ => []
  | .ask call next, state =>
    let (answer, after) := handler call state
    (state, call) :: (next answer).calls handler after

/-- Without their states the calls of a run are its trace. -/
theorem map_snd_calls (handler : Handler σ) (program : Program α) (state : σ) :
    (program.calls handler state).map Prod.snd = program.trace handler state := by
  induction program generalizing state with
  | done => rfl
  | ask call next ih => exact congrArg (call :: ·) (ih _ _)

/-- A program that makes no calls has none in its run. -/
@[simp] theorem calls_pure (handler : Handler σ) (value : α) (state : σ) :
    (pure value : Program α).calls handler state = [] := rfl

/-- The calls of two programs in a row are those of the first and then those of the second. -/
@[simp] theorem calls_bind (handler : Handler σ) (program : Program α) (next : α → Program β)
    (state : σ) :
    (program >>= next).calls handler state =
      program.calls handler state ++
        (next (program.run handler state).1).calls handler (program.run handler state).2 := by
  induction program generalizing state with
  | done => rfl
  | ask call rest ih => exact congrArg ((state, call) :: ·) (ih _ _)

/-- A program whose value is changed in the end makes the calls of the program. -/
@[simp] theorem calls_map (handler : Handler σ) (change : α → β) (program : Program α)
    (state : σ) :
    (change <$> program).calls handler state = program.calls handler state :=
  (calls_bind handler program (fun value => pure (change value)) state).trans
    (List.append_nil _)

/-- The program of one call makes this call in the state that it starts in. -/
@[simp] theorem calls_call (handler : Handler σ) (call : Call) (state : σ) :
    (Program.call call).calls handler state = [(state, call)] := rfl

/-- The program that writes a line makes one call. -/
@[simp] theorem calls_log (handler : Handler σ) (line : Diagnostic) (state : σ) :
    (log line).calls handler state = [(state, .log line)] := rfl

/-- A call leads from one of the states of the run to another one. -/
theorem mem_states_of_mem_calls {handler : Handler σ} {program : Program α} {state mid : σ}
    {call : Call} (hcall : (mid, call) ∈ program.calls handler state) :
    mid ∈ program.states handler state ∧
      (handler call mid).2 ∈ program.states handler state := by
  induction program generalizing state with
  | done => simp [calls] at hcall
  | ask first next ih =>
    rcases List.mem_cons.mp hcall with heq | hlater
    · obtain ⟨rfl, rfl⟩ := Prod.mk.inj heq
      exact ⟨List.mem_cons_self, List.mem_cons_of_mem _ (start_mem_states handler _ _)⟩
    · obtain ⟨hbefore, hafter⟩ := ih _ hlater
      exact ⟨List.mem_cons_of_mem _ hbefore, List.mem_cons_of_mem _ hafter⟩

/-- A bound that is kept when a run starts and is passed when it ends was passed by one of its
calls. -/
theorem exists_call_passing (size : σ → Nat) {bound : Nat} (handler : Handler σ)
    (program : Program α) (state : σ) (hstart : size state ≤ bound)
    (hend : bound < size (program.run handler state).2) :
    ∃ mid call, (mid, call) ∈ program.calls handler state ∧ size mid ≤ bound ∧
      bound < size (handler call mid).2 := by
  induction program generalizing state with
  | done =>
    have hkept : bound < size state := hend
    omega
  | ask call next ih =>
    by_cases hpassed : bound < size (handler call state).2
    · exact ⟨state, call, List.mem_cons_self, hstart, hpassed⟩
    · obtain ⟨mid, later, hlater, hpassing⟩ := ih _ _ (Nat.not_lt.mp hpassed) hend
      exact ⟨mid, later, List.mem_cons_of_mem _ hlater, hpassing⟩

/-! ### Properties of all runs -/

/-- Every end of a program has a property, whatever the calls are answered. -/
def Yields (holds : α → Prop) : Program α → Prop
  | .done value => holds value
  | .ask _ next => ∀ answer, (next answer).Yields holds

/-- What all ends of a program have, its value under a handler has. -/
theorem Yields.run {holds : α → Prop} {program : Program α} (hyields : program.Yields holds)
    (handler : Handler σ) (state : σ) : holds (program.run handler state).1 := by
  induction program generalizing state with
  | done => exact hyields
  | ask call next ih => exact ih _ (hyields _) _

/-- A program that goes on with another one from each of its ends has the ends of the others. -/
theorem Yields.bind {holds : α → Prop} {after : β → Prop} {program : Program α}
    {next : α → Program β} (hyields : program.Yields holds)
    (hnext : ∀ value, holds value → (next value).Yields after) :
    (program >>= next).Yields after := by
  induction program with
  | done value => exact hnext value hyields
  | ask call rest ih => exact fun answer => ih answer (hyields answer)

/-- A program all of whose ends have a property has ends with every weaker one. -/
theorem Yields.mono {holds weaker : α → Prop} {program : Program α}
    (hyields : program.Yields holds) (hweaker : ∀ value, holds value → weaker value) :
    program.Yields weaker := by
  induction program with
  | done value => exact hweaker value hyields
  | ask call rest ih => exact fun answer => ih answer (hyields answer)

/-- A program that goes on with another one from any value has the ends of the others. -/
theorem yields_bind {holds : β → Prop} {next : α → Program β}
    (hnext : ∀ value, (next value).Yields holds) (program : Program α) :
    (program >>= next).Yields holds := by
  induction program with
  | done value => exact hnext value
  | ask call rest ih => exact fun answer => ih answer

end LayeredMachines.Program
