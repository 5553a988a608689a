import LayeredMachines.Proofs.Programs

/-!
# Programs that differ in their wording

Two programs are in step if they make the same calls in the same order, apart from the wording of
the lines that they write, and go on in step whatever the calls are answered. Handlers that do not
care about the wording run them to related ends.
-/

namespace LayeredMachines.Program

variable {α β γ δ σ τ : Type} {wording : Diagnostic → Diagnostic → Prop} {ends : α → β → Prop}

/-- The programs make the same calls, except for lines, each of which is worded as it is in the
other program, and end in related values. -/
inductive InStep (wording : Diagnostic → Diagnostic → Prop) (ends : α → β → Prop) :
    Program α → Program β → Prop
  | done {a : α} {b : β} (hends : ends a b) : InStep wording ends (.done a) (.done b)
  | ask (call : Call) {next : call.Answer → Program α} {other : call.Answer → Program β}
      (hcall : ∀ line, call ≠ .log line)
      (hnext : ∀ answer, InStep wording ends (next answer) (other answer)) :
      InStep wording ends (.ask call next) (.ask call other)
  | log {line worded : Diagnostic} {next : Unit → Program α} {other : Unit → Program β}
      (hline : wording line worded) (hnext : InStep wording ends (next ()) (other ())) :
      InStep wording ends (.ask (.log line) next) (.ask (.log worded) other)

/-- Programs that are in step and go on in step from related ends are in step. -/
theorem InStep.bind {after : γ → δ → Prop} {program : Program α} {other : Program β}
    {next : α → Program γ} {otherNext : β → Program δ} (hstep : InStep wording ends program other)
    (hnext : ∀ a b, ends a b → InStep wording after (next a) (otherNext b)) :
    InStep wording after (program >>= next) (other >>= otherNext) := by
  induction hstep with
  | done hends => exact hnext _ _ hends
  | ask call hcall _ ih => exact .ask call hcall ih
  | log hline _ ih => exact .log hline ih

/-- Two lines may be written before programs that are in step. -/
theorem InStep.log_bind {line worded : Diagnostic} {program : Program α} {other : Program β}
    (hline : wording line worded) (hstep : InStep wording ends program other) :
    InStep wording ends (Program.log line >>= fun _ => program)
      (Program.log worded >>= fun _ => other) :=
  .log hline hstep

/-- Two handlers that give the same answers to calls other than lines in related states, and keep
the states related also by lines, run programs that are in step to related values and states. -/
theorem InStep.run {handler : Handler σ} {other : Handler τ} {related : σ → τ → Prop}
    {left : Program α} {right : Program β} (hstep : InStep wording ends left right)
    (hcall : ∀ call s t, (∀ line, call ≠ .log line) → related s t →
      (handler call s).1 = (other call t).1 ∧ related (handler call s).2 (other call t).2)
    (hline : ∀ line worded s t, wording line worded → related s t →
      related (handler (.log line) s).2 (other (.log worded) t).2)
    {s : σ} {t : τ} (hstates : related s t) :
    ends (left.run handler s).1 (right.run other t).1 ∧
      related (left.run handler s).2 (right.run other t).2 := by
  induction hstep generalizing s t with
  | done hends => exact ⟨hends, hstates⟩
  | ask call hmade _ ih =>
    obtain ⟨hanswer, hafter⟩ := hcall call s t hmade hstates
    simp only [Program.run]
    rw [hanswer]
    exact ih _ hafter
  | @log line worded _ _ hworded _ ih => exact ih (hline line worded s t hworded hstates)

/-- Programs that are in step, and word their lines alike, make the same calls under one handler and
leave the same world behind. -/
theorem InStep.run_eq {left : Program α} {right : Program β}
    (hstep : InStep wording ends left right)
    (hwording : ∀ line worded, wording line worded → line = worded) (handler : Handler σ)
    (world : σ) :
    left.trace handler world = right.trace handler world ∧
      (left.run handler world).2 = (right.run handler world).2 ∧
      ends (left.run handler world).1 (right.run handler world).1 := by
  induction hstep generalizing world with
  | done hends => exact ⟨rfl, rfl, hends⟩
  | ask call _ _ ih =>
    obtain ⟨htrace, hworld, hends⟩ := ih _ (handler call world).2
    exact ⟨congrArg (call :: ·) htrace, hworld, hends⟩
  | @log line worded _ _ hline _ ih =>
    obtain rfl := hwording line worded hline
    obtain ⟨htrace, hworld, hends⟩ := ih (handler (.log line) world).2
    exact ⟨congrArg (Call.log line :: ·) htrace, hworld, hends⟩

end LayeredMachines.Program
