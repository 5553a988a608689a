import LayeredMachines.Proofs.Programs.Wording

/-!
# Programs that only write lines

A program that makes no call but lines has one end, whatever it runs in. It may still ask to be
taken out as the last thing that it does, for then it does not heed the answer.
-/

namespace LayeredMachines.Program

variable {α β σ : Type} {leaves : Bool} {value : α} {last : β} {program : Program α}

/-- The program writes lines and ends in the value. If it `leaves`, it asks to be taken out in the
end. -/
inductive Writes : Bool → α → Program α → Prop
  | done (value : α) : Writes false value (.done value)
  | pop {value : α} {next : Outcome → Program α} (hnext : ∀ answer, next answer = .done value) :
      Writes true value (.ask .pop next)
  | log {leaves : Bool} {value : α} (line : Diagnostic) {next : Unit → Program α}
      (hnext : Writes leaves value (next ())) : Writes leaves value (.ask (.log line) next)

/-- Two programs that only write lines do so in a row. -/
theorem Writes.bind {next : α → Program β} (h : Writes false value program)
    (hnext : Writes leaves last (next value)) : Writes leaves last (program >>= next) := by
  generalize hstays : false = stays at h
  induction h with
  | done => exact hnext
  | pop => simp at hstays
  | log line _ ih => exact .log line (ih hnext hstays)

/-- A line may be written first. -/
theorem Writes.log_bind (line : Diagnostic) (h : Writes leaves value program) :
    Writes leaves value (Program.log line >>= fun _ => program) :=
  .log line h

/-- A program that only writes lines has one end, whatever it runs in. -/
theorem Writes.run_fst (h : Writes leaves value program) (handler : Handler σ) (world : σ) :
    (program.run handler world).1 = value := by
  induction h generalizing world with
  | done => rfl
  | pop hnext =>
    simp only [run, hnext]
  | log line _ ih => exact ih _

/-- What all ends of a program have, its one end has. -/
theorem Writes.of_yields {holds : α → Prop} (h : Writes leaves value program)
    (hyields : program.Yields holds) : holds value := by
  induction h with
  | done => exact hyields
  | pop hnext =>
    have hend := hyields .success
    rwa [hnext] at hend
  | log _ _ ih => exact ih (hyields ())

/-- Two programs that are in step and only write lines have related ends. -/
theorem Writes.rel {wording : Diagnostic → Diagnostic → Prop} {ends : α → β → Prop}
    {leavesToo : Bool} {other : Program β} (h : Writes leaves value program)
    (hother : Writes leavesToo last other) (hstep : InStep wording ends program other) :
    ends value last := by
  induction hstep with
  | done hends =>
    cases h
    cases hother
    exact hends
  | ask call hcall hnext ih =>
    cases h with
    | pop hleft =>
      cases hother with
      | pop hright =>
        have hends := hnext .success
        rw [hleft, hright] at hends
        cases hends with
        | done hends => exact hends
    | log line => exact absurd rfl (hcall line)
  | log _ _ ih =>
    cases h with
    | log _ hleft =>
      cases hother with
      | log _ hright => exact ih hleft hright

end LayeredMachines.Program
