import LayeredMachines.Axion.Basic
import LayeredMachines.Diagnostic

/-!
# Programs of calls

A layer acts on the world around it only through calls. A program is a tree of calls, each with
what to do on every answer, and ends in a value. It says nothing of what the calls do: that is for
a handler, which answers them one by one over a state of its own.
-/

namespace LayeredMachines

/-- A call that a layer makes to what it runs in. -/
inductive Call where
  /-- Start a layer of `machine` below this one. -/
  | start (machine : String) (seed : List Parameter)
  /-- Send `event` to the layer above. -/
  | raise (event : String)
  /-- Send `event` to all layers below. -/
  | blast (event : String)
  /-- Notify the application of a command. -/
  | patch (command status : String)
  /-- Bind a variable of the layer above. -/
  | write (label value : String)
  /-- Count the layers below that match. -/
  | count (tuple : List Parameter)
  /-- Send `event` to this layer after a number of milliseconds. -/
  | timer (delay : Nat) (event : String)
  /-- Write a line for this layer. -/
  | trace (text : String)
  /-- Take this layer out of the hierarchy. -/
  | pop
  /-- Run a verb of the application. -/
  | execute (verb : String) (parameters : List Parameter)
  /-- Write a line. -/
  | log (line : Diagnostic)
  deriving DecidableEq

/-- The type of the answers to a call. -/
@[reducible] def Call.Answer : Call → Type
  | .start .. | .raise .. | .blast .. | .patch .. | .write .. | .timer .. | .trace .. | .pop =>
    Outcome
  | .count .. => Nat
  | .execute .. => String
  | .log .. => Unit

/-- A tree of calls that ends in values. -/
inductive Program (α : Type) : Type where
  | done (value : α)
  | ask (call : Call) (next : call.Answer → Program α)

/-- What answers calls over a state. -/
abbrev Handler (σ : Type) : Type :=
  (call : Call) → σ → call.Answer × σ

namespace Program

variable {α β σ : Type}

/-- Go on with another program where one ends. -/
def bind : Program α → (α → Program β) → Program β
  | .done value, next => next value
  | .ask call rest, next => .ask call fun answer => (rest answer).bind next

instance : Monad Program where
  pure := .done
  bind := bind

/-- The program of one call, which ends in its answer. -/
def call (call : Call) : Program call.Answer :=
  .ask call .done

/-- Write a line. -/
def log (line : Diagnostic) : Program Unit :=
  call (.log line)

/-- The value that a program ends in under a handler, and the handler's state then. -/
def run (handler : Handler σ) : Program α → σ → α × σ
  | .done value, state => (value, state)
  | .ask call next, state =>
    let (answer, state) := handler call state
    (next answer).run handler state

/-- The calls that a program makes under a handler, in their order. -/
def trace (handler : Handler σ) : Program α → σ → List Call
  | .done _, _ => []
  | .ask call next, state =>
    let (answer, state) := handler call state
    call :: (next answer).trace handler state

/-- A program that makes no calls leaves the state as it is. -/
@[simp] theorem run_pure (handler : Handler σ) (value : α) (state : σ) :
    (pure value : Program α).run handler state = (value, state) := rfl

/-- Running one program and then another is running both in one. -/
@[simp] theorem run_bind (handler : Handler σ) (program : Program α) (next : α → Program β)
    (state : σ) :
    (program >>= next).run handler state =
      (next (program.run handler state).1).run handler (program.run handler state).2 := by
  induction program generalizing state with
  | done => rfl
  | ask call rest ih => exact ih _ _

/-- A program whose value is changed in the end runs like the program. -/
@[simp] theorem run_map (handler : Handler σ) (change : α → β) (program : Program α)
    (state : σ) :
    (change <$> program).run handler state =
      (change (program.run handler state).1, (program.run handler state).2) :=
  run_bind handler program (fun value => pure (change value)) state

/-- The program of one call ends in what the handler answers. -/
@[simp] theorem run_call (handler : Handler σ) (call : Call) (state : σ) :
    (Program.call call).run handler state = handler call state := rfl

/-- The program that writes a line ends without a value. -/
@[simp] theorem run_log (handler : Handler σ) (line : Diagnostic) (state : σ) :
    (log line).run handler state = ((), (handler (.log line) state).2) := rfl

/-- A program that makes no calls has an empty trace. -/
@[simp] theorem trace_pure (handler : Handler σ) (value : α) (state : σ) :
    (pure value : Program α).trace handler state = [] := rfl

/-- The calls of two programs in a row are those of the first and then those of the second. -/
@[simp] theorem trace_bind (handler : Handler σ) (program : Program α) (next : α → Program β)
    (state : σ) :
    (program >>= next).trace handler state =
      program.trace handler state ++
        (next (program.run handler state).1).trace handler (program.run handler state).2 := by
  induction program generalizing state with
  | done => rfl
  | ask call rest ih => exact congrArg (call :: ·) (ih _ _)

/-- A program whose value is changed in the end makes the calls of the program. -/
@[simp] theorem trace_map (handler : Handler σ) (change : α → β) (program : Program α)
    (state : σ) :
    (change <$> program).trace handler state = program.trace handler state :=
  (trace_bind handler program (fun value => pure (change value)) state).trans
    (List.append_nil _)

/-- The program of one call makes this call. -/
@[simp] theorem trace_call (handler : Handler σ) (call : Call) (state : σ) :
    (Program.call call).trace handler state = [call] := rfl

/-- The program that writes a line makes one call. -/
@[simp] theorem trace_log (handler : Handler σ) (line : Diagnostic) (state : σ) :
    (log line).trace handler state = [.log line] := rfl

/-- A program that goes on with its own value is the program itself. -/
theorem bind_done (program : Program α) : program.bind .done = program := by
  induction program with
  | done => rfl
  | ask call rest ih => exact congrArg (Program.ask call) (funext ih)

/-- It does not matter how a sequence of programs is grouped. -/
theorem bind_bind {γ : Type} (program : Program α) (next : α → Program β)
    (last : β → Program γ) :
    (program.bind next).bind last = program.bind fun value => (next value).bind last := by
  induction program with
  | done => rfl
  | ask call rest ih => exact congrArg (Program.ask call) (funext ih)

instance : LawfulMonad Program :=
  LawfulMonad.mk' Program bind_done (fun _ _ => rfl) bind_bind

end Program

end LayeredMachines
