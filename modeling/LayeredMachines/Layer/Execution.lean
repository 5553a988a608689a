import LayeredMachines.Axion.Marker
import LayeredMachines.Axion.Verb
import LayeredMachines.Program

/-!
# Execution of axions

An axion is executed when a state is entered, when it is left, and once more when its layer is
finished in it. Only the result on entry matters to the walk. On leaving, the verbs that reach
other layers or the application need their first argument, and a finished layer runs no other
verbs than these.
-/

namespace LayeredMachines

/-- When an axion is executed. -/
inductive Phase where
  | entry
  | leave
  | final
  deriving DecidableEq

/-- What a walk tells its axions: the event it follows, and the result of the entry before. -/
structure WalkContext where
  external : String
  previous : String

/-- A verb that reaches beyond its layer without asking anything back. -/
def Verb.reachesOut : Verb → Bool
  | .start .. | .patch .. | .write .. | .blast .. | .raise .. => true
  | _ => false

/-- Outside entries a verb is passed over if its first argument is empty. -/
def Phase.passesOver (phase : Phase) (argument : String) : Bool :=
  phase != .entry && argument.isEmpty

namespace FrameStack

/-- Change the number that `label` is bound to. An unbound label counts as zero. If a number cannot
be read or the result does not fit, zero is bound. -/
def adjust (stack : FrameStack) (change : Int → Int → Int) (label amount : String) :
    Outcome × FrameStack :=
  let result := do
    let current ← Decimal.signed64? (stack.lookupOr label "0")
    let amount ← Decimal.signed64? amount
    Signed64.checked (change current amount)
  match result with
  | some number => (.success, stack.apply label (Decimal.ofInt number))
  | none => (.failure, stack.apply label "0")

end FrameStack

/-- Make a call that answers with an outcome, which is the result. The variables stay as they
are. -/
def Program.request (stack : FrameStack) (call : Program Outcome) :
    Program (String × FrameStack) := do
  let outcome ← call
  pure (outcome.text, stack)

/-- Make a call whose first argument is given, unless the phase passes over it. -/
def Phase.request (phase : Phase) (argument : String) (stack : FrameStack)
    (call : Program Outcome) : Program (String × FrameStack) :=
  if phase.passesOver argument then pure ("", stack) else Program.request stack call

namespace Verb

/-- What a verb does for a layer with the given variables: its result, and the variables then. -/
def execute (verb : Verb) (phase : Phase) (context : WalkContext) (layer : LayerId)
    (stack : FrameStack) : Program (String × FrameStack) :=
  match verb with
  | .start machine seed => phase.request machine stack (Program.call (.start machine seed))
  | .raise event => phase.request event stack (Program.call (.raise event))
  | .blast event => phase.request event stack (Program.call (.blast event))
  | .patch command status => phase.request command stack (Program.call (.patch command status))
  | .write label value => phase.request label stack (Program.call (.write label value))
  | .count tuple => do
    let number ← Program.call (.count tuple)
    pure (Decimal.ofNat number, stack)
  | .timer none _ => pure (Outcome.invalid.text, stack)
  | .timer (some delay) event =>
    if event.isEmpty then pure (Outcome.invalid.text, stack)
    else Program.request stack (Program.call (.timer delay event))
  | .trace text => Program.request stack (Program.call (.trace text))
  | .set label value => pure (Outcome.success.text, stack.apply label value)
  | .inc label amount =>
    let (outcome, stack) := stack.adjust (· + ·) label amount
    pure (outcome.text, stack)
  | .dec label amount =>
    let (outcome, stack) := stack.adjust (· - ·) label amount
    pure (outcome.text, stack)
  | .equ label value => do
    let current := stack.lookupOr label "0"
    let outcome := if caselessEq current value then Outcome.success else Outcome.notSame
    Program.log (.compared layer current outcome)
    pure (outcome.text, stack)
  | .rem => pure (context.external, stack)
  | .use => pure (context.previous, stack)
  | .new => pure ("", stack.push)
  | .pop => pure ("", stack.pop)
  | .custom verb parameters => do
    let result ← Program.call (.execute verb parameters)
    pure (result, stack)

end Verb

/-- What the text of an axion does for a layer with the given variables. Its result is empty
outside entries. -/
def executeText (text : String) (phase : Phase) (context : WalkContext) (layer : LayerId)
    (stack : FrameStack) : Program (String × FrameStack) :=
  let verb := ((Axion.split text).expand stack).toVerb
  match phase with
  | .entry => verb.execute .entry context layer stack
  | .leave => do
    let (_, stack) ← verb.execute .leave context layer stack
    pure ("", stack)
  | .final =>
    if verb.reachesOut then do
      let (_, stack) ← verb.execute .final context layer stack
      pure ("", stack)
    else pure ("", stack)

end LayeredMachines
