import LayeredMachines.Axion.Basic
import LayeredMachines.Text.Decimal

/-!
# Verbs

The verb of an axion is one of sixteen built-in ones, whose names are matched without regard to
case, or else a custom verb that is left to the application. Each built-in verb picks its own
arguments out of the parameters.
-/

namespace LayeredMachines

/-- The built-in verbs. -/
inductive Builtin where
  | start | raise | blast | patch | write | count | timer | trace
  | set | inc | dec | equ | rem | use | new | pop
  deriving DecidableEq

namespace Builtin

/-- The built-in verbs in their order of precedence. -/
def all : List Builtin :=
  [.start, .raise, .blast, .patch, .write, .count, .timer, .trace,
   .set, .inc, .dec, .equ, .rem, .use, .new, .pop]

/-- The name of a built-in verb. -/
def name : Builtin → String
  | .start => "start" | .raise => "raise" | .blast => "blast" | .patch => "patch"
  | .write => "write" | .count => "count" | .timer => "timer" | .trace => "trace"
  | .set => "set" | .inc => "inc" | .dec => "dec" | .equ => "equ"
  | .rem => "rem" | .use => "use" | .new => "new" | .pop => "pop"

/-- The built-in verb with a name equal to the text up to case and blank characters around it. -/
def ofText? (text : String) : Option Builtin :=
  let name := String.ofList (trim text.toList)
  all.find? fun builtin => caselessEq builtin.name name

end Builtin

/-- A verb with its arguments. -/
inductive Verb where
  /-- Start a layer of `machine` below this one, with `seed` for its variables. -/
  | start (machine : String) (seed : List Parameter)
  /-- Send `event` to the layer above. -/
  | raise (event : String)
  /-- Send `event` to all layers below. -/
  | blast (event : String)
  /-- Notify the application. -/
  | patch (command status : String)
  /-- Bind a variable of the layer above. -/
  | write (label value : String)
  /-- Count the layers below whose variables match `tuple`. -/
  | count (tuple : List Parameter)
  /-- Send `event` to this layer after `delay` milliseconds, if there is a valid delay. -/
  | timer (delay : Option Nat) (event : String)
  /-- Write a diagnostic line. -/
  | trace (text : String)
  /-- Bind a variable of this layer. -/
  | set (label value : String)
  /-- Add to a variable of this layer. -/
  | inc (label amount : String)
  /-- Subtract from a variable of this layer. -/
  | dec (label amount : String)
  /-- Compare a variable of this layer. -/
  | equ (label value : String)
  /-- The event that the walk follows on. -/
  | rem
  /-- The result of the entry before. -/
  | use
  /-- Open a frame of variables. -/
  | new
  /-- Drop the innermost frame of variables. -/
  | pop
  /-- A verb of the application. -/
  | custom (verb : String) (parameters : List Parameter)
  deriving DecidableEq

namespace Axion

/-- What `count` compares: a `label` parameter names the one variable and `value` its value;
without one, every labelled parameter names a variable. -/
def tuple (axion : Axion) : List Parameter :=
  let label := axion.valueOf "label" ""
  if label.isEmpty then axion.labelled else [⟨label, axion.valueOf "value" ""⟩]

/-- The delay of a timer is a signed 64-bit integer that is not negative. -/
def delay (axion : Axion) : Option Nat :=
  match Decimal.signed64? (axion.valueOf "expires" "") with
  | some n => if n < 0 then none else some n.toNat
  | none => none

/-- The verb of an axion with the arguments it picks from the parameters. -/
def toVerb (axion : Axion) : Verb :=
  match Builtin.ofText? axion.verb with
  | some .start => .start (axion.valueOf "machine" "") (axion.without "machine")
  | some .raise => .raise (axion.valueOf "event" "")
  | some .blast => .blast (axion.valueOf "event" "")
  | some .patch => .patch (axion.valueOf "command" "") (axion.valueOf "status" "")
  | some .write => .write (axion.valueOf "label" "") (axion.valueOf "value" "")
  | some .count => .count axion.tuple
  | some .timer => .timer axion.delay (axion.valueOf "event" "")
  | some .trace => .trace (axion.valueOf "debug" "")
  | some .set => .set (axion.valueOf "label" "") (axion.valueOf "value" "")
  | some .inc => .inc (axion.valueOf "label" "") (axion.valueOf "value" "0")
  | some .dec => .dec (axion.valueOf "label" "") (axion.valueOf "value" "0")
  | some .equ => .equ (axion.valueOf "label" "") (axion.valueOf "value" "")
  | some .rem => .rem
  | some .use => .use
  | some .new => .new
  | some .pop => .pop
  | none => .custom axion.verb axion.parameters

end Axion

end LayeredMachines
