import LayeredMachines.Text.Caseless

/-!
# Frames of variables

A frame is one scope of variables: values bound to labels that are compared without regard to
case. A label keeps the spelling and the position of its first binding.
-/

namespace LayeredMachines

/-- The bindings of one scope, the oldest first. -/
structure Frame where
  bindings : List (String × String)
  deriving DecidableEq

namespace Frame

/-- The frame without bindings. -/
def empty : Frame :=
  ⟨[]⟩

/-- The value of the first binding of `label`. -/
def get? (frame : Frame) (label : String) : Option String :=
  (frame.bindings.find? fun binding => caselessEq binding.1 label).map Prod.snd

/-- A frame contains the labels that it has a value for. -/
def contains (frame : Frame) (label : String) : Bool :=
  (frame.get? label).isSome

/-- The bindings with `value` for the first binding of `label`, which is added at the end if there
is none. -/
def bind (label value : String) : List (String × String) → List (String × String)
  | [] => [(label, value)]
  | binding :: rest =>
    if caselessEq binding.1 label then (binding.1, value) :: rest
    else binding :: bind label value rest

/-- The frame in which `label` has `value`. The empty label cannot be bound. -/
def set (frame : Frame) (label value : String) : Frame :=
  if label.isEmpty then frame else ⟨bind label value frame.bindings⟩

/-- The number of bindings. -/
def size (frame : Frame) : Nat :=
  frame.bindings.length

/-- The empty frame binds nothing. -/
@[simp] theorem get?_empty (label : String) : empty.get? label = none := rfl

/-- The empty label is never bound. -/
@[simp] theorem set_empty_label (frame : Frame) (value : String) :
    frame.set "" value = frame := by
  simp [set]

/-- Binding a label keeps the spelling and the order of the labels that are there, and adds at most
one. -/
theorem map_fst_bind (label value : String) (bindings : List (String × String)) :
    (bind label value bindings).map Prod.fst =
      bindings.map Prod.fst ++
        if bindings.any fun binding => caselessEq binding.1 label then [] else [label] := by
  induction bindings with
  | nil => simp [bind]
  | cons binding rest ih =>
    rw [List.any_cons]
    cases hlabel : caselessEq binding.1 label
    · rw [Bool.false_or]
      simp [bind, hlabel, ih]
    · simp [bind, hlabel]

end Frame

end LayeredMachines
