import LayeredMachines.Axion.Basic
import LayeredMachines.Frame

/-!
# Nested frames

The variables of a layer live in a stack of frames that is never empty. A label is looked up from
the innermost frame outwards, so that an inner binding hides the outer ones.
-/

namespace LayeredMachines

/-- An innermost frame and the frames around it, the nearest first. -/
structure FrameStack where
  innermost : Frame
  outer : List Frame
  deriving DecidableEq

namespace FrameStack

/-- The stack of one empty frame. -/
def empty : FrameStack :=
  ⟨Frame.empty, []⟩

/-- All frames, the innermost first. -/
def frames (stack : FrameStack) : List Frame :=
  stack.innermost :: stack.outer

/-- The number of frames. -/
def depth (stack : FrameStack) : Nat :=
  stack.frames.length

/-- Open an empty innermost frame. -/
def push (stack : FrameStack) : FrameStack :=
  ⟨Frame.empty, stack.frames⟩

/-- Drop the innermost frame, unless it is the only one. -/
def pop (stack : FrameStack) : FrameStack :=
  match stack.outer with
  | [] => stack
  | nearest :: rest => ⟨nearest, rest⟩

/-- The value of `label` in the innermost frame that binds it. -/
def lookup (stack : FrameStack) (label : String) : Option String :=
  stack.frames.findSome? (·.get? label)

/-- The value of `label`, or `default` if no frame binds it. -/
def lookupOr (stack : FrameStack) (label default : String) : String :=
  (stack.lookup label).getD default

/-- Set `label` in the nearest of the frames that contains it, if one does. -/
def setNearest? (label value : String) : List Frame → Option (List Frame)
  | [] => none
  | frame :: rest =>
    if frame.contains label then some (frame.set label value :: rest)
    else (setNearest? label value rest).map (frame :: ·)

/-- Bind `label` in the innermost frame, whatever the outer frames bind. -/
def write (stack : FrameStack) (label value : String) : FrameStack :=
  { stack with innermost := stack.innermost.set label value }

/-- Bind `label` in the nearest frame that already binds it, or else in the innermost one. -/
def apply (stack : FrameStack) (label value : String) : FrameStack :=
  if stack.innermost.contains label then stack.write label value
  else
    match setNearest? label value stack.outer with
    | some outer => { stack with outer := outer }
    | none => stack.write label value

/-- The visible value of `label` equals `value` up to case. An unbound label matches nothing. -/
def matchesValue (stack : FrameStack) (label value : String) : Bool :=
  (stack.lookup label).any (caselessEq · value)

/-- Every labelled parameter matches. -/
def matchesAll (stack : FrameStack) (tuple : List Parameter) : Bool :=
  (tuple.filter fun p => !p.label.isEmpty).all fun p => stack.matchesValue p.label p.value

/-- All bindings, those of the innermost frame first. -/
def bindings (stack : FrameStack) : List (String × String) :=
  stack.frames.flatMap Frame.bindings

/-- Opening a frame puts an empty one in front of the others. -/
@[simp] theorem frames_push (stack : FrameStack) :
    stack.push.frames = Frame.empty :: stack.frames := rfl

/-- Dropping a frame undoes opening one. -/
@[simp] theorem pop_push (stack : FrameStack) : stack.push.pop = stack := rfl

/-- Writing changes the innermost frame only. -/
@[simp] theorem frames_write (stack : FrameStack) (label value : String) :
    (stack.write label value).frames = stack.innermost.set label value :: stack.outer := rfl

/-- There is always a frame. -/
theorem depth_pos (stack : FrameStack) : 0 < stack.depth := by
  simp [depth, frames]

/-- Setting a label in the nearest frame keeps the number of frames. -/
theorem length_of_setNearest? {label value : String} {outer changed : List Frame}
    (hset : setNearest? label value outer = some changed) : changed.length = outer.length := by
  induction outer generalizing changed with
  | nil => simp [setNearest?] at hset
  | cons frame rest ih =>
    unfold setNearest? at hset
    split at hset
    · simp only [Option.some.injEq] at hset
      simp [← hset]
    · obtain ⟨tail, htail, rfl⟩ := Option.map_eq_some_iff.1 hset
      simp [ih htail]

/-- Binding a label keeps the number of frames. -/
@[simp] theorem depth_apply (stack : FrameStack) (label value : String) :
    (stack.apply label value).depth = stack.depth := by
  unfold apply
  split
  · rfl
  · split
    · next outer houter => simp [depth, frames, length_of_setNearest? houter]
    · rfl

end FrameStack

end LayeredMachines
