import LayeredMachines.Proofs.Frames.Maps
import Mathlib.Data.List.DropRight
import Mathlib.Data.List.Forall2

/-!
# Stacks of frames after any operations

Frames are opened and dropped, and labels are written in the innermost frame or bound in the nearest
one, in any order and as often as one likes. What a frame then contains can be told from the bindings
that were made in it since it was opened: its labels are the first spellings of the labels, in the
order of their first bindings, each with the value of its last one. What an empty frame has, and no
label that is set changes, all frames have if those do that were there at first and never dropped.
-/

namespace LayeredMachines

namespace Frame

/-- The bindings made in a frame since it was opened, the oldest first. -/
abbrev Log : Type := List (String × String)

namespace Log

/-- One more binding is made. The empty label cannot be bound. -/
def note (label value : String) (log : Log) : Log :=
  if label.isEmpty then log else log ++ [(label, value)]

/-- The first spellings of the labels, in the order of their first bindings. -/
def labels (log : Log) : List String :=
  firstSpellings (log.map Prod.fst)

/-- The value of the last binding of a label. -/
def value? (log : Log) (label : String) : Option String :=
  (log.reverse.find? fun binding => caselessEq binding.1 label).map Prod.snd

end Log

/-- A frame contains what was bound in it. -/
structure Reflects (frame : Frame) (log : Log) : Prop where
  labels_eq : frame.labels = log.labels
  get?_eq : ∀ label, frame.get? label = log.value? label

variable {frame : Frame} {log : Log}

theorem reflects_empty : empty.Reflects [] where
  labels_eq := rfl
  get?_eq _ := rfl

/-- A log has one more label if one is bound that is not empty and not among the others. -/
theorem Log.labels_note (label value : String) (log : Log) :
    (log.note label value).labels = log.labels ++
      if label.isEmpty || log.labels.any (caselessEq · label) then [] else [label] := by
  unfold note
  cases hempty : label.isEmpty with
  | true => exact (List.append_nil _).symm
  | false =>
    rw [if_neg Bool.false_ne_true, labels, List.map_append, List.map_singleton,
      firstSpellings_concat, hempty, labels, any_firstSpellings]
    rfl

/-- The label that is bound last has its value, and all others have what they had. -/
theorem Log.value?_note (label value other : String) (log : Log) :
    (log.note label value).value? other =
      if !label.isEmpty && caselessEq label other then some value else log.value? other := by
  unfold note
  cases label.isEmpty with
  | true => rfl
  | false =>
    rw [if_neg Bool.false_ne_true, value?, List.reverse_append, List.reverse_singleton,
      List.singleton_append, List.find?_cons]
    cases caselessEq label other <;> rfl

/-- A frame in which a label is set contains what was bound in it. -/
theorem Reflects.set (hreflects : frame.Reflects log) (label value : String) :
    (frame.set label value).Reflects (log.note label value) where
  labels_eq := by rw [labels_set, Log.labels_note, hreflects.labels_eq]
  get?_eq other := by rw [get?_set, Log.value?_note, hreflects.get?_eq]

end Frame

namespace FrameStack

/-- What is done to a stack of frames. -/
inductive Operation where
  /-- An empty frame is opened. -/
  | push
  /-- The innermost frame is dropped, unless it is the only one. -/
  | pop
  /-- A label is bound in the innermost frame. -/
  | write (label value : String)
  /-- A label is bound in the nearest frame that contains it, or else in the innermost one. -/
  | apply (label value : String)
  deriving DecidableEq

/-- The stack after an operation. -/
def perform (stack : FrameStack) : Operation → FrameStack
  | .push => stack.push
  | .pop => stack.pop
  | .write label value => stack.write label value
  | .apply label value => stack.apply label value

/-- The stack after some operations, which had one empty frame before. -/
def after (operations : List Operation) : FrameStack :=
  operations.foldl perform empty

/-- The logs of all frames after an operation, that of the innermost frame first. -/
def note (logs : List Frame.Log) : Operation → List Frame.Log
  | .push => [] :: logs
  | .pop => if logs.length = 1 then logs else logs.tail
  | .write label value => logs.modify 0 (.note label value)
  | .apply label value =>
    let place := (logs.findIdx? fun log => (log.value? label).isSome).getD 0
    logs.modify place (.note label value)

/-- The logs of all frames after some operations. -/
def logsAfter (operations : List Operation) : List Frame.Log :=
  operations.foldl note [[]]

variable {frames : List Frame} {logs : List Frame.Log}

/-- Frames contain what was bound in them also after one of them was set. -/
theorem reflects_modify (hreflect : List.Forall₂ Frame.Reflects frames logs) (place : Nat)
    (label value : String) :
    List.Forall₂ Frame.Reflects (frames.modify place (·.set label value))
      (logs.modify place (.note label value)) := by
  induction hreflect generalizing place with
  | nil =>
    rw [List.modify_nil, List.modify_nil]
    exact .nil
  | cons hframe hrest ih =>
    cases place with
    | zero => exact .cons (hframe.set label value) hrest
    | succ place => exact .cons hframe (ih place)

/-- The frames that contain a label are those in which it was bound. -/
theorem findIdx?_of_reflect (hreflect : List.Forall₂ Frame.Reflects frames logs) (label : String) :
    frames.findIdx? (·.contains label) = logs.findIdx? fun log => (log.value? label).isSome := by
  induction hreflect with
  | nil => rfl
  | cons hframe _ ih =>
    rw [List.findIdx?_cons, List.findIdx?_cons, ih, Frame.contains, hframe.get?_eq]

/-- After every operation the frames contain what was bound in them. -/
theorem reflects_perform {stack : FrameStack}
    (hreflect : List.Forall₂ Frame.Reflects stack.frames logs) (operation : Operation) :
    List.Forall₂ Frame.Reflects (stack.perform operation).frames (note logs operation) := by
  cases operation with
  | push => exact .cons Frame.reflects_empty hreflect
  | pop =>
    obtain ⟨innermost, outer⟩ := stack
    cases hreflect with
    | cons hframe hrest =>
      cases hrest with
      | nil => exact .cons hframe .nil
      | cons hnearest hrest =>
        rw [note, if_neg (by simp)]
        exact .cons hnearest hrest
  | write label value => exact reflects_modify hreflect 0 label value
  | apply label value =>
    rw [perform, frames_apply, place, findIdx?_of_reflect hreflect]
    exact reflects_modify hreflect _ label value

/-- Whatever the operations, the frames contain what was bound in them. -/
theorem reflects_after (operations : List Operation) :
    List.Forall₂ Frame.Reflects (after operations).frames (logsAfter operations) := by
  induction operations using List.reverseRecOn with
  | nil => exact .cons Frame.reflects_empty .nil
  | append_singleton operations operation ih =>
    rw [after, logsAfter, List.foldl_append, List.foldl_append]
    exact reflects_perform ih operation

/-- The lowest frames do not depend on one that is above them. -/
theorem rtake_cons {n : Nat} (hn : n ≤ frames.length) (frame : Frame) :
    (frame :: frames).rtake n = frames.rtake n := by
  have hdrop : (frame :: frames).length - n = frames.length - n + 1 := by
    rw [List.length_cons]
    omega
  rw [List.rtake, hdrop, List.drop_succ_cons, List.rtake]

/-- All frames are the lowest ones, if there are no more than are asked for. -/
theorem rtake_length (frames : List Frame) : frames.rtake frames.length = frames := by
  rw [List.rtake, Nat.sub_self, List.drop_zero]

/-- The smallest number of frames that there are during some operations. -/
def leastDepth (stack : FrameStack) : List Operation → Nat
  | [] => stack.depth
  | operation :: rest => min stack.depth ((stack.perform operation).leastDepth rest)

/-- There are never fewer frames than the smallest number of them. -/
theorem leastDepth_le (stack : FrameStack) (operations : List Operation) :
    stack.leastDepth operations ≤ stack.depth := by
  cases operations with
  | nil => exact le_rfl
  | cons operation rest => exact Nat.min_le_left _ _

section Invariants

variable {holds : Frame → Prop} {stack : FrameStack}
  (hset : ∀ frame label value, holds (Frame.set frame label value) ↔ holds frame)
include hset

/-- Frames of which one is set have what they had, if setting a label changes nothing about it. -/
theorem forall_mem_modify_iff (frames : List Frame) (place : Nat) (label value : String) :
    (∀ frame ∈ frames.modify place (·.set label value), holds frame) ↔
      ∀ frame ∈ frames, holds frame := by
  induction frames generalizing place with
  | nil => rw [List.modify_nil]
  | cons frame rest ih =>
    cases place with
    | zero => rw [List.modify_zero_cons, List.forall_mem_cons, List.forall_mem_cons, hset]
    | succ place => rw [List.modify_succ_cons, List.forall_mem_cons, List.forall_mem_cons, ih]

/-- So do the lowest of them. -/
theorem forall_mem_rtake_modify_iff (frames : List Frame) (n place : Nat) (label value : String) :
    (∀ frame ∈ (frames.modify place (·.set label value)).rtake n, holds frame) ↔
      ∀ frame ∈ frames.rtake n, holds frame := by
  rw [List.rtake, List.rtake, List.length_modify]
  by_cases habove : place < frames.length - n
  · rw [List.drop_modify_of_lt _ _ _ _ habove]
  · rw [List.drop_modify_of_ge _ _ _ _ (Nat.not_lt.mp habove)]
    exact forall_mem_modify_iff hset _ _ label value

/-- After an operation the lowest frames have what they had before, and a new one has it. -/
theorem forall_mem_perform_iff (hempty : holds Frame.empty) (operation : Operation) {n : Nat}
    (hn : n ≤ (stack.perform operation).depth) :
    (∀ frame ∈ (stack.perform operation).frames.rtake n, holds frame) ↔
      ∀ frame ∈ stack.frames.rtake (min stack.depth n), holds frame := by
  cases operation with
  | push =>
    rw [perform, frames_push]
    by_cases hdepth : n ≤ stack.depth
    · rw [rtake_cons hdepth, Nat.min_eq_right hdepth]
    · have hall : n = (Frame.empty :: stack.frames).length :=
        Nat.le_antisymm hn (Nat.succ_le_of_lt (Nat.lt_of_not_le hdepth))
      rw [Nat.min_eq_left (Nat.le_of_not_le hdepth), hall, depth, rtake_length, rtake_length,
        List.forall_mem_cons, and_iff_right hempty]
  | pop =>
    obtain ⟨innermost, outer⟩ := stack
    cases outer with
    | nil =>
      have hmin : min (depth ⟨innermost, []⟩) n = n := Nat.min_eq_right hn
      rw [hmin]
      rfl
    | cons nearest rest =>
      have hle : n ≤ (nearest :: rest).length := hn
      have hmin : min (depth ⟨innermost, nearest :: rest⟩) n = n :=
        Nat.min_eq_right (Nat.le_succ_of_le hle)
      have hframes : frames ⟨innermost, nearest :: rest⟩ = innermost :: nearest :: rest := rfl
      rw [hmin, hframes, rtake_cons hle]
      rfl
  | write label value =>
    have hmin : min stack.depth n = n := Nat.min_eq_right hn
    rw [hmin]
    exact forall_mem_rtake_modify_iff hset stack.frames n 0 label value
  | apply label value =>
    have hmin : min stack.depth n = n :=
      Nat.min_eq_right (hn.trans_eq (depth_apply stack label value))
    rw [hmin, perform, frames_apply]
    exact forall_mem_rtake_modify_iff hset stack.frames n _ label value

/-- After any operations every frame has what an empty frame has and setting a label does not change,
exactly if those of the first frames had it that were never dropped. -/
theorem forall_mem_foldl_perform_iff (hempty : holds Frame.empty) (stack : FrameStack)
    (operations : List Operation) :
    (∀ frame ∈ (operations.foldl perform stack).frames, holds frame) ↔
      ∀ frame ∈ stack.frames.rtake (stack.leastDepth operations), holds frame := by
  induction operations generalizing stack with
  | nil => rw [List.foldl_nil, leastDepth, depth, rtake_length]
  | cons operation rest ih =>
    rw [List.foldl_cons, ih, leastDepth]
    exact forall_mem_perform_iff hset hempty operation (leastDepth_le _ rest)

end Invariants

/-- Whatever the operations, all frames are maps. -/
theorem isMap_after (operations : List Operation) :
    ∀ frame ∈ (after operations).frames, frame.IsMap := by
  refine (forall_mem_foldl_perform_iff Frame.isMap_set_iff Frame.isMap_empty empty operations).mpr
    fun frame hframe => ?_
  obtain rfl := List.mem_singleton.mp (List.mem_of_mem_drop hframe)
  exact Frame.isMap_empty

/-- What binding a label does to a stack. Only the frame in its place changes, in which the label is
set, and of all labels only those change their value that are equal to it up to case. -/
structure Binds (stack changed : FrameStack) (place : Nat) (label value : String) : Prop where
  frames_eq : changed.frames = stack.frames.modify place (·.set label value)
  depth_eq : changed.depth = stack.depth
  lookup_eq : ∀ other, changed.lookup other =
    if !label.isEmpty && caselessEq label other then some value else stack.lookup other

theorem binds_apply (stack : FrameStack) (label value : String) :
    stack.Binds (stack.apply label value) (stack.place label) label value where
  frames_eq := frames_apply stack label value
  depth_eq := depth_apply stack label value
  lookup_eq := lookup_apply stack label value

theorem binds_write (stack : FrameStack) (label value : String) :
    stack.Binds (stack.write label value) 0 label value where
  frames_eq := rfl
  depth_eq := rfl
  lookup_eq := lookup_write stack label value

/-- Stacks of frames are stacks of maps without regard to case. Whatever the operations, there is a
frame, every frame is a map, and it contains what was bound in it since it was opened: under the
spelling and in the place of a label's first binding the value of its last one. Binding a label then
sets it in the nearest frame that contains it, or else in the innermost one, and writing it sets it in
the innermost frame. Neither has an effect on other frames and other labels, or with the empty
label. -/
theorem frames_are_maps (operations : List Operation) :
    let stack := after operations
    0 < stack.depth ∧ (∀ frame ∈ stack.frames, frame.IsMap) ∧
      List.Forall₂ Frame.Reflects stack.frames (logsAfter operations) ∧
      (∀ label value, stack.Binds (stack.apply label value) (stack.place label) label value ∧
        stack.Binds (stack.write label value) 0 label value) ∧
      ∀ value, stack.apply "" value = stack ∧ stack.write "" value = stack := by
  intro stack
  exact ⟨stack.depth_pos, isMap_after operations, reflects_after operations,
    fun label value => ⟨stack.binds_apply label value, stack.binds_write label value⟩,
    fun value => ⟨stack.apply_empty_label value, stack.write_empty_label value⟩⟩

/-- A label of an outer frame keeps its spelling when it gets a value from within, and is hidden when
it is written there. -/
example : after [.write "Level" "1", .push, .apply "LEVEL" "2", .write "level" "3"] =
    ⟨⟨[("level", "3")]⟩, [⟨[("Level", "2")]⟩]⟩ := by decide

end FrameStack

end LayeredMachines
