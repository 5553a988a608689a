import LayeredMachines.FrameStack
import LayeredMachines.Proofs.Text.Caseless
import Mathlib.Data.List.Induction

/-!
# Bindings of variables

A label that is bound has its value under all its spellings, and no other label is concerned. It is
bound in the nearest frame that already contains it, or else in the innermost one. All other frames
stay as they are, and it does not matter what the frames further out contain. Of several values that
are bound one after the other, a label has the last one.
-/

namespace LayeredMachines

variable {label other value : String}

namespace Frame

/-- After a label is bound, all labels that are equal to it up to case have the value, and all others
have what they had. -/
theorem find?_bind (label value other : String) (bindings : List (String × String)) :
    ((bind label value bindings).find? fun binding => caselessEq binding.1 other).map Prod.snd =
      if caselessEq label other then some value
      else (bindings.find? fun binding => caselessEq binding.1 other).map Prod.snd := by
  induction bindings with
  | nil => cases hother : caselessEq label other <;> simp [bind, hother]
  | cons binding rest ih =>
    rw [bind]
    by_cases hlabel : caselessEq binding.1 label = true
    · have hsame := caselessEq_congr_left hlabel other
      cases hother : caselessEq label other <;> simp [hlabel, hsame, hother]
    · by_cases hother : caselessEq binding.1 other = true
      · have hdiffers : caselessEq label other = false := by
          rw [Bool.eq_false_iff]
          intro hsame
          refine hlabel ?_
          rw [caselessEq_congr_left hother label, caselessEq_comm, hsame]
        simp [hlabel, hother, hdiffers]
      · simp [hlabel, hother, ih]

/-- After a label is set, all its spellings have the value, and all other labels have what they
had. -/
theorem get?_set (frame : Frame) (label value other : String) :
    (frame.set label value).get? other =
      if !label.isEmpty && caselessEq label other then some value else frame.get? other := by
  unfold set
  cases label.isEmpty with
  | true => rfl
  | false => exact find?_bind label value other frame.bindings

/-- A frame has the same value for labels that are equal up to case. -/
theorem get?_congr (frame : Frame) (hsame : caselessEq label other = true) :
    frame.get? label = frame.get? other := by
  simp only [get?, caselessEq_congr_right hsame]

end Frame

namespace FrameStack

/-- The place, counted from the innermost frame, of the frame in which a label is to be bound: the
nearest that contains it already, or the innermost one if there is none. -/
def place (stack : FrameStack) (label : String) : Nat :=
  (stack.frames.findIdx? (·.contains label)).getD 0

/-- The nearest frame that contains the label is the one that is set. -/
theorem setNearest?_eq (label value : String) (frames : List Frame) :
    setNearest? label value frames =
      (frames.findIdx? (·.contains label)).map fun place =>
        frames.modify place (·.set label value) := by
  induction frames with
  | nil => rfl
  | cons frame rest ih =>
    rw [setNearest?, List.findIdx?_cons, ih]
    split
    · rfl
    · rw [Option.map_map, Option.map_map]
      rfl

/-- Only the frame in its place changes when a label is bound. -/
theorem frames_apply (stack : FrameStack) (label value : String) :
    (stack.apply label value).frames =
      stack.frames.modify (stack.place label) (·.set label value) := by
  obtain ⟨innermost, outer⟩ := stack
  have hframes : frames ⟨innermost, outer⟩ = innermost :: outer := rfl
  rw [place, hframes, List.findIdx?_cons, apply, setNearest?_eq]
  dsimp only
  split
  · rfl
  · cases outer.findIdx? (·.contains label) with
    | none => rfl
    | some place => rfl

/-- A stack is made up of its frames. -/
theorem eq_of_frames_eq {stack changed : FrameStack} (hframes : changed.frames = stack.frames) :
    changed = stack := by
  obtain ⟨hinnermost, houter⟩ := List.cons.inj hframes
  cases stack
  cases changed
  rw [FrameStack.mk.injEq]
  exact ⟨hinnermost, houter⟩

/-- The first binding of a label among those of all frames is the one that is found frame by
frame. -/
theorem find?_bindings (stack : FrameStack) (label : String) :
    (stack.bindings.find? fun binding => caselessEq binding.1 label).map Prod.snd =
      stack.lookup label := by
  rw [bindings, List.find?_flatMap, List.map_findSome?]
  rfl

/-- A stack has the same value for labels that are equal up to case. -/
theorem lookup_congr (stack : FrameStack) (hsame : caselessEq label other = true) :
    stack.lookup label = stack.lookup other := by
  simp only [lookup, Frame.get?_congr _ hsame]

/-- The empty label is not written. -/
@[simp] theorem write_empty_label (stack : FrameStack) (value : String) :
    stack.write "" value = stack := by
  rw [write, Frame.set_empty_label]

/-- The empty label is not bound. -/
@[simp] theorem apply_empty_label (stack : FrameStack) (value : String) :
    stack.apply "" value = stack := by
  refine eq_of_frames_eq ?_
  rw [frames_apply]
  simp only [Frame.set_empty_label]
  exact List.modify_id _ _

/-- Frames of which one is set have the same value for all other labels. -/
theorem findSome?_modify_of_not (hother : (!label.isEmpty && caselessEq label other) = false)
    (frames : List Frame) (place : Nat) :
    (frames.modify place (·.set label value)).findSome? (·.get? other) =
      frames.findSome? (·.get? other) := by
  induction frames generalizing place with
  | nil => rw [List.modify_nil]
  | cons frame rest ih =>
    cases place with
    | zero =>
      rw [List.modify_zero_cons, List.findSome?_cons, List.findSome?_cons, Frame.get?_set, hother,
        if_neg Bool.false_ne_true]
    | succ place => rw [List.modify_succ_cons, List.findSome?_cons, List.findSome?_cons, ih]

/-- The value in the nearest frame that contains a label hides the ones further out. -/
theorem findSome?_modify_of_same (hsame : (!label.isEmpty && caselessEq label other) = true)
    {frames : List Frame} {place : Nat}
    (hplace : frames.findIdx? (·.contains label) = some place) :
    (frames.modify place (·.set label value)).findSome? (·.get? other) = some value := by
  induction frames generalizing place with
  | nil => simp at hplace
  | cons frame rest ih =>
    rw [List.findIdx?_cons] at hplace
    split at hplace
    · obtain rfl := Option.some.inj hplace
      rw [List.modify_zero_cons, List.findSome?_cons, Frame.get?_set, if_pos hsame]
    · next hnot =>
      obtain ⟨place, hrest, rfl⟩ := Option.map_eq_some_iff.mp hplace
      have hnone : frame.get? other = none := by
        rw [← frame.get?_congr ((Bool.and_eq_true ..).mp hsame).2]
        simpa [Frame.contains] using hnot
      rw [List.modify_succ_cons, List.findSome?_cons, hnone]
      exact ih hrest

/-- After a label is written, all its spellings have the value, and all other labels have what they
had. -/
theorem lookup_write (stack : FrameStack) (label value other : String) :
    (stack.write label value).lookup other =
      if !label.isEmpty && caselessEq label other then some value else stack.lookup other := by
  rw [lookup, frames_write, List.findSome?_cons, Frame.get?_set]
  cases (!label.isEmpty && caselessEq label other) <;> rfl

/-- After a label is bound, all its spellings have the value, and all other labels have what they
had. -/
theorem lookup_apply (stack : FrameStack) (label value other : String) :
    (stack.apply label value).lookup other =
      if !label.isEmpty && caselessEq label other then some value else stack.lookup other := by
  rw [lookup, frames_apply, place]
  cases hsame : !label.isEmpty && caselessEq label other with
  | false => exact findSome?_modify_of_not hsame stack.frames _
  | true =>
    cases hplace : stack.frames.findIdx? (·.contains label) with
    | some place => exact findSome?_modify_of_same hsame hplace
    | none =>
      rw [Option.getD_none, frames, List.modify_zero_cons, List.findSome?_cons, Frame.get?_set,
        if_pos hsame, if_pos rfl]

/-- No frame is opened while values are bound one after the other. -/
theorem depth_foldl_apply (seed : List Parameter) (stack : FrameStack) :
    (seed.foldl (fun frames p => frames.apply p.label p.value) stack).depth = stack.depth := by
  induction seed generalizing stack with
  | nil => rfl
  | cons parameter rest ih => rw [List.foldl_cons, ih, depth_apply]

/-- Of several values that are bound one after the other a label has the last one. -/
theorem lookup_foldl_apply (seed : List Parameter) (label : String) :
    (seed.foldl (fun frames p => frames.apply p.label p.value) empty).lookup label =
      (seed.reverse.find? fun p => !p.label.isEmpty && caselessEq p.label label).map
        Parameter.value := by
  induction seed using List.reverseRecOn with
  | nil => rfl
  | append_singleton seed parameter ih =>
    rw [List.foldl_append, List.foldl_cons, List.foldl_nil, lookup_apply, ih, List.reverse_append,
      List.reverse_singleton, List.singleton_append, List.find?_cons]
    cases (!parameter.label.isEmpty && caselessEq parameter.label label) <;> rfl

end FrameStack

end LayeredMachines
