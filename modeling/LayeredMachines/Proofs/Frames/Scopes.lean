import LayeredMachines.Proofs.Frames.Operations

/-!
# Scopes

A scope of a stack is what is done from the opening of a frame until that frame is dropped. The
frames that were there before lie below it all the time. Only binding a label can reach them, and it
sets a label in one of them only if the frame contains it already. So after a scope there are the
same frames with the same labels as before, and if nothing was bound in the nearest frame, with the
same values.
-/

namespace LayeredMachines

namespace Frame

variable {frame : Frame} {label : String}

/-- A frame contains a label if one of its labels is equal to it up to case. -/
theorem contains_eq_any (frame : Frame) (label : String) :
    frame.contains label = frame.labels.any (caselessEq · label) := by
  rw [Bool.eq_iff_iff]
  simp [contains, get?, labels]

/-- A label that is contained keeps its spelling and its place when it is set. -/
theorem labels_set_of_contains (hcontains : frame.contains label = true) (value : String) :
    (frame.set label value).labels = frame.labels := by
  rw [contains_eq_any] at hcontains
  rw [labels_set, hcontains, Bool.or_true, if_pos rfl, List.append_nil]

end Frame

namespace FrameStack

/-- The operation may change a frame that is not the innermost one. -/
def Operation.bindsNearest : Operation → Bool
  | .apply .. => true
  | _ => false

/-- Operations are a scope of a stack if the first opens a frame, the last drops one, and in between
there are always more frames than at first, but at the end no longer. -/
structure IsScope (stack : FrameStack) (operations : List Operation) : Prop where
  opens : operations.head? = some .push
  closes : operations.getLast? = some .pop
  stays : ∀ n < operations.length, 0 < n →
    stack.depth < ((operations.take n).foldl perform stack).depth
  returns : (operations.foldl perform stack).depth ≤ stack.depth

/-- There are more frames than the given ones, to which the lowest frames are related one by one. -/
structure Covers (related : Frame → Frame → Prop) (given : List Frame) (stack : FrameStack) :
    Prop where
  length_lt : given.length < stack.depth
  lowest : List.Forall₂ related given (stack.frames.rtake given.length)

/-- A frame that contains the label which the operation binds stays related when it is set. -/
def Respects (related : Frame → Frame → Prop) (operation : Operation) : Prop :=
  ∀ label value, operation = .apply label value → ∀ before frame, frame.contains label = true →
    related before frame → related before (frame.set label value)

variable {related : Frame → Frame → Prop} {given frames : List Frame} {stack changed : FrameStack}
  {operation : Operation} {operations : List Operation} {label value : String} {place : Nat}

/-- Related frames stay related if the one that is set does. -/
theorem forall₂_modify (hrelated : List.Forall₂ related given frames)
    (hset : ∀ frame, frames[place]? = some frame → ∀ before, related before frame →
      related before (frame.set label value)) :
    List.Forall₂ related given (frames.modify place (·.set label value)) := by
  induction hrelated generalizing place with
  | nil =>
    rw [List.modify_nil]
    exact .nil
  | cons hfirst hrest ih =>
    cases place with
    | zero => exact .cons (hset _ rfl _ hfirst) hrest
    | succ place => exact .cons hfirst (ih hset)

/-- A frame below the innermost one is the place of a label only if it contains the label. -/
theorem contains_of_place {frame : Frame} (hplace : 0 < stack.place label)
    (hframe : stack.frames[stack.place label]? = some frame) : frame.contains label = true := by
  rw [FrameStack.place] at hplace hframe
  cases hfound : stack.frames.findIdx? (·.contains label) with
  | none =>
    rw [hfound] at hplace
    exact absurd hplace (Nat.lt_irrefl 0)
  | some found =>
    rw [hfound, Option.getD_some] at hframe
    obtain ⟨hlt, hcontains, _⟩ := List.findIdx?_eq_some_iff_getElem.mp hfound
    rw [List.getElem?_eq_getElem hlt] at hframe
    rwa [Option.some.inj hframe] at hcontains

/-- The lowest frames stay covered when a frame is set, if that is one above them or it stays
related to what it was. -/
theorem Covers.modify (h : Covers related given stack)
    (hframes : changed.frames = stack.frames.modify place (·.set label value))
    (hset : 0 < place → ∀ frame, stack.frames[place]? = some frame → ∀ before,
      related before frame → related before (frame.set label value)) :
    Covers related given changed := by
  have hlength : changed.frames.length = stack.frames.length := by
    rw [hframes, List.length_modify]
  have hlt : given.length < stack.frames.length := h.length_lt
  have hlowest := h.lowest
  refine ⟨hlt.trans_eq hlength.symm, ?_⟩
  rw [List.rtake] at hlowest ⊢
  rw [hlength, hframes]
  by_cases habove : place < stack.frames.length - given.length
  · rwa [List.drop_modify_of_lt _ _ _ _ habove]
  · rw [List.drop_modify_of_ge _ _ _ _ (by omega)]
    refine forall₂_modify hlowest fun frame hframe => ?_
    rw [List.getElem?_drop, Nat.add_sub_cancel' (by omega)] at hframe
    exact hset (by omega) frame hframe

/-- The lowest frames stay covered as long as there are more frames than these. -/
theorem Covers.perform (h : Covers related given stack) (hrespects : Respects related operation)
    (hlength : given.length < (stack.perform operation).depth) :
    Covers related given (stack.perform operation) := by
  refine ⟨hlength, ?_⟩
  cases operation with
  | push =>
    rw [FrameStack.perform, frames_push, rtake_cons (Nat.le_of_lt h.length_lt)]
    exact h.lowest
  | pop =>
    obtain ⟨innermost, outer⟩ := stack
    cases outer with
    | nil => exact h.lowest
    | cons nearest rest =>
      have hle : given.length ≤ (nearest :: rest).length := Nat.le_of_lt hlength
      have hlowest := h.lowest
      rwa [frames, rtake_cons hle] at hlowest
  | write label value => exact (h.modify rfl fun hplace => absurd hplace (Nat.lt_irrefl 0)).lowest
  | apply label value =>
    refine (h.modify (frames_apply stack label value) fun hplace frame hframe before => ?_).lowest
    exact hrespects label value rfl before frame (contains_of_place hplace hframe)

/-- The lowest frames stay covered by any operations during which there are always more frames. -/
theorem Covers.foldl (h : Covers related given stack)
    (hrespects : ∀ operation ∈ operations, Respects related operation)
    (hstays : ∀ n, n < operations.length →
      given.length < ((operations.take (n + 1)).foldl FrameStack.perform stack).depth) :
    Covers related given (operations.foldl FrameStack.perform stack) := by
  induction operations generalizing stack with
  | nil => exact h
  | cons operation rest ih =>
    obtain ⟨hfirst, hrest⟩ := List.forall_mem_cons.mp hrespects
    have hnext := h.perform hfirst (hstays 0 (Nat.succ_pos _))
    exact ih hnext hrest fun n hn => hstays (n + 1) (Nat.succ_lt_succ hn)

/-- When so many frames have been dropped that no more than the covered ones are left, all that are
left are those. -/
theorem Covers.pop (h : Covers related given stack) (hdepth : stack.pop.depth ≤ given.length) :
    List.Forall₂ related given stack.pop.frames := by
  have hlt := h.length_lt
  have hlowest := h.lowest
  obtain ⟨innermost, outer⟩ := stack
  cases outer with
  | nil => exact absurd hlt (Nat.not_lt.mpr hdepth)
  | cons nearest rest =>
    have hlength : (nearest :: rest).length = given.length :=
      Nat.le_antisymm hdepth (Nat.le_of_lt_succ hlt)
    rwa [frames, rtake_cons hlength.ge, List.rtake, hlength, Nat.sub_self] at hlowest

/-- A scope is made up of its first operation, what it encloses, and its last operation. -/
theorem IsScope.exists_eq (h : stack.IsScope operations) :
    ∃ enclosed, operations = .push :: (enclosed ++ [.pop]) := by
  obtain ⟨rest, rfl⟩ := List.head?_eq_some_iff.mp h.opens
  obtain ⟨enclosed, henclosed⟩ := List.getLast?_eq_some_iff.mp h.closes
  cases enclosed with
  | nil => cases henclosed
  | cons first enclosed =>
    obtain ⟨-, rfl⟩ := List.cons.inj henclosed
    exact ⟨enclosed, rfl⟩

/-- After a scope all frames are related to what they were, if this holds of every frame as such and
of those in which a label is bound that they contain. -/
theorem IsScope.forall₂_frames (h : stack.IsScope operations) (hrefl : ∀ frame, related frame frame)
    (hrespects : ∀ operation ∈ operations, Respects related operation) :
    List.Forall₂ related stack.frames (operations.foldl perform stack).frames := by
  obtain ⟨enclosed, rfl⟩ := h.exists_eq
  obtain ⟨-, henclosed⟩ := List.forall_mem_cons.mp hrespects
  have hopened : Covers related stack.frames stack.push := by
    refine ⟨Nat.lt_succ_self _, ?_⟩
    rw [frames_push, rtake_cons le_rfl, rtake_length]
    exact List.forall₂_same.mpr fun frame _ => hrefl frame
  have hcovers : Covers related stack.frames (enclosed.foldl perform stack.push) := by
    refine hopened.foldl (fun operation hmem => henclosed operation (by simp [hmem])) ?_
    intro n hn
    have hstays := h.stays (n + 2) (by simp; omega) (by omega)
    rwa [List.take_succ_cons, List.take_append_of_le_length (by omega)] at hstays
  have hreturns := h.returns
  simp only [List.foldl_cons, List.foldl_append, List.foldl_nil] at hreturns ⊢
  exact hcovers.pop hreturns

/-- Scopes nest. Whatever was done before, after a scope there are as many frames as before it, and
every frame has its labels, in the same spelling and order. Unless something was bound in the
nearest frame that contains its label, nothing at all has changed. -/
theorem scopes_nest (earlier operations : List Operation)
    (hscope : (after earlier).IsScope operations) :
    (after (earlier ++ operations)).depth = (after earlier).depth ∧
      (after (earlier ++ operations)).frames.map Frame.labels =
        (after earlier).frames.map Frame.labels ∧
      ((∀ operation ∈ operations, operation.bindsNearest = false) →
        after (earlier ++ operations) = after earlier) := by
  rw [after, List.foldl_append]
  have hlabels : List.Forall₂ (fun before frame => before.labels = frame.labels)
      (after earlier).frames (operations.foldl perform (after earlier)).frames :=
    hscope.forall₂_frames (fun _ => rfl) fun _ _ label value _ _ _ hcontains hsame =>
      hsame.trans (Frame.labels_set_of_contains hcontains value).symm
  refine ⟨hlabels.length_eq.symm, ?_, fun hnone => ?_⟩
  · rw [← List.forall₂_map_right_iff, ← List.forall₂_map_left_iff, List.forall₂_eq_eq_eq] at hlabels
    exact hlabels.symm
  · have hsame : List.Forall₂ (· = ·) (after earlier).frames
        (operations.foldl perform (after earlier)).frames := by
      refine hscope.forall₂_frames (fun _ => rfl) fun operation hmem label value hbinds => ?_
      have hnot := hnone operation hmem
      rw [hbinds] at hnot
      cases hnot
    rw [List.forall₂_eq_eq_eq] at hsame
    exact eq_of_frames_eq hsame.symm

/-- A value that is bound from within a scope stays, under the spelling of the frame outside. -/
theorem scopes_nest_of_counting :
    IsScope (after [.write "Count" "1", .push, .write "level" "1"])
        [.push, .apply "COUNT" "2", .push, .write "count" "3", .pop, .pop] ∧
      (after ([.write "Count" "1", .push, .write "level" "1"] ++
        [.push, .apply "COUNT" "2", .push, .write "count" "3", .pop, .pop])).frames.map
          Frame.labels = [["level"], ["Count"]] := by
  have hscope : IsScope (after [.write "Count" "1", .push, .write "level" "1"])
      [.push, .apply "COUNT" "2", .push, .write "count" "3", .pop, .pop] :=
    ⟨rfl, rfl, by decide, by decide⟩
  refine ⟨hscope, (scopes_nest _ _ hscope).2.1.trans ?_⟩
  decide

end FrameStack

end LayeredMachines
