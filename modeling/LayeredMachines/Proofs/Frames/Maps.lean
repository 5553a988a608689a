import LayeredMachines.Proofs.Frames.Binding
import LayeredMachines.Proofs.Text.Classes

/-!
# Frames as maps

A frame lists labels with their values. It is a map if no label is empty and no two are equal up to
case. Setting a label neither adds such a defect to a frame nor mends one: an empty frame becomes a
map, and a frame that is none, as it may have been read from a document, stays none.
-/

namespace LayeredMachines.Frame

/-- The labels that are bound, the oldest first. -/
def labels (frame : Frame) : List String :=
  frame.bindings.map Prod.fst

/-- A frame maps labels without regard to case to values: no label is empty, and no two are equal up
to case. -/
structure IsMap (frame : Frame) : Prop where
  ne_empty : ∀ label ∈ frame.labels, label ≠ ""
  distinct : frame.labels.Pairwise fun first next => caselessEq first next = false

/-- The number of bindings that answer to a label. -/
def answers (frame : Frame) (label : String) : Nat :=
  frame.labels.countP (caselessEq · label)

/-- The frame after some labels are set, one after the other. -/
def setAll (frame : Frame) (bindings : List (String × String)) : Frame :=
  bindings.foldl (fun frame binding => frame.set binding.1 binding.2) frame

variable {frame : Frame}

/-- Setting a label adds it behind the others unless it is among them. -/
theorem labels_set (frame : Frame) (label value : String) :
    (frame.set label value).labels = frame.labels ++
      if label.isEmpty || frame.labels.any (caselessEq · label) then [] else [label] := by
  unfold set
  cases label.isEmpty with
  | true => exact (List.append_nil _).symm
  | false =>
    have hbind := map_fst_bind label value frame.bindings
    rw [labels, labels, List.any_map]
    exact hbind

theorem isMap_empty : empty.IsMap where
  ne_empty := by simp [labels, empty]
  distinct := .nil

/-- A frame is a map exactly if no label is answered by two bindings, and the empty one by none. -/
theorem isMap_iff : frame.IsMap ↔ frame.answers "" = 0 ∧ ∀ label, frame.answers label ≤ 1 := by
  have hempty : frame.answers "" = 0 ↔ ∀ label ∈ frame.labels, label ≠ "" := by
    rw [answers, List.countP_eq_zero]
    exact forall₂_congr fun label _ => not_congr caselessEq_empty_iff
  have hdistinct := pairwise_iff_countP_le_one frame.labels
  rw [hempty]
  exact ⟨fun hmap => ⟨hmap.ne_empty, hdistinct.mp hmap.distinct⟩,
    fun ⟨hlabels, hall⟩ => ⟨hlabels, hdistinct.mpr hall⟩⟩

/-- Setting a label adds a binding that answers to it if there is none. -/
theorem answers_set (frame : Frame) (label value other : String) :
    (frame.set label value).answers other =
      if !label.isEmpty && caselessEq label other then max 1 (frame.answers other)
      else frame.answers other := by
  rw [answers, labels_set, List.countP_append, ← answers]
  cases label.isEmpty with
  | true => rfl
  | false =>
    rw [Bool.false_or, Bool.not_false, Bool.true_and]
    cases hother : caselessEq label other with
    | false => split <;> simp [hother]
    | true =>
      have hany : frame.labels.any (caselessEq · label) = true ↔ 0 < frame.answers other := by
        simp only [answers, List.countP_pos_iff, List.any_eq_true, caselessEq_congr_right hother]
      split
      · next hfound =>
        rw [List.countP_nil, Nat.add_zero, if_pos rfl, Nat.max_eq_right (hany.mp hfound)]
      · next hnone =>
        have hzero : frame.answers other = 0 := Nat.eq_zero_of_not_pos (mt hany.mpr hnone)
        rw [hzero, List.countP_singleton, hother]
        rfl

/-- The empty label is not set. -/
theorem answers_set_empty (frame : Frame) (label value : String) :
    (frame.set label value).answers "" = frame.answers "" := by
  rw [answers_set, if_neg]
  intro hset
  obtain ⟨hlabel, hsame⟩ := (Bool.and_eq_true ..).mp hset
  rw [isEmpty_eq_of_caselessEq hsame] at hlabel
  cases hlabel

/-- Setting a label neither adds a defect to a frame nor mends one. -/
theorem isMap_set_iff (frame : Frame) (label value : String) :
    (frame.set label value).IsMap ↔ frame.IsMap := by
  rw [isMap_iff, isMap_iff, answers_set_empty]
  refine and_congr_right fun _ => forall_congr' fun other => ?_
  rw [answers_set]
  split
  · rw [Nat.max_le, and_iff_right le_rfl]
  · rfl

/-- Neither do any number of labels that are set. -/
theorem isMap_setAll_iff (frame : Frame) (bindings : List (String × String)) :
    (frame.setAll bindings).IsMap ↔ frame.IsMap := by
  induction bindings generalizing frame with
  | nil => rfl
  | cons binding rest ih => rw [setAll, List.foldl_cons, ← setAll, ih, isMap_set_iff]

/-- Whatever label is set, another one is answered by no more bindings than before, or by one. -/
theorem max_one_answers_set (frame : Frame) (label value other : String) :
    max 1 ((frame.set label value).answers other) = max 1 (frame.answers other) := by
  rw [answers_set]
  split
  · rw [← Nat.max_assoc, Nat.max_self]
  · rfl

/-- A label that is set last is answered by as many bindings as at first, or by one if there was
none. -/
theorem answers_set_setAll (frame : Frame) (bindings : List (String × String))
    (label value : String) :
    ((frame.setAll bindings).set label value).answers label =
      if label.isEmpty then frame.answers label else max 1 (frame.answers label) := by
  induction bindings generalizing frame with
  | nil =>
    rw [setAll, List.foldl_nil, answers_set, caselessEq_refl, Bool.and_true]
    cases label.isEmpty <;> rfl
  | cons binding rest ih =>
    rw [setAll, List.foldl_cons, ← setAll, ih, max_one_answers_set]
    split
    · next hlabel =>
      obtain rfl := String.isEmpty_iff.mp hlabel
      exact answers_set_empty frame binding.1 binding.2
    · rfl

end LayeredMachines.Frame
