import LayeredMachines.Proofs.Document.RoundTrip
import LayeredMachines.Proofs.Json.Parsing

/-!
# Frames and their documents

A frame may be written in many ways, and is decoded from a value exactly if that is one of them. Of
the labels that a document lists nothing is asked but that they are texts: they may be empty, and be
listed twice in whatever spelling. So a frame that is read is a map exactly if its document lists
one, and it stays what it is until it is dropped.
-/

namespace LayeredMachines

open Json (Value Denotes)
open Document

/-- The value is a way to write the two texts. -/
def Document.IsPair (pair : String × String) (value : Value) : Prop :=
  ∃ first second, value = .array [.scalar (.string first), .scalar (.string second)] ∧
    Denotes first pair.1.toList ∧ Denotes second pair.2.toList

/-- The value is a way to write the frame. -/
def Frame.IsWrittenAs (frame : Frame) (value : Value) : Prop :=
  ∃ given, Gives ["bindings"] value given ∧ ∃ pairs, given "bindings" = some (.array pairs) ∧
    List.Forall₂ IsPair frame.bindings pairs

/-- The value is a way to write the stack. -/
def FrameStack.IsWrittenAs (stack : FrameStack) (value : Value) : Prop :=
  ∃ given, Gives ["innermost", "outer"] value given ∧
    (∃ innermost, given "innermost" = some innermost ∧ stack.innermost.IsWrittenAs innermost) ∧
    ∃ outer, given "outer" = some (.array outer) ∧
      List.Forall₂ Frame.IsWrittenAs stack.outer.reverse outer

theorem Document.pair?_eq_some_iff (pair : String × String) (value : Value) :
    pair? value = some pair ↔ IsPair pair value := by
  unfold pair?
  split
  · next first second =>
    simp only [Option.bind_eq_bind, Option.bind_eq_some_iff, string?_eq_some_iff]
    constructor
    · rintro ⟨label, ⟨spelling, rfl, hlabel⟩, content, ⟨body, rfl, hcontent⟩, heq⟩
      cases heq
      exact ⟨spelling, body, rfl, hlabel, hcontent⟩
    · rintro ⟨spelling, body, heq, hlabel, hcontent⟩
      cases heq
      exact ⟨_, ⟨_, rfl, hlabel⟩, _, ⟨_, rfl, hcontent⟩, rfl⟩
  · next hother =>
    simp only [reduceCtorEq, false_iff]
    rintro ⟨spelling, body, rfl, -⟩
    exact hother _ _ rfl

/-- A frame is decoded from the values that it may be written as, and from no other ones. -/
theorem Frame.ofValue?_eq_some_iff (frame : Frame) (value : Value) :
    Frame.ofValue? value = some frame ↔ frame.IsWrittenAs value := by
  have hnodup : ["bindings"].Nodup := by decide
  simp only [ofValue?, Option.bind_eq_bind, Option.bind_eq_some_iff, Fields.required,
    list?_eq_some_iff pair?_eq_some_iff]
  constructor
  · rintro ⟨fields, hread, bindings, ⟨listed, hlisted, pairs, rfl, hbindings⟩, heq⟩
    cases heq
    exact ⟨_, gives_of_ofValue? hnodup hread, pairs, hlisted, hbindings⟩
  · rintro ⟨given, hgives, pairs, hlisted, hbindings⟩
    obtain ⟨fields, hread, hlookup⟩ := hgives.exists_ofValue? hnodup
    rw [← hlookup "bindings" (by decide)] at hlisted
    exact ⟨fields, hread, _, ⟨_, hlisted, pairs, rfl, hbindings⟩, rfl⟩

/-- A stack is decoded from the values that it may be written as, and from no other ones. -/
theorem FrameStack.ofValue?_eq_some_iff (stack : FrameStack) (value : Value) :
    FrameStack.ofValue? value = some stack ↔ stack.IsWrittenAs value := by
  have hnodup : ["innermost", "outer"].Nodup := by decide
  simp only [ofValue?, Option.bind_eq_bind, Option.bind_eq_some_iff, Fields.required,
    Frame.ofValue?_eq_some_iff, list?_eq_some_iff Frame.ofValue?_eq_some_iff]
  constructor
  · rintro ⟨fields, hread, innermost, hinnermost, outer, ⟨listed, hlisted, frames, rfl, houter⟩,
      heq⟩
    cases heq
    rw [← List.reverse_reverse outer] at houter
    exact ⟨_, gives_of_ofValue? hnodup hread, hinnermost, frames, hlisted, houter⟩
  · rintro ⟨given, hgives, hinnermost, frames, hlisted, houter⟩
    obtain ⟨fields, hread, hlookup⟩ := hgives.exists_ofValue? hnodup
    rw [← hlookup "innermost" (by decide)] at hinnermost
    rw [← hlookup "outer" (by decide)] at hlisted
    refine ⟨fields, hread, _, hinnermost, _, ⟨_, hlisted, frames, rfl, houter⟩, ?_⟩
    rw [List.reverse_reverse]

/-- A frame is read from the texts that spell a value it may be written as, and from no other
ones. -/
theorem Frame.read?_eq_some_iff {text : String} {frame : Frame} :
    Frame.read? text = some frame ↔
      ∃ value, Json.Spells text.toList value ∧ frame.IsWrittenAs value := by
  simp only [read?, Option.bind_eq_some_iff, Value.read?_eq_some_iff, Frame.ofValue?_eq_some_iff]

/-- A stack is read from the texts that spell a value it may be written as, and from no other
ones. -/
theorem FrameStack.read?_eq_some_iff {text : String} {stack : FrameStack} :
    FrameStack.read? text = some stack ↔
      ∃ value, Json.Spells text.toList value ∧ stack.IsWrittenAs value := by
  simp only [read?, Option.bind_eq_some_iff, Value.read?_eq_some_iff,
    FrameStack.ofValue?_eq_some_iff]

namespace FrameStack

/-- A text is read as a frame, or as a stack of frames, exactly if it spells one, of whatever
labels. A frame is a map after labels are set exactly if it was one, and a label that is set last is
answered by as many bindings as at first, or by one if there was none. The frames of a stack are maps
after any operations exactly if those that it had at first and that were never dropped were maps. -/
theorem frames_are_maps_iff_read (text : String) :
    (∀ frame : Frame,
      (Frame.read? text = some frame ↔
        ∃ value, Json.Spells text.toList value ∧ frame.IsWrittenAs value) ∧
      ∀ bindings, ((frame.setAll bindings).IsMap ↔ frame.IsMap) ∧
        ∀ label value, ((frame.setAll bindings).set label value).answers label =
          if label.isEmpty then frame.answers label else max 1 (frame.answers label)) ∧
    ∀ stack : FrameStack,
      (FrameStack.read? text = some stack ↔
        ∃ value, Json.Spells text.toList value ∧ stack.IsWrittenAs value) ∧
      ∀ operations, (∀ frame ∈ (operations.foldl perform stack).frames, frame.IsMap) ↔
        ∀ frame ∈ stack.frames.rtake (stack.leastDepth operations), frame.IsMap := by
  constructor
  · exact fun frame => ⟨Frame.read?_eq_some_iff, fun bindings =>
      ⟨frame.isMap_setAll_iff bindings, frame.answers_set_setAll bindings⟩⟩
  · exact fun stack => ⟨read?_eq_some_iff,
      forall_mem_foldl_perform_iff Frame.isMap_set_iff Frame.isMap_empty stack⟩

/-- A frame that lists two spellings of a label is read as it is, alone and in a stack. It is no map,
and after the label is set two bindings answer to it. -/
theorem not_forall_isMap_of_read :
    (¬∀ text frame, Frame.read? text = some frame → frame.IsMap) ∧
      (¬∀ text frame label value, Frame.read? text = some frame → label ≠ "" →
        (frame.set label value).answers label = 1) ∧
      ¬∀ text stack, FrameStack.read? text = some stack → ∀ frame ∈ stack.frames, frame.IsMap := by
  let doubled : Frame := ⟨[("a", "1"), ("A", "2")]⟩
  have hread : Frame.read? doubled.render = some doubled := Frame.read?_render doubled
  have hanswers : doubled.answers "a" = 2 := by decide
  have hdefect : ¬doubled.IsMap := fun hmap => by
    have hone := (Frame.isMap_iff.mp hmap).2 "a"
    omega
  refine ⟨fun hall => hdefect (hall _ _ hread), fun hall => ?_, fun hall => ?_⟩
  · have hset := hall _ _ "a" "3" hread (by decide)
    rw [Frame.answers_set, caselessEq_refl, hanswers] at hset
    exact absurd hset (by decide)
  · exact hdefect (hall _ _ (read?_render ⟨doubled, []⟩) doubled (List.mem_singleton_self _))

end FrameStack

end LayeredMachines
