import LayeredMachines.Proofs.Layer.Spelling
import LayeredMachines.Proofs.Pass.Likeness

/-!
# The same pass for two spellings of an event

Two passes that differ only in how an event is spelled do the same work. Every call is answered
alike, as long as the resolver does not look at the wording of lines, and every work item of the one
pass is processed together with the same work item of the other.
-/

namespace LayeredMachines

variable {first second : String}

/-- The notice is a line. -/
def Notice.isLine : Notice → Bool
  | .line _ => true
  | _ => false

/-- The answers of a resolver do not depend on the lines that it was shown. -/
def Resolver.IgnoresLines (resolver : Resolver) : Prop :=
  ∀ shown other : Array Notice,
    shown.toList.filter (!·.isLine) = other.toList.filter (!·.isLine) →
    ∀ verb parameters, resolver.answer shown verb parameters = resolver.answer other verb parameters

/-- The same notice, except that a line may show the event in its second spelling. -/
inductive Notice.Respells (first second : String) : Notice → Notice → Prop
  | same (notice : Notice) : Respells first second notice notice
  | line {line worded : Diagnostic} (hline : line.Respells first second worded) :
      Respells first second (.line line) (.line worded)

/-- The same event for the same slot, except that the event may be in its second spelling. -/
structure WorkItem.Respells (first second : String) (item other : WorkItem) : Prop where
  event : Spelled first second item.event other.event
  slot_eq : other.slot = item.slot

/-- Notices that differ in their wording only show the same commands and verbs. -/
theorem filter_eq_of_respells {shown other : List Notice}
    (hshown : List.Forall₂ (Notice.Respells first second) shown other) :
    other.filter (!·.isLine) = shown.filter (!·.isLine) := by
  induction hshown with
  | nil => rfl
  | cons hnotice _ ih =>
    cases hnotice with
    | same notice => rw [List.filter_cons, List.filter_cons, ih]
    | line => simpa [List.filter_cons, Notice.isLine] using ih

/-- More may be shown in both transcripts. -/
theorem Notice.Respells.push {shown other : Array Notice} {notice worded : Notice}
    (hshown : List.Forall₂ (Respells first second) shown.toList other.toList)
    (hnotice : notice.Respells first second worded) :
    List.Forall₂ (Respells first second) (shown.push notice).toList (other.push worded).toList := by
  rw [Array.toList_push, Array.toList_push]
  exact List.rel_append hshown (.cons hnotice .nil)

namespace Pass

/-- The passes agree in all but the spelling of the event. -/
structure Respells (first second : String) (left right : Pass) : Prop where
  hierarchy : left.hierarchy.Alike (Layer.Respells first second) right.hierarchy
  timers_eq : right.timers = left.timers
  transcript : List.Forall₂ (Notice.Respells first second) left.transcript.toList
    right.transcript.toList
  nextLayer_eq : right.nextLayer = left.nextLayer
  queue : List.Forall₂ (WorkItem.Respells first second) left.queue.toList right.queue.toList
  progress_eq : right.progress = left.progress

/-- The sense in which two passes correspond that are given an event in two spellings. -/
def Likeness.ofSpellings (first second : String) : Likeness where
  toLikeness := .ofSpellings first second
  timers := Eq
  transcript shown other :=
    List.Forall₂ (Notice.Respells first second) shown.toList other.toList

/-- No pass can tell two spellings of an event apart if its resolver ignores lines. -/
theorem Likeness.isRespected_ofSpellings {around : Surroundings}
    (hsame : caselessEq first second = true) (hresolver : around.resolver.IgnoresLines) :
    (ofSpellings first second).IsRespected around around where
  toIsRespected := LayeredMachines.Likeness.isRespected_ofSpellings hsame
  catalog_eq := rfl
  config_eq := rfl
  answer hshown := hresolver _ _ (filter_eq_of_respells hshown).symm
  instant := rfl
  next := by
    rintro number _ ⟨⟩
    rfl
  schedule := by
    rintro timers _ rfl id _ rfl event delay
    rfl
  traced := by
    rintro id _ rfl text
    exact .same _
  following := by
    rintro id _ rfl machine event spelled hevent
    exact .of_following hevent id machine
  showLine hshown _ _ hline := Notice.Respells.push hshown (.line hline)
  showCall hshown notice _ := Notice.Respells.push hshown (.same notice)

/-- The passes that correspond in this sense agree in all but the spelling. -/
theorem alike_ofSpellings : Alike (.ofSpellings first second) = Respells first second := by
  have hitem : WorkItem.Alike (.ofSpellings first second) = WorkItem.Respells first second := by
    ext item other
    exact ⟨fun h => ⟨h.event, h.slot_eq⟩, fun h => ⟨h.event, h.slot_eq⟩⟩
  ext left right
  constructor
  · intro h
    exact ⟨Layer.alike_ofSpellings ▸ h.hierarchy, h.timers.symm, h.transcript,
      (congrArg LayerId.number h.nextLayer).symm, hitem ▸ h.queue, h.progress_eq⟩
  · intro h
    exact ⟨Layer.alike_ofSpellings ▸ h.hierarchy, h.timers_eq.symm, h.transcript,
      congrArg LayerId.mk h.nextLayer_eq.symm, hitem ▸ h.queue, h.progress_eq⟩

/-- Either both passes return within a number of work items, or none of them does. -/
theorem Respells.drain? {left right : Pass} (h : Respells first second left right)
    {around : Surroundings} (hsame : caselessEq first second = true)
    (hresolver : around.resolver.IgnoresLines) (items : Nat) :
    Option.Rel (Respells first second) (left.drain? around items) (right.drain? around items) := by
  rw [← alike_ofSpellings] at h ⊢
  exact h.drain? (Likeness.isRespected_ofSpellings hsame hresolver) items

end Pass

end LayeredMachines
