import LayeredMachines.Proofs.Layer.Renaming
import LayeredMachines.Proofs.Pass.Likeness
import LayeredMachines.Proofs.Timer.Renaming

/-!
# The same pass under other names and at another time

Two passes over the same layers, under other names and at other times, do the same work: every call
is answered alike, as long as the resolver answers alike, and every work item of the one pass is
processed together with the same work item of the other.
-/

namespace LayeredMachines

variable {ρ : Renaming} {before : Array Notice}

/-- The times stand for each other: so do their instants, and the deadlines after the same delay. -/
structure Renaming.Times (ρ : Renaming) (now later : Int) : Prop where
  instant : ρ.instant (Instant.ofMillis now) (Instant.ofMillis later)
  deadline (delay : Nat) :
    ρ.deadline (Signed64.clamp (now + delay)) (Signed64.clamp (later + delay))

/-- The renaming under which what happens at times that stand for each other does so, and nothing
else. -/
def Renaming.ofTimes (left right : Nat) (time : Int → Int → Prop) : Renaming where
  left := left
  right := right
  instant now later := ∃ a b, time a b ∧ now = Instant.ofMillis a ∧ later = Instant.ofMillis b
  deadline due later := ∃ a b, ∃ delay : Nat, time a b ∧ due = Signed64.clamp (a + delay) ∧
    later = Signed64.clamp (b + delay)

theorem Renaming.times_ofTimes {left right : Nat} {time : Int → Int → Prop} {now later : Int}
    (htime : time now later) : (Renaming.ofTimes left right time).Times now later :=
  ⟨⟨now, later, htime, rfl, rfl⟩, fun delay => ⟨now, later, delay, htime, rfl, rfl⟩⟩

/-- The same notice, except that a line may show the corresponding identity. -/
inductive Notice.Renames (ρ : Renaming) : Notice → Notice → Prop
  | line {line renamed : Diagnostic} (hline : line.Renames ρ renamed) :
      Renames ρ (.line line) (.line renamed)
  | execute (verb : String) (parameters : List Parameter) :
      Renames ρ (.execute verb parameters) (.execute verb parameters)
  | command (command status : String) :
      Renames ρ (.command command status) (.command command status)

/-- The resolver answers as if it had not been shown anything before, whatever it is shown since. -/
def Resolver.Forgets (ρ : Renaming) (before : Array Notice) (resolver : Resolver) : Prop :=
  ∀ since other : Array Notice, List.Forall₂ (Notice.Renames ρ) since.toList other.toList →
    ∀ verb parameters,
      resolver.answer (before ++ since) verb parameters = resolver.answer other verb parameters

/-- The first transcript shows what was shown before, and then the same as the second one. -/
def Notice.Continues (ρ : Renaming) (before transcript other : Array Notice) : Prop :=
  ∃ since, transcript = before ++ since ∧
    List.Forall₂ (Notice.Renames ρ) since.toList other.toList

/-- More may be shown in both transcripts. -/
theorem Notice.Continues.push {transcript other : Array Notice} {notice renamed : Notice}
    (h : Continues ρ before transcript other) (hnotice : notice.Renames ρ renamed) :
    Continues ρ before (transcript.push notice) (other.push renamed) := by
  obtain ⟨since, rfl, hsince⟩ := h
  refine ⟨since.push notice, Array.append_push.symm, ?_⟩
  rw [Array.toList_push, Array.toList_push]
  exact List.rel_append hsince (.cons hnotice .nil)

namespace Pass

/-- The passes agree in all but identities and times, and in what the resolver was shown before. -/
structure Renames (ρ : Renaming) (before : Array Notice) (left right : Pass) : Prop where
  hierarchy : left.hierarchy.Alike (Layer.Renames ρ) right.hierarchy
  timers : left.timers.Renames ρ right.timers
  transcript : Notice.Continues ρ before left.transcript right.transcript
  nextLayer : ρ.id ⟨left.nextLayer⟩ ⟨right.nextLayer⟩
  queue_eq : right.queue = left.queue
  progress_eq : right.progress = left.progress

/-- A renaming as a sense in which two passes correspond, of which the first has a past. -/
def Likeness.ofRenaming (ρ : Renaming) (before : Array Notice) : Likeness where
  toLikeness := .ofRenaming ρ
  timers := TimerQueue.Renames ρ
  transcript := Notice.Continues ρ before

/-- No pass can tell identities and times apart that stand for each other, if its resolver answers
as if it had not been shown anything before. -/
theorem Likeness.isRespected_ofRenaming {around : Surroundings} {later : Int}
    (hresolver : around.resolver.Forgets ρ before) (htime : ρ.Times around.now later) :
    (ofRenaming ρ before).IsRespected around { around with now := later } where
  toIsRespected := LayeredMachines.Likeness.isRespected_ofRenaming ρ
  catalog_eq := rfl
  config_eq := rfl
  answer := by
    rintro _ showed ⟨since, rfl, hsince⟩ verb parameters
    exact hresolver since showed hsince verb parameters
  instant := htime.instant
  next hid := Renaming.id_succ hid
  schedule htimers _ _ hid event delay := htimers.schedule ⟨hid, rfl, htime.deadline delay⟩
  traced hid text := .traced hid text
  following := by
    rintro id name hid machine event _ rfl
    exact .following hid machine event
  showLine hshown _ _ hline := hshown.push (.line hline)
  showCall hshown notice hnotice := by
    cases notice with
    | line line => exact absurd rfl (hnotice line)
    | execute verb parameters => exact hshown.push (.execute verb parameters)
    | command command status => exact hshown.push (.command command status)

/-- The passes that correspond in this sense agree in all but identities and times, and in what the
resolver was shown before. -/
theorem alike_ofRenaming : Alike (.ofRenaming ρ before) = Renames ρ before := by
  have hitem : WorkItem.Alike (.ofRenaming ρ) = Eq := by
    ext ⟨event, slot⟩ ⟨other, place⟩
    rw [WorkItem.mk.injEq]
    exact ⟨fun h => ⟨h.event, h.slot_eq.symm⟩, fun h => ⟨h.1, h.2.symm⟩⟩
  ext left right
  constructor
  · intro h
    have hqueue := h.queue
    rw [Likeness.ofRenaming, hitem, List.forall₂_eq_eq_eq] at hqueue
    exact ⟨Layer.alike_ofRenaming ▸ h.hierarchy, h.timers, h.transcript, h.nextLayer,
      (Array.toList_inj.mp hqueue).symm, h.progress_eq⟩
  · intro h
    have hqueue : List.Forall₂ (WorkItem.Alike (.ofRenaming ρ)) left.queue.toList
        right.queue.toList := by
      rw [hitem, List.forall₂_eq_eq_eq, h.queue_eq]
    exact ⟨Layer.alike_ofRenaming ▸ h.hierarchy, h.timers, h.transcript, h.nextLayer, hqueue,
      h.progress_eq⟩

/-- Either both passes return within a number of work items, or none of them does. -/
theorem Renames.drain? {left right : Pass} (h : Renames ρ before left right)
    {around : Surroundings} {later : Int} (hresolver : around.resolver.Forgets ρ before)
    (htime : ρ.Times around.now later) (items : Nat) :
    Option.Rel (Renames ρ before) (left.drain? around items)
      (right.drain? { around with now := later } items) := by
  rw [← alike_ofRenaming] at h ⊢
  exact h.drain? (Likeness.isRespected_ofRenaming hresolver htime) items

end Pass

end LayeredMachines
