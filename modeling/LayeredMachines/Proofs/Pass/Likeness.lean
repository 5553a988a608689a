import LayeredMachines.Proofs.Hierarchy.Likeness
import LayeredMachines.Proofs.Layer.Likeness
import LayeredMachines.Proofs.Pass.Walks

/-!
# Passes that correspond

Two passes are alike if their hierarchies have the same shape, and if their layers, their work,
their timers and what the resolver was shown correspond in some sense. This file says once what such
a sense has to respect beyond the walks of layers. Alike passes then do the same work: every call is
answered alike, and every work item of the one pass is processed together with the same work item of
the other.
-/

namespace LayeredMachines

/-- A corresponding event for the same slot. -/
structure WorkItem.Alike (κ : Likeness) (item other : WorkItem) : Prop where
  event : κ.text item.event other.event
  slot_eq : other.slot = item.slot

namespace Pass

/-- A sense in which the parts of two passes correspond. -/
structure Likeness extends LayeredMachines.Likeness where
  timers : TimerQueue → TimerQueue → Prop
  transcript : Array Notice → Array Notice → Prop

/-- Passes cannot tell apart what corresponds: the resolvers answer alike, and what is added to both
sides corresponds again. -/
structure Likeness.IsRespected (κ : Likeness) (around other : Surroundings) : Prop extends
    κ.toLikeness.IsRespected where
  catalog_eq : other.catalog = around.catalog
  config_eq : other.config = around.config
  answer {shown showed : Array Notice} (hshown : κ.transcript shown showed) (verb : String)
    (parameters : List Parameter) :
    around.resolver.answer shown verb parameters = other.resolver.answer showed verb parameters
  instant : κ.instant (Instant.ofMillis around.now) (Instant.ofMillis other.now)
  next {number like : Nat} (hid : κ.id ⟨number⟩ ⟨like⟩) : κ.id ⟨number + 1⟩ ⟨like + 1⟩
  schedule {timers queue : TimerQueue} (htimers : κ.timers timers queue) {id name : LayerId}
    (hid : κ.id id name) (event : String) (delay : Nat) :
    κ.timers (timers.schedule ⟨id, event, Signed64.clamp (around.now + delay)⟩)
      (queue.schedule ⟨name, event, Signed64.clamp (other.now + delay)⟩)
  traced {id name : LayerId} (hid : κ.id id name) (text : String) :
    κ.line (.traced id text) (.traced name text)
  following {id name : LayerId} (hid : κ.id id name) (machine : String) {event spelled : String}
    (hevent : κ.text event spelled) :
    κ.line (.following id machine event) (.following name machine spelled)
  showLine {shown showed : Array Notice} (hshown : κ.transcript shown showed)
    {line worded : Diagnostic} (hline : κ.line line worded) :
    κ.transcript (shown.push (.line line)) (showed.push (.line worded))
  showCall {shown showed : Array Notice} (hshown : κ.transcript shown showed) {notice : Notice}
    (hnotice : ∀ line, notice ≠ .line line) :
    κ.transcript (shown.push notice) (showed.push notice)

/-- The passes have hierarchies of the same shape, and all else corresponds. -/
structure Alike (κ : Likeness) (left right : Pass) : Prop where
  hierarchy : left.hierarchy.Alike (Layer.Alike κ.toLikeness) right.hierarchy
  timers : κ.timers left.timers right.timers
  transcript : κ.transcript left.transcript right.transcript
  nextLayer : κ.id ⟨left.nextLayer⟩ ⟨right.nextLayer⟩
  queue : List.Forall₂ (WorkItem.Alike κ.toLikeness) left.queue.toList right.queue.toList
  progress_eq : right.progress = left.progress

namespace Alike

variable {κ : Likeness} {around other : Surroundings} {left right : Pass}

/-! ### What is done to a pass -/

/-- Both hierarchies may change alike. -/
theorem changeHierarchy (h : left.Alike κ right) {left' right' : Hierarchy}
    (hhierarchy : left'.Alike (Layer.Alike κ.toLikeness) right') :
    { left with hierarchy := left' }.Alike κ { right with hierarchy := right' } :=
  { h with hierarchy := hhierarchy }

/-- Both passes may show to the resolver what corresponds. -/
theorem notify (h : left.Alike κ right) {notice shown : Notice}
    (hnotice : κ.transcript (left.transcript.push notice) (right.transcript.push shown)) :
    (left.notify notice).Alike κ (right.notify shown) :=
  { h with transcript := hnotice }

/-- Both passes may add the same work. -/
theorem enqueue (h : left.Alike κ right) {event spelled : String}
    (hevent : κ.text event spelled) (slot : Nat) :
    (left.enqueue event slot).Alike κ (right.enqueue spelled slot) := by
  refine { h with queue := ?_ }
  simp only [Pass.enqueue, Array.toList_push]
  exact List.rel_append h.queue (.cons ⟨hevent, rfl⟩ .nil)

/-- Both passes may add the same event for several layers. -/
theorem enqueueAll (h : left.Alike κ right) {event spelled : String}
    (hevent : κ.text event spelled) (slots : List Nat) :
    (left.enqueueAll event slots).Alike κ (right.enqueueAll spelled slots) := by
  induction slots generalizing left right with
  | nil => exact h
  | cons slot rest ih => exact ih (h.enqueue hevent slot)

/-- Both passes may start the same layer. -/
theorem startLayer (h : left.Alike κ right) (hκ : κ.IsRespected around other) (machine : Machine)
    (slot : Nat) (seed : List Parameter) :
    (left.startLayer around.config machine slot seed).Alike κ
      (right.startLayer other.config machine slot seed) := by
  have hlayer : (left.newLayer around.config machine seed).Alike κ.toLikeness
      (right.newLayer other.config machine seed) := by
    rw [hκ.config_eq]
    exact (Layer.Alike.create h.nextLayer machine around.config.historyLimit).setFrames _
  have hstarted : Alike κ
      { left with
        hierarchy := left.hierarchy.attach (some slot) (left.newLayer around.config machine seed)
        nextLayer := left.nextLayer + 1 }
      { right with
        hierarchy := right.hierarchy.attach (some slot) (right.newLayer other.config machine seed)
        nextLayer := right.nextLayer + 1 } :=
    { h with hierarchy := h.hierarchy.attach (some slot) hlayer, nextLayer := hκ.next h.nextLayer }
  rw [startLayer_eq, startLayer_eq, h.hierarchy.size_eq]
  exact hstarted.enqueue (hκ.refl startedEvent) left.hierarchy.size

/-- The same number of layers match. -/
theorem countMatches_eq (h : left.Alike κ right) (slot : Nat) (tuple : List Parameter) :
    right.countMatches slot tuple = left.countMatches slot tuple := by
  have htest (layer like : Layer) (hlayer : layer.Alike κ.toLikeness like) :
      like.frames.matchesAll tuple = layer.frames.matchesAll tuple := by rw [hlayer.frames_eq]
  simp only [countMatches, h.hierarchy.descendants_eq, h.hierarchy.any_layer?_eq htest]

/-! ### Calls -/

/-- The same call is answered alike in both passes, and they go on to be alike. -/
theorem handle (h : left.Alike κ right) (hκ : κ.IsRespected around other) (slot : Nat)
    {id name : LayerId} (hid : κ.id id name) {call : Call} (hcall : ∀ line, call ≠ .log line) :
    (around.handle slot id call left).1 = (other.handle slot name call right).1 ∧
      (around.handle slot id call left).2.Alike κ (other.handle slot name call right).2 := by
  have hattached := h.hierarchy.isAttached_eq slot
  have hparent := h.hierarchy.parent?_eq slot
  cases call with
  | start machine seed =>
    simp only [Surroundings.handle, hattached, hκ.catalog_eq]
    split
    · cases around.catalog.find? (·.isNamed machine) with
      | none => exact ⟨rfl, h⟩
      | some definition => exact ⟨rfl, h.startLayer hκ definition slot seed⟩
    · exact ⟨rfl, h⟩
  | raise event =>
    simp only [Surroundings.handle, hattached, hparent]
    split
    · cases left.hierarchy.parent? slot with
      | none => exact ⟨rfl, h⟩
      | some parent =>
        refine ⟨rfl, ?_⟩
        dsimp only
        split
        · exact h
        · exact h.enqueue (hκ.refl event) parent
    · exact ⟨rfl, h⟩
  | blast event =>
    refine ⟨rfl, ?_⟩
    simp only [Surroundings.handle]
    split
    · exact h
    · rw [h.hierarchy.descendants_eq]
      exact h.enqueueAll (hκ.refl event) _
  | patch command status =>
    simp only [Surroundings.handle, hattached]
    split
    · exact ⟨rfl, h.notify (hκ.showCall h.transcript (by simp))⟩
    · exact ⟨rfl, h⟩
  | write label value =>
    simp only [Surroundings.handle, hattached, hparent]
    split
    · cases left.hierarchy.parent? slot with
      | none => exact ⟨rfl, h⟩
      | some parent =>
        refine ⟨rfl, h.changeHierarchy (h.hierarchy.modifyLayer parent fun layer like hlayer => ?_)⟩
        rw [hlayer.frames_eq]
        exact hlayer.setFrames _
    · exact ⟨rfl, h⟩
  | count tuple => exact ⟨(h.countMatches_eq slot tuple).symm, h⟩
  | timer delay event =>
    simp only [Surroundings.handle, hattached]
    split
    · exact ⟨rfl, { h with timers := hκ.schedule h.timers hid event delay }⟩
    · exact ⟨rfl, h⟩
  | trace text =>
    simp only [Surroundings.handle, hattached]
    split
    · exact ⟨rfl, h.notify (hκ.showLine h.transcript (hκ.traced hid text))⟩
    · exact ⟨rfl, h⟩
  | pop =>
    simp only [Surroundings.handle, hattached]
    split
    · exact ⟨rfl, h.changeHierarchy (h.hierarchy.detach slot)⟩
    · exact ⟨rfl, h⟩
  | execute verb parameters =>
    exact ⟨hκ.answer h.transcript verb parameters, h.notify (hκ.showCall h.transcript (by simp))⟩
  | log line => exact absurd rfl (hcall line)

/-! ### Work items and whole passes -/

/-- Either both passes have the same next work item, or both are at their end. -/
theorem next? (h : left.Alike κ right) :
    Option.Rel (WorkItem.Alike κ.toLikeness) left.next? right.next? := by
  have hqueue := h.queue
  rw [Pass.next?, Pass.next?, h.progress_eq, ← Array.getElem?_toList, ← Array.getElem?_toList]
  generalize left.progress = n
  generalize left.queue.toList = items at hqueue ⊢
  generalize right.queue.toList = others at hqueue ⊢
  induction hqueue generalizing n with
  | nil => exact .none
  | cons hitem _ ih =>
    cases n with
    | zero => exact .some hitem
    | succ n => exact ih n

variable {item work : WorkItem} {layer like : Layer}

/-- Corresponding layers begin to walk alike. -/
theorem beginWalk (h : left.Alike κ right) (hκ : κ.IsRespected around other)
    (hitem : item.Alike κ.toLikeness work) (hlayer : layer.Alike κ.toLikeness like) :
    (left.beginWalk item layer).Alike κ (right.beginWalk work like) := by
  have htaken : Alike κ
      { left with
        progress := left.progress + 1
        hierarchy := left.hierarchy.take item.slot }
      { right with
        progress := right.progress + 1
        hierarchy := right.hierarchy.take work.slot } := by
    rw [hitem.slot_eq]
    exact { h with
      hierarchy := h.hierarchy.take item.slot, progress_eq := by simp only [h.progress_eq] }
  have hline := hκ.following hlayer.id layer.machine.name hitem.event
  rw [Pass.beginWalk, Pass.beginWalk, hlayer.machine_eq]
  exact htaken.notify (hκ.showLine h.transcript hline)

/-- Corresponding layers walk alike for the same work item. -/
theorem walked (h : left.Alike κ right) (hκ : κ.IsRespected around other)
    (hitem : item.Alike κ.toLikeness work) (hlayer : layer.Alike κ.toLikeness like) :
    (left.walked around item layer).Alike κ (right.walked other work like) := by
  have hwalk := hlayer.follow hκ.toIsRespected hitem.event hκ.instant around.config.maxFollowOn
  obtain ⟨hend, hpasses⟩ := hwalk.run
    (fun call _ _ hcall hpasses => hpasses.handle hκ item.slot hlayer.id hcall)
    (fun _ _ _ _ hline hpasses => hpasses.notify (hκ.showLine hpasses.transcript hline))
    (h.beginWalk hκ hitem hlayer)
  rw [Pass.walked, Pass.walked, runWalk, runWalk, Surroundings.walk, Surroundings.walk,
    hitem.slot_eq, hκ.config_eq]
  exact hpasses.changeHierarchy (hpasses.hierarchy.restore item.slot hend)

/-- Either both passes process a work item, or both are at their end. -/
theorem step? (h : left.Alike κ right) (hκ : κ.IsRespected around other) :
    Option.Rel (Alike κ) (left.step? around) (right.step? other) := by
  rcases rel_cases h.next? with ⟨hleft, hright⟩ | ⟨item, work, hleft, hright, hitem⟩
  · rw [step?_eq_none.mpr hleft, step?_eq_none.mpr hright]
    exact .none
  · rcases rel_cases (h.hierarchy.layer? item.slot) with
      ⟨hnone, hother⟩ | ⟨layer, like, hlayer, hother, hlike⟩
    · rw [← hitem.slot_eq] at hother
      rw [step?_of_layer?_eq_none hleft hnone, step?_of_layer?_eq_none hright hother]
      exact .some { h with progress_eq := by simp only [h.progress_eq] }
    · rw [← hitem.slot_eq] at hother
      rw [step?_of_layer? hleft hlayer, step?_of_layer? hright hother]
      exact .some (h.walked hκ hitem hlike)

/-- Either both passes return within a number of work items, or none of them does. -/
theorem drain? (h : left.Alike κ right) (hκ : κ.IsRespected around other) (items : Nat) :
    Option.Rel (Alike κ) (left.drain? around items) (right.drain? other items) :=
  rel_drain? (fun _ _ hpasses => hpasses.step? hκ) items h

end Alike

end Pass

end LayeredMachines
