import LayeredMachines.Proofs.Hierarchy.Embedding
import LayeredMachines.Proofs.Pass.Walks

/-!
# The same pass in two hierarchies

Two passes that differ in the records of detached layers only, and so in the slots of the others,
do the same work. This file relates them through the places of the slots: all calls are answered
alike, and every work item of the one pass is processed together with the same work item of the
other. Neither of them returns without the other.
-/

namespace LayeredMachines

/-- The same event for the layer in the place of the slot. -/
def WorkItem.at (place : Nat → Nat) (item : WorkItem) : WorkItem :=
  { item with slot := place item.slot }

namespace Pass

/-- The passes agree in all but the slots, which are those of `small` at their places in `large`. -/
structure Embeds (place : Nat → Nat) (small large : Pass) : Prop where
  hierarchy : small.hierarchy.Embeds place large.hierarchy
  timers_eq : large.timers = small.timers
  transcript_eq : large.transcript = small.transcript
  nextLayer_eq : large.nextLayer = small.nextLayer
  queue_eq : large.queue = small.queue.map (WorkItem.at place)
  progress_eq : large.progress = small.progress

namespace Embeds

variable {place : Nat → Nat} {small large : Pass}

/-! ### What is done to a pass -/

/-- Both hierarchies may change alike. -/
theorem changeHierarchy (h : Embeds place small large) {small' large' : Hierarchy}
    (hhierarchy : small'.Embeds place large') :
    Embeds place { small with hierarchy := small' } { large with hierarchy := large' } :=
  ⟨hhierarchy, h.timers_eq, h.transcript_eq, h.nextLayer_eq, h.queue_eq, h.progress_eq⟩

/-- Both passes may show something to the resolver. -/
theorem notify (h : Embeds place small large) (notice : Notice) :
    Embeds place (small.notify notice) (large.notify notice) := by
  refine ⟨h.hierarchy, h.timers_eq, ?_, h.nextLayer_eq, h.queue_eq, h.progress_eq⟩
  simp only [Pass.notify, h.transcript_eq]

/-- Both passes may add work for corresponding layers. -/
theorem enqueue (h : Embeds place small large) (event : String) (slot : Nat) :
    Embeds place (small.enqueue event slot) (large.enqueue event (place slot)) := by
  refine ⟨h.hierarchy, h.timers_eq, h.transcript_eq, h.nextLayer_eq, ?_, h.progress_eq⟩
  simp only [Pass.enqueue, h.queue_eq, Array.map_push, WorkItem.at]

/-- Both passes may add the same event for several corresponding layers. -/
theorem enqueueAll (h : Embeds place small large) (event : String) (slots : List Nat) :
    Embeds place (small.enqueueAll event slots) (large.enqueueAll event (slots.map place)) := by
  induction slots generalizing small large with
  | nil => exact h
  | cons slot rest ih => exact ih (h.enqueue event slot)

/-- Both passes may start the same layer below corresponding layers. -/
theorem startLayer (h : Embeds place small large) (config : Config) (machine : Machine)
    (slot : Nat) (seed : List Parameter) :
    Embeds place (small.startLayer config machine slot seed)
      (large.startLayer config machine (place slot) seed) := by
  have hlayer : large.newLayer config machine seed = small.newLayer config machine seed := by
    simp only [newLayer, h.nextLayer_eq]
  rw [startLayer_eq, startLayer_eq, hlayer]
  refine ⟨h.hierarchy.attach (some slot) _, h.timers_eq, h.transcript_eq, ?_, ?_, h.progress_eq⟩
  · simp only [h.nextLayer_eq]
  · simp only [h.queue_eq, Array.map_push, WorkItem.at, h.hierarchy.place_size]

/-- The same number of layers match below corresponding layers. -/
theorem countMatches_eq (h : Embeds place small large) (slot : Nat) (tuple : List Parameter) :
    large.countMatches (place slot) tuple = small.countMatches slot tuple := by
  simp only [countMatches, h.hierarchy.descendants_place, List.countP_map, Function.comp_def,
    h.hierarchy.layer?_place]

/-! ### Calls -/

/-- A call of corresponding layers is answered alike, and the passes go on to correspond. -/
theorem handle (h : Embeds place small large) (around : Surroundings) (slot : Nat) (id : LayerId)
    (call : Call) :
    (around.handle slot id call small).1 = (around.handle (place slot) id call large).1 ∧
      Embeds place (around.handle slot id call small).2
        (around.handle (place slot) id call large).2 := by
  have hattached := h.hierarchy.isAttached_place slot
  have hparent := h.hierarchy.parent?_place slot
  cases call with
  | start machine seed =>
    simp only [Surroundings.handle, hattached]
    split
    · cases around.catalog.find? (·.isNamed machine) with
      | none => exact ⟨rfl, h⟩
      | some definition => exact ⟨rfl, h.startLayer around.config definition slot seed⟩
    · exact ⟨rfl, h⟩
  | raise event =>
    simp only [Surroundings.handle, hattached, hparent]
    split
    · cases small.hierarchy.parent? slot with
      | none => exact ⟨rfl, h⟩
      | some parent =>
        refine ⟨rfl, ?_⟩
        simp only [Option.map_some]
        split
        · exact h
        · exact h.enqueue event parent
    · exact ⟨rfl, h⟩
  | blast event =>
    refine ⟨rfl, ?_⟩
    simp only [Surroundings.handle]
    split
    · exact h
    · rw [h.hierarchy.descendants_place]
      exact h.enqueueAll event _
  | patch command status =>
    simp only [Surroundings.handle, hattached]
    split
    · exact ⟨rfl, h.notify (.command command status)⟩
    · exact ⟨rfl, h⟩
  | write label value =>
    simp only [Surroundings.handle, hattached, hparent]
    split
    · cases small.hierarchy.parent? slot with
      | none => exact ⟨rfl, h⟩
      | some parent => exact ⟨rfl, h.changeHierarchy (h.hierarchy.modifyLayer parent _)⟩
    · exact ⟨rfl, h⟩
  | count tuple => exact ⟨(h.countMatches_eq slot tuple).symm, h⟩
  | timer delay event =>
    simp only [Surroundings.handle, hattached]
    split
    · refine ⟨rfl, h.hierarchy, ?_, h.transcript_eq, h.nextLayer_eq, h.queue_eq, h.progress_eq⟩
      simp only [h.timers_eq]
    · exact ⟨rfl, h⟩
  | trace text =>
    simp only [Surroundings.handle, hattached]
    split
    · exact ⟨rfl, h.notify (.line (.traced id text))⟩
    · exact ⟨rfl, h⟩
  | pop =>
    simp only [Surroundings.handle, hattached]
    split
    · exact ⟨rfl, h.changeHierarchy (h.hierarchy.detach slot)⟩
    · exact ⟨rfl, h⟩
  | execute verb parameters =>
    refine ⟨?_, h.notify (.execute verb parameters)⟩
    simp only [Surroundings.handle, h.transcript_eq]
  | log line => exact ⟨rfl, h.notify (.line line)⟩

/-! ### Work items and whole passes -/

/-- Corresponding layers begin to walk alike. -/
theorem beginWalk (h : Embeds place small large) (item : WorkItem) (layer : Layer) :
    Embeds place (small.beginWalk item layer) (large.beginWalk (item.at place) layer) := by
  refine ⟨h.hierarchy.take item.slot, h.timers_eq, ?_, h.nextLayer_eq, h.queue_eq, ?_⟩
  · simp only [Pass.beginWalk, Pass.notify, h.transcript_eq, WorkItem.at]
  · simp only [Pass.beginWalk, Pass.notify, h.progress_eq]

/-- Either both passes process a work item, or both are at their end. -/
theorem step? (h : Embeds place small large) (around : Surroundings) :
    Option.Rel (Embeds place) (small.step? around) (large.step? around) := by
  have hnext : large.next? = small.next?.map (WorkItem.at place) := by
    rw [next?, next?, h.queue_eq, h.progress_eq, Array.getElem?_map]
  cases hsmall : small.next? with
  | none =>
    rw [hsmall, Option.map_none] at hnext
    rw [step?_eq_none.mpr hsmall, step?_eq_none.mpr hnext]
    exact .none
  | some item =>
    rw [hsmall, Option.map_some] at hnext
    have hlarge : large.hierarchy.layer? (item.at place).slot = small.hierarchy.layer? item.slot :=
      h.hierarchy.layer?_place item.slot
    cases hlayer : small.hierarchy.layer? item.slot with
    | none =>
      rw [hlayer] at hlarge
      rw [step?_of_layer?_eq_none hsmall hlayer, step?_of_layer?_eq_none hnext hlarge]
      refine .some ⟨h.hierarchy, h.timers_eq, h.transcript_eq, h.nextLayer_eq, h.queue_eq, ?_⟩
      simp only [h.progress_eq]
    | some layer =>
      rw [hlayer] at hlarge
      rw [step?_of_layer? hsmall hlayer, step?_of_layer? hnext hlarge]
      obtain ⟨hvalue, hwalked⟩ := Program.run_related
        (fun call _ _ hpasses => hpasses.handle around item.slot layer.id call)
        (around.walk item layer) (h.beginWalk item layer)
      refine .some (hwalked.changeHierarchy ?_)
      exact hvalue ▸ hwalked.hierarchy.restore item.slot _

/-- Either both passes return within a number of work items, or none of them does. -/
theorem drain? (h : Embeds place small large) (around : Surroundings) (items : Nat) :
    Option.Rel (Embeds place) (small.drain? around items) (large.drain? around items) :=
  rel_drain? (fun _ _ hpasses => hpasses.step? around) items h

end Embeds

end Pass

end LayeredMachines
