import LayeredMachines.Pass
import LayeredMachines.Proofs.Hierarchy.Order
import LayeredMachines.Proofs.Programs

/-!
# Effects of a walking layer

All that a layer can do to a pass while it walks is done by its calls, and each call has one of a
few effects. This file lists the effects once, with the conditions under which they occur. What
every effect keeps, a whole walk keeps.
-/

namespace LayeredMachines.Pass

variable {around : Surroundings} {slot : Nat} {id : LayerId} {pass next : Pass}

/-- Adding the same event for several layers adds one work item for each, in their order. -/
theorem enqueueAll_eq (pass : Pass) (event : String) (slots : List Nat) :
    pass.enqueueAll event slots =
      { pass with queue := pass.queue ++ (slots.map (WorkItem.mk event)).toArray } := by
  induction slots generalizing pass with
  | nil => simp [enqueueAll]
  | cons slot rest ih =>
    rw [enqueueAll, List.foldl_cons, ← enqueueAll, ih]
    simp [enqueue]

/-- The next layer to be started, with the seed for its variables. -/
def newLayer (pass : Pass) (config : Config) (machine : Machine) (seed : List Parameter) : Layer :=
  let layer := Layer.create ⟨pass.nextLayer⟩ machine config.historyLimit
  { layer with frames := seed.foldl (fun frames p => frames.apply p.label p.value) layer.frames }

/-- Starting a layer attaches it in the next slot and sends it its first event. -/
theorem startLayer_eq (pass : Pass) (config : Config) (machine : Machine) (slot : Nat)
    (seed : List Parameter) :
    pass.startLayer config machine slot seed =
      { pass with
        hierarchy := pass.hierarchy.attach (some slot) (pass.newLayer config machine seed)
        nextLayer := pass.nextLayer + 1
        queue := pass.queue.push ⟨startedEvent, pass.hierarchy.size⟩ } := rfl

/-- What one call of the layer in a slot can do to a pass. -/
inductive Effect (around : Surroundings) (slot : Nat) (id : LayerId) : Pass → Pass → Prop
  | nothing {pass : Pass} : Effect around slot id pass pass
  | notified {pass : Pass} (notice : Notice) : Effect around slot id pass (pass.notify notice)
  | scheduled {pass : Pass} (event : String) (deadline : Int)
      (hattached : pass.hierarchy.isAttached slot = true) :
      Effect around slot id pass
        { pass with timers := pass.timers.schedule ⟨id, event, deadline⟩ }
  | started {pass : Pass} {machine : Machine} (seed : List Parameter)
      (hattached : pass.hierarchy.isAttached slot = true) (hmachine : machine ∈ around.catalog) :
      Effect around slot id pass (pass.startLayer around.config machine slot seed)
  | raised {pass : Pass} {event : String} {parent : Nat}
      (hattached : pass.hierarchy.isAttached slot = true)
      (hparent : pass.hierarchy.parent? slot = some parent) (hevent : event ≠ "") :
      Effect around slot id pass (pass.enqueue event parent)
  | blasted {pass : Pass} {event : String} (hevent : event ≠ "") :
      Effect around slot id pass (pass.enqueueAll event (pass.hierarchy.descendants slot))
  | wrote {pass : Pass} {parent : Nat} (label value : String)
      (hattached : pass.hierarchy.isAttached slot = true)
      (hparent : pass.hierarchy.parent? slot = some parent) :
      Effect around slot id pass
        { pass with hierarchy := pass.hierarchy.modifyLayer parent fun layer =>
            { layer with frames := layer.frames.write label value } }
  | popped {pass : Pass} (hattached : pass.hierarchy.isAttached slot = true) :
      Effect around slot id pass { pass with hierarchy := pass.hierarchy.detach slot }

/-- Every call has one of the effects. -/
theorem effect_handle (around : Surroundings) (slot : Nat) (id : LayerId) (call : Call)
    (pass : Pass) : Effect around slot id pass (around.handle slot id call pass).2 := by
  cases call with
  | start machine seed =>
    simp only [Surroundings.handle]
    split
    · next hattached =>
      split
      · next definition hfound =>
        exact .started seed hattached (List.mem_of_find?_eq_some hfound)
      · exact .nothing
    · exact .nothing
  | raise event =>
    simp only [Surroundings.handle]
    split
    · next hattached =>
      split
      · next parent hparent =>
        by_cases hevent : event = ""
        · simpa [hevent] using Effect.nothing
        · simpa [hevent] using Effect.raised hattached hparent hevent
      · exact .nothing
    · exact .nothing
  | blast event =>
    by_cases hevent : event = ""
    · simpa [Surroundings.handle, hevent] using Effect.nothing
    · simpa [Surroundings.handle, hevent] using Effect.blasted hevent
  | patch command status =>
    simp only [Surroundings.handle]
    split
    · exact .notified _
    · exact .nothing
  | write label value =>
    simp only [Surroundings.handle]
    split
    · next hattached =>
      split
      · next parent hparent => exact .wrote label value hattached hparent
      · exact .nothing
    · exact .nothing
  | count tuple => exact .nothing
  | timer delay event =>
    simp only [Surroundings.handle]
    split
    · next hattached => exact .scheduled event _ hattached
    · exact .nothing
  | trace text =>
    simp only [Surroundings.handle]
    split
    · exact .notified _
    · exact .nothing
  | pop =>
    simp only [Surroundings.handle]
    split
    · next hattached => exact .popped hattached
    · exact .nothing
  | execute verb parameters => exact .notified _
  | log line => exact .notified _

/-- What every effect keeps holds in every state of a walk. -/
theorem forall_mem_states_of_effect {α : Type} {holds : Pass → Prop}
    (heffect : ∀ {pass next}, Effect around slot id pass next → holds pass → holds next)
    (program : Program α) (hpass : holds pass) :
    ∀ mid ∈ program.states (around.handle slot id) pass, holds mid :=
  Program.forall_mem_states
    (fun call pass hpass => heffect (effect_handle around slot id call pass) hpass) program hpass

/-- What every effect keeps holds after a walk. -/
theorem run_of_effect {α : Type} {holds : Pass → Prop}
    (heffect : ∀ {pass next}, Effect around slot id pass next → holds pass → holds next)
    (program : Program α) (hpass : holds pass) :
    holds (program.run (around.handle slot id) pass).2 :=
  forall_mem_states_of_effect heffect program hpass _ (Program.run_mem_states _ program pass)

/-! ### What all effects have in common -/

/-- No effect moves the work list on. -/
theorem Effect.progress_eq (heffect : Effect around slot id pass next) :
    next.progress = pass.progress := by
  cases heffect with
  | blasted => rw [enqueueAll_eq]
  | _ => rfl

/-- Work is only added, and at the end. -/
theorem Effect.queue_grows (heffect : Effect around slot id pass next) :
    pass.queue.toList <+: next.queue.toList := by
  cases heffect with
  | started => simp [startLayer_eq]
  | raised => simp [enqueue]
  | blasted => simp [enqueueAll_eq]
  | _ => exact List.prefix_rfl

/-- Work keeps its place while more is added at the end. -/
theorem getElem?_queue_eq {n : Nat} (hgrows : pass.queue.toList <+: next.queue.toList)
    (hn : n < pass.queue.size) : next.queue[n]? = pass.queue[n]? := by
  obtain ⟨added, hadded⟩ := hgrows
  rw [← Array.getElem?_toList, ← Array.getElem?_toList, ← hadded,
    List.getElem?_append_left (by rwa [Array.length_toList])]

/-- No effect takes a record away. -/
theorem Effect.size_le (heffect : Effect around slot id pass next) :
    pass.hierarchy.size ≤ next.hierarchy.size := by
  cases heffect with
  | started => simp [startLayer_eq]
  | blasted => simp [enqueueAll_eq]
  | wrote => simp
  | popped => simp
  | _ => exact Nat.le_refl _

/-- No effect changes the parent of a layer that is there. -/
theorem Effect.parent?_eq (heffect : Effect around slot id pass next) {other : Nat}
    (hother : other < pass.hierarchy.size) :
    next.hierarchy.parent? other = pass.hierarchy.parent? other := by
  cases heffect with
  | started => simp [startLayer_eq, Hierarchy.parent?_attach, Nat.ne_of_lt hother]
  | blasted => rw [enqueueAll_eq]
  | wrote => simp
  | popped => simp
  | _ => rfl

end LayeredMachines.Pass
