import LayeredMachines.Proofs.Engine.Catalog
import LayeredMachines.Proofs.Engine.Renaming
import LayeredMachines.Proofs.Layer.Local
import LayeredMachines.Proofs.Pass.Broadcast

/-!
# Broadcasts over local machines

If no machine of an engine reaches beyond its layer, an event that is sent to all layers is followed
by each of them as if it were alone. What is seen afterwards is what was seen before, with each
layer changed by its own walk, and without those below another one that have finished.
-/

namespace LayeredMachines

/-- A machine that counts the event "tick" in a variable and is finished on the event "end". -/
def Machine.tally : Machine :=
  ⟨"default",
    [(State.named "start").on "tick" "odd",
      (((State.named "odd").onEntry "inc:label=ticks,value=1").on "tick" "even").on "end" "final",
      (((State.named "even").onEntry "inc:label=ticks,value=1").on "tick" "odd").on "end" "final",
      State.named "final"]⟩

/-- A layer below another one that rests in a final state. -/
def Snapshot.isFinished (seen : Snapshot) : Bool :=
  seen.parent.isSome && caselessEq seen.state finalLabel

/-- A layer that follows an event alone ends up the same at whatever time. -/
theorem Layer.followed_timeless {σ : Type} {layer : Layer} (hlocal : layer.machine.IsLocal)
    (handler : Handler σ) (world : σ) (event : String) (now later : Instant) (limit : Nat) :
    (layer.followed handler world event now limit).Renames .timeless
      (layer.followed handler world event later limit) := by
  have htime : Renaming.timeless.instant now later := trivial
  have hnow := followed_writes hlocal handler world event now limit
  have hlater := followed_writes hlocal handler world event later limit
  exact hnow.rel hlater ((Layer.Renames.timeless layer).follow event htime limit)

/-- Corresponding layers have finished together. -/
theorem Snapshot.Renames.isFinished_eq {ρ : Renaming} {seen other : Snapshot}
    (h : seen.Renames ρ other) : other.isFinished = seen.isFinished := by
  have hparent : other.parent.isSome = seen.parent.isSome := by
    rcases rel_cases h.parent with ⟨hnone, hother⟩ | ⟨_, _, hsome, hother, _⟩
    · rw [hnone, hother]
    · rw [hsome, hother]
      rfl
  rw [isFinished, isFinished, hparent, h.state_eq]

namespace Hierarchy

variable {change : Layer → Layer} {before after : Hierarchy} {slot : Nat} {layer : Layer}

/-- The attached layers as they would be seen if each of them had changed by itself. -/
def layersAfter (hierarchy : Hierarchy) (change : Layer → Layer) : List Snapshot :=
  hierarchy.attachedSlots.filterMap fun slot =>
    (hierarchy.layer? slot).map fun layer =>
      Snapshot.ofLayer (change layer) (hierarchy.parentId? slot)

/-- After all attached layers have changed, those are attached that need not leave. -/
theorem Changes.attachedSlots_eq (h : Changes change before.attachedSlots before after) :
    after.attachedSlots = before.attachedSlots.filter (!before.leavesBy change ·) := by
  rw [attachedSlots, attachedSlots, h.size_eq, List.filter_filter]
  refine List.filter_congr fun slot _ => ?_
  rw [h.isAttached_eq]
  simp only [mem_attachedSlots]
  cases before.isAttached slot <;> cases before.leavesBy change slot <;> rfl

/-- No parent is seen to change, as layers keep their identities. -/
theorem Changes.parentId?_eq {done : List Nat} (h : Changes change done before after)
    (hid : ∀ layer, (change layer).id = layer.id) (slot : Nat) :
    after.parentId? slot = before.parentId? slot := by
  rw [parentId?, parentId?, h.parent?_eq]
  cases before.parent? slot with
  | none => rfl
  | some parent =>
    rw [Option.bind_some, Option.bind_some, h.layer?_eq]
    split
    · cases before.layer? parent with
      | none => rfl
      | some above => simp only [Option.map_some, hid]
    · rfl

/-- An attached layer is seen as finished once it has changed if it is one that must leave. -/
theorem Ordered.isFinished_ofLayer (hordered : before.Ordered) (hfull : before.IsFull)
    (hlayer : before.layer? slot = some layer) :
    (Snapshot.ofLayer (change layer) (before.parentId? slot)).isFinished =
      before.leavesBy change slot := by
  have hparent : (before.parentId? slot).isSome = (before.parent? slot).isSome := by
    cases hfound : before.parent? slot with
    | none => simp [parentId?, hfound]
    | some parent =>
      have hlt := hordered.parent_lt hfound
      have hslot := lt_size_of_layer? hlayer
      obtain ⟨above, habove⟩ := Option.isSome_iff_exists.mp (hfull parent (by omega))
      simp [parentId?, hfound, habove]
  simp only [Snapshot.isFinished, Snapshot.ofLayer, leavesBy, hparent, hlayer, Option.any_some,
    Layer.isFinal_eq]

/-- What is seen after all attached layers have changed. -/
theorem Changes.layers_eq (h : Changes change before.attachedSlots before after)
    (hordered : before.Ordered) (hfull : before.IsFull)
    (hid : ∀ layer, (change layer).id = layer.id) :
    after.attachedSlots.filterMap after.snapshot? =
      (before.layersAfter change).filter (!·.isFinished) := by
  rw [h.attachedSlots_eq, layersAfter, List.filterMap_filter, List.filter_filterMap]
  refine List.filterMap_congr fun slot hslot => ?_
  have hlt := lt_size_of_isAttached (mem_attachedSlots.mp hslot)
  obtain ⟨layer, hlayer⟩ := Option.isSome_iff_exists.mp (hfull slot hlt)
  have hseen : after.snapshot? slot =
      some (Snapshot.ofLayer (change layer) (before.parentId? slot)) := by
    rw [← h.parentId?_eq hid, snapshot?, h.layer?_eq, if_pos hslot, hlayer]
    rfl
  rw [hseen, hlayer, Option.map_some, Option.filter_some,
    hordered.isFinished_ofLayer hfull hlayer]

end Hierarchy

namespace Engine

variable {engine : Engine} {event : String}

/-- No machine of the engine reaches beyond its layers. -/
def IsLocal (engine : Engine) : Prop :=
  ∀ machine ∈ engine.catalog, machine.IsLocal

instance (engine : Engine) : Decidable engine.IsLocal :=
  inferInstanceAs (Decidable (∀ machine ∈ engine.catalog, _))

/-- No attached layer reaches beyond itself. -/
def RunsLocally (engine : Engine) : Prop :=
  ∀ slot layer, engine.hierarchy.isAttached slot = true →
    engine.hierarchy.layer? slot = some layer → layer.machine.IsLocal

/-- An event for all layers of an engine is a map: the pass that ends in `last` and the engine
`next` after it come about by letting each layer follow the event alone. -/
structure Maps (engine : Engine) (event : String) (now : Int) (last : Pass) (next : Engine) :
    Prop where
  /-- Each attached layer walks once, and no other work is done. -/
  walks : Pass.Walks (engine.surroundings now) (engine.beginPass event none)
    (engine.hierarchy.attachedSlots.map (WorkItem.mk event)) last
  handle?_eq : ∀ items,
    engine.handle? items event none now = if engine.size ≤ items then some next else none
  /-- It does not matter what the layers would be answered. -/
  layers_eq : ∀ {σ : Type} (handler : Handler σ) (world : σ),
    next.layers = (engine.hierarchy.layersAfter (Layer.followed handler world event
      (Instant.ofMillis now) engine.config.maxFollowOn)).filter (!·.isFinished)
  /-- At another time nothing but the times is different. -/
  layers_timeless : ∀ {σ : Type} (handler : Handler σ) (world : σ) (later : Instant),
    List.Forall₂ (Snapshot.Renames .timeless) next.layers
      ((engine.hierarchy.layersAfter (Layer.followed handler world event later
        engine.config.maxFollowOn)).filter (!·.isFinished))
  timers_eq : next.timers = engine.timers
  /-- The resolver is shown lines only. -/
  transcript : ∃ lines : List Diagnostic,
    next.transcript = engine.transcript ++ (lines.map Notice.line).toArray

/-- The layers of a reachable engine of local machines do not reach beyond themselves. -/
theorem Reachable.runsLocally (hengine : engine.Reachable) (hlocal : engine.IsLocal) :
    engine.RunsLocally :=
  fun slot layer _ hlayer =>
    hlocal layer.machine (hengine.keeps_machine.allLayers slot layer hlayer)

/-- An engine whose layers do not reach beyond themselves walks each of them once when it sends an
event to all of them, and does nothing else. -/
theorem RunsLocally.exists_walks (hlocal : engine.RunsLocally) (hfull : engine.hierarchy.IsFull)
    {σ : Type} (handler : Handler σ) (world : σ) (event : String) (now : Int) :
    ∃ last, Pass.Walks (engine.surroundings now) (engine.beginPass event none)
        (engine.hierarchy.attachedSlots.map (WorkItem.mk event)) last ∧
      Pass.Changes (Layer.followed handler world event (Instant.ofMillis now)
          engine.config.maxFollowOn)
        engine.hierarchy.attachedSlots (engine.beginPass event none) last := by
  have hbegin : Pass.Changes (Layer.followed handler world event (Instant.ofMillis now)
      engine.config.maxFollowOn) [] (engine.beginPass event none) (engine.beginPass event none) :=
    ⟨.refl _ _, rfl, rfl, [], by simp⟩
  refine hbegin.exists_walks engine.hierarchy.attachedSlots ?_
    (engine.hierarchy.pairwise_attachedSlots.imp fun hlt => Nat.ne_of_lt hlt)
    (fun _ _ => List.not_mem_nil) fun slot hslot => ?_
  · simp [targetSlots]
  · have hattached := Hierarchy.mem_attachedSlots.mp hslot
    obtain ⟨layer, hlayer⟩ := Option.isSome_iff_exists.mp
      (hfull slot (Hierarchy.lt_size_of_isAttached hattached))
    rw [hierarchy_beginPass]
    exact ⟨hattached, layer, hlayer,
      Layer.followed_writes (hlocal slot layer hattached hlayer) handler world event _ _⟩

/-- Layers that do not reach beyond themselves end up the same at whatever time they follow an
event. -/
theorem RunsLocally.layersAfter_timeless (hlocal : engine.RunsLocally) {σ : Type}
    (handler : Handler σ) (world : σ) (event : String) (now later : Instant) (limit : Nat) :
    List.Forall₂ (Snapshot.Renames .timeless)
      ((engine.hierarchy.layersAfter
        (Layer.followed handler world event now limit)).filter (!·.isFinished))
      ((engine.hierarchy.layersAfter
        (Layer.followed handler world event later limit)).filter (!·.isFinished)) := by
  have hslots : List.Forall₂ (fun slot other => slot = other ∧
      engine.hierarchy.isAttached slot = true)
      engine.hierarchy.attachedSlots engine.hierarchy.attachedSlots :=
    List.forall₂_same.mpr fun slot hslot => ⟨rfl, Hierarchy.mem_attachedSlots.mp hslot⟩
  refine List.rel_filter ?_ (List.rel_filterMap ?_ hslots)
  · intro seen other hseen
    simp only [hseen.isFinished_eq]
  rintro slot _ ⟨rfl, hattached⟩
  dsimp only
  have hparent : Option.Rel Renaming.timeless.id (engine.hierarchy.parentId? slot)
      (engine.hierarchy.parentId? slot) := by
    cases engine.hierarchy.parentId? slot with
    | none => exact .none
    | some parent => exact .some (Renaming.timeless_id parent)
  cases hlayer : engine.hierarchy.layer? slot with
  | none => exact .none
  | some layer =>
    have hwalk := Layer.followed_timeless (hlocal slot layer hattached hlayer) handler world event
      now later limit
    exact .some (hwalk.ofLayer hparent)

/-- An event that is sent to all layers of a local engine is a map. -/
theorem RunsLocally.exists_maps (hlocal : engine.RunsLocally) (hengine : engine.Settled)
    (hevent : event ≠ "") (now : Int) : ∃ last next, engine.Maps event now last next := by
  obtain ⟨last, hwalks, hchanges⟩ :=
    hlocal.exists_walks hengine.isFull ((engine.surroundings now).handle 0 ⟨0⟩)
      (engine.beginPass event none) event now
  have hsize : (engine.hierarchy.attachedSlots.map (WorkItem.mk event)).length = engine.size :=
    List.length_map _
  have hreturns := hwalks.drain? engine.size
  rw [hsize, if_pos (Nat.le_refl engine.size)] at hreturns
  have hordered : (engine.endPass last).hierarchy.Ordered :=
    (hengine.of_drain? hevent hreturns).ordered
  have hnext : (engine.endPass last).compact.view = (engine.endPass last).view :=
    view_compact hordered
  have hlayers {σ : Type} (handler : Handler σ) (world : σ) :
      (engine.endPass last).compact.layers = (engine.hierarchy.layersAfter (Layer.followed handler
        world event (Instant.ofMillis now) engine.config.maxFollowOn)).filter (!·.isFinished) := by
    obtain ⟨other, hother, hafter⟩ := hlocal.exists_walks hengine.isFull handler world event now
    have hsame := hother.drain? engine.size
    rw [hsize, if_pos (Nat.le_refl engine.size), hreturns] at hsame
    obtain rfl := Option.some.inj hsame
    have hhierarchy := hafter.hierarchy
    rw [hierarchy_beginPass] at hhierarchy
    exact (congrArg View.layers hnext).trans (hhierarchy.layers_eq hengine.ordered hengine.isFull
      (Layer.id_followed handler world event _ _))
  refine ⟨last, (engine.endPass last).compact, hwalks, fun items => ?_, hlayers,
    fun handler world later => ?_, ?_, ?_⟩
  · have hempty : event.isEmpty = false := by simpa using hevent
    simp only [handle?, deliver?, hempty, Bool.false_eq_true, if_false, hwalks.drain?, hsize]
    split <;> rfl
  · rw [hlayers handler world]
    exact hlocal.layersAfter_timeless handler world event _ later _
  · refine hchanges.timers_eq.trans ?_
    simp [Engine.beginPass, Pass.enqueueAll_eq, Pass.notify]
  · obtain ⟨lines, hlines⟩ := hchanges.transcript
    refine ⟨.handling event :: lines, hlines.trans ?_⟩
    simp [Engine.beginPass, Pass.enqueueAll_eq, Pass.notify]

/-- An event that is sent to all layers is a map, if the engine can only start machines none of
whose axions reaches beyond its layer: each attached layer walks once, and what is seen afterwards
is what was seen before, in the same order, with each layer as it is when it has followed the event
alone, and without those below another one that rest in a final state then. No timer is registered,
and the resolver is shown lines only. The same is so in every tree of records that an engine may
have between two passes, whatever machines it can start, if those of its attached layers are local.
-/
theorem local_broadcast_is_map {event : String} (hevent : event ≠ "") (now : Int) :
    (∀ engine : Engine, engine.Reachable → engine.IsLocal →
      ∃ last next, engine.Maps event now last next) ∧
    ∀ engine : Engine, engine.Settled → engine.RunsLocally →
      ∃ last next, engine.Maps event now last next :=
  ⟨fun _ hengine hlocal => (hengine.runsLocally hlocal).exists_maps hengine.settled hevent now,
    fun _ hengine hlocal => hlocal.exists_maps hengine hevent now⟩

/-- The engine that runs the tally from its beginning. -/
def tallying : Engine :=
  (create Config.default).restart ⟨[Machine.tally]⟩

/-- A tally that has counted one event below one that has counted none. -/
def tallies : Engine :=
  let root := Layer.create ⟨0⟩ Machine.tally 32
  let child := { Layer.create ⟨1⟩ Machine.tally 32 with current := 1 }
  { tallying with
    hierarchy := (Hierarchy.empty.attach none root).attach (some 0) child, nextLayer := 2 }

theorem settled_tallies : tallies.Settled where
  ordered := (Hierarchy.ordered_root _).attach (by decide) _
  isFull := by
    unfold Hierarchy.IsFull
    decide +kernel
  isCompact := by
    unfold Hierarchy.IsCompact
    decide +kernel

/-- A tally counts an event. Of two tallies the lower one is finished on the event "end", and
leaves, while the upper one does not know it. -/
theorem local_broadcast_is_map_of_tally :
    (∃ last next, tallying.Maps "tick" 0 last next ∧
      next.layers.map (fun seen => (seen.id, seen.state, seen.binding? "ticks")) =
        [(⟨0⟩, "odd", some "1")]) ∧
    ∃ last next, tallies.Maps "end" 0 last next ∧
      tallies.layers.map (fun seen => (seen.id, seen.state)) = [(⟨0⟩, "start"), (⟨1⟩, "odd")] ∧
      next.layers.map (fun seen => (seen.id, seen.state)) = [(⟨0⟩, "start")] := by
  have htick : (tallying.handle? 1 "tick" none 0).any fun next =>
      next.layers.map (fun seen => (seen.id, seen.state, seen.binding? "ticks")) ==
        [(⟨0⟩, "odd", some "1")] := by
    decide +kernel
  have hend : (tallies.handle? 2 "end" none 0).any fun next =>
      next.layers.map (fun seen => (seen.id, seen.state)) == [(⟨0⟩, "start")] := by
    decide +kernel
  have hlocal : tallies.RunsLocally := by
    have htally : Machine.tally.IsLocal := by decide +kernel
    have hnone := Hierarchy.allLayers_empty fun layer => layer.machine.IsLocal
    have hall : tallies.hierarchy.AllLayers fun layer => layer.machine.IsLocal :=
      (hnone.attach none htally).attach (some 0) htally
    exact fun slot layer _ hlayer => hall slot layer hlayer
  obtain ⟨last, next, hmaps⟩ := (local_broadcast_is_map (by decide : "tick" ≠ "") 0).1 tallying
    (reachable_restart Config.default ⟨[Machine.tally]⟩) (by decide +kernel)
  obtain ⟨final, ended, hends⟩ := (local_broadcast_is_map (by decide : "end" ≠ "") 0).2 tallies
    settled_tallies hlocal
  rw [hmaps.handle?_eq, if_pos (by decide +kernel), Option.any_some, beq_iff_eq] at htick
  rw [hends.handle?_eq, if_pos (by decide +kernel), Option.any_some, beq_iff_eq] at hend
  exact ⟨⟨last, next, hmaps, htick⟩, final, ended, hends, by decide +kernel, hend⟩

end Engine

end LayeredMachines
