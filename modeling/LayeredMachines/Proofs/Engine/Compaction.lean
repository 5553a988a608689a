import LayeredMachines.Proofs.Engine.Arena
import LayeredMachines.Proofs.Pass.Embedding

/-!
# Compaction cannot be observed

An engine that is compacted after every pass and one that never is drift apart in their slots.
The records of the one stay embedded in those of the other, and nothing that is seen from outside
depends on slots. So the two show the same to their resolvers, return from the same passes, and
look the same after each of them.
-/

namespace LayeredMachines

/-- Embedded layers look alike. -/
theorem Hierarchy.Embeds.snapshot?_place {place : Nat → Nat} {small large : Hierarchy}
    (h : small.Embeds place large) (slot : Nat) :
    large.snapshot? (place slot) = small.snapshot? slot := by
  simp only [snapshot?, h.layer?_place, h.parent?_place, Option.bind_map, Function.comp_def]

namespace Engine

variable {small large : Engine} {items : Nat}

/-- The engines agree in all but the slots of their layers. -/
structure Embeds (place : Nat → Nat) (small large : Engine) : Prop where
  config_eq : large.config = small.config
  resolver_eq : large.resolver = small.resolver
  transcript_eq : large.transcript = small.transcript
  catalog_eq : large.catalog = small.catalog
  hierarchy : small.hierarchy.Embeds place large.hierarchy
  timers_eq : large.timers = small.timers
  nextLayer_eq : large.nextLayer = small.nextLayer

/-- A settled engine agrees with one that may hold more records. -/
structure Mirrors (small large : Engine) : Prop where
  settled : small.Settled
  embeds : ∃ place, small.Embeds place large

/-- What is seen of an engine from outside. -/
structure View where
  /-- All that the resolver was shown. -/
  transcript : Array Notice
  layers : List Snapshot
  size : Nat
  timers : TimerQueue

/-- What is seen of the engine from outside. -/
def view (engine : Engine) : View :=
  ⟨engine.transcript, engine.layers, engine.size, engine.timers⟩

/-- The engines after each of some actions, whose passes have at most `items` work items each and
are followed by `finish`. -/
def play? (finish : Engine → Engine) (items : Nat) (engine : Engine) :
    List Action → Option (List Engine)
  | [] => some []
  | action :: rest =>
    (engine.act? finish items action).bind fun next =>
      (next.play? finish items rest).map (next :: ·)

/-! ### What is seen from outside -/

/-- Engines that agree in all but the slots look alike. -/
theorem Embeds.view_eq {place : Nat → Nat} (h : Embeds place small large) :
    large.view = small.view := by
  have hlayers : large.layers = small.layers := by
    simp only [layers, h.hierarchy.attachedSlots_eq, List.filterMap_map, Function.comp_def,
      h.hierarchy.snapshot?_place]
  have hsize : large.size = small.size := h.hierarchy.attachedCount_eq
  rw [view, view, h.transcript_eq, hlayers, hsize, h.timers_eq]

/-- A compaction is not seen from outside. -/
theorem view_compact {engine : Engine} (hordered : engine.hierarchy.Ordered) :
    engine.compact.view = engine.view := by
  have hembeds : Embeds engine.hierarchy.origin engine.compact engine :=
    ⟨rfl, rfl, rfl, rfl, hordered.embeds_compact, rfl, rfl⟩
  exact hembeds.view_eq.symm

/-! ### Actions -/

/-- Corresponding engines begin corresponding passes. -/
theorem Embeds.beginPass {place : Nat → Nat} (h : Embeds place small large) (event : String)
    (target : Option LayerId) :
    Pass.Embeds place (small.beginPass event target) (large.beginPass event target) := by
  have htargets : large.targetSlots target = (small.targetSlots target).map place := by
    cases target with
    | none => exact h.hierarchy.attachedSlots_eq
    | some id => simp only [targetSlots, h.hierarchy.find?_eq, Option.toList_map]
  have hbegin : Pass.Embeds place
      ⟨small.hierarchy, small.timers, small.transcript, small.nextLayer, #[], 0⟩
      ⟨large.hierarchy, large.timers, large.transcript, large.nextLayer, #[], 0⟩ :=
    ⟨h.hierarchy, h.timers_eq, h.transcript_eq, h.nextLayer_eq, Array.map_empty.symm, rfl⟩
  rw [Engine.beginPass, Engine.beginPass, htargets]
  exact (hbegin.notify _).enqueueAll event _

/-- Either both engines deliver an event, or none of them does. -/
theorem Embeds.deliver? {place : Nat → Nat} (h : Embeds place small large) (items : Nat)
    (event : String) (target : Option LayerId) (now : Int) :
    Option.Rel (Embeds place) (small.deliver? items event target now)
      (large.deliver? items event target now) := by
  have haround : large.surroundings now = small.surroundings now := by
    rw [surroundings, surroundings, h.catalog_eq, h.resolver_eq, h.config_eq]
  unfold Engine.deliver?
  split
  · exact .some h
  · have hdrain := (h.beginPass event target).drain? (small.surroundings now) items
    rw [haround]
    rcases rel_cases hdrain with ⟨hsmall, hlarge⟩ | ⟨last, _, hsmall, hlarge, hlast⟩
    · rw [hsmall, hlarge]
      exact .none
    · rw [hsmall, hlarge]
      exact .some ⟨h.config_eq, h.resolver_eq, hlast.transcript_eq, h.catalog_eq, hlast.hierarchy,
        hlast.timers_eq, hlast.nextLayer_eq⟩

/-- Starting afresh makes the engines agree. -/
theorem Embeds.restart {place : Nat → Nat} (h : Embeds place small large) (library : Library) :
    Embeds id (small.restart library) (large.restart library) := by
  unfold Engine.restart
  split
  · simp only [h.nextLayer_eq, h.config_eq]
    exact ⟨rfl, h.resolver_eq, h.transcript_eq, rfl, .refl _, rfl, rfl⟩
  · exact ⟨h.config_eq, h.resolver_eq, h.transcript_eq, rfl, .refl _, rfl, h.nextLayer_eq⟩

/-- The compaction after a delivery leaves the engines mirrored. -/
theorem Mirrors.deliver? (h : Mirrors small large) (items : Nat) (event : String)
    (target : Option LayerId) (now : Int) :
    Option.Rel Mirrors ((small.deliver? items event target now).map compact)
      ((large.deliver? items event target now).map id) := by
  obtain ⟨hsettled, place, hembeds⟩ := h
  rcases rel_cases (hembeds.deliver? items event target now) with
    ⟨hsmall, hlarge⟩ | ⟨next, _, hsmall, hlarge, hnext⟩
  · rw [hsmall, hlarge]
    exact .none
  · have hact : small.act? compact items (.handle event target now) = some next.compact := by
      rw [act?, hsmall, Option.map_some]
    have hcompact := (hsettled.of_deliver? hsmall).1.embeds_compact
    rw [hsmall, hlarge]
    exact .some ⟨hsettled.act? hact, _, hnext.config_eq, hnext.resolver_eq, hnext.transcript_eq,
      hnext.catalog_eq, hcompact.trans hnext.hierarchy, hnext.timers_eq, hnext.nextLayer_eq⟩

/-- Mirrored engines that lose the same timers stay mirrored. -/
theorem Mirrors.setTimers (h : Mirrors small large) (timers : TimerQueue) :
    Mirrors { small with timers := timers } { large with timers := timers } := by
  obtain ⟨hsettled, place, hembeds⟩ := h
  exact ⟨hsettled.of_hierarchy_eq rfl, place, hembeds.config_eq, hembeds.resolver_eq,
    hembeds.transcript_eq, hembeds.catalog_eq, hembeds.hierarchy, rfl, hembeds.nextLayer_eq⟩

/-- Either both engines act, one compacting afterwards and the other not, or none of them does. -/
theorem Mirrors.act? (h : Mirrors small large) (items : Nat) (action : Action) :
    Option.Rel Mirrors (small.act? compact items action) (large.act? id items action) := by
  obtain ⟨place, hembeds⟩ := h.embeds
  cases action with
  | restart library => exact .some ⟨settled_restart small library, id, hembeds.restart library⟩
  | setResolver resolver =>
    exact .some ⟨h.settled.of_hierarchy_eq rfl, place, hembeds.config_eq, rfl, rfl,
      hembeds.catalog_eq, hembeds.hierarchy, hembeds.timers_eq, hembeds.nextLayer_eq⟩
  | handle event target now => exact h.deliver? items event target now
  | fire now =>
    simp only [Engine.act?, hembeds.timers_eq]
    split
    · next timer rest _ => exact (h.setTimers rest).deliver? items timer.event _ now
    · exact .some h
  | expire =>
    simp only [Engine.act?, hembeds.timers_eq]
    split
    · next rest _ => exact .some (h.setTimers rest)
    · exact .some h

/-- Mirrored engines look alike after each of any actions. -/
theorem Mirrors.play? (h : Mirrors small large) (items : Nat) (actions : List Action) :
    (small.play? compact items actions).map (·.map view) =
      (large.play? id items actions).map (·.map view) := by
  have hcons (engine : Engine) (later : Option (List Engine)) :
      (later.map (engine :: ·)).map (·.map view) =
        (later.map (·.map view)).map (engine.view :: ·) := by
    cases later <;> rfl
  induction actions generalizing small large with
  | nil => rfl
  | cons action rest ih =>
    unfold Engine.play?
    rcases rel_cases (h.act? items action) with
      ⟨hsmall, hlarge⟩ | ⟨next, other, hsmall, hlarge, hnext⟩
    · rw [hsmall, hlarge]
      rfl
    · obtain ⟨place, hembeds⟩ := hnext.embeds
      rw [hsmall, hlarge, Option.bind_some, Option.bind_some, hcons, hcons, hembeds.view_eq,
        ih hnext]

/-- An engine that is compacted after every pass and one that never is show the same to their
resolvers and look the same after each of any actions. They also return from the same passes. -/
theorem compaction_invisible (config : Config) (library : Library) (resolver : Resolver)
    (items : Nat) (actions : List Action) :
    let first := ((create config).setResolver resolver).restart library
    (first.play? compact items actions).map (·.map view) =
      (first.play? id items actions).map (·.map view) := by
  intro first
  have hsettled : first.Settled := settled_restart _ library
  exact Mirrors.play? ⟨hsettled, id, rfl, rfl, rfl, rfl, .refl _, rfl, rfl⟩ items actions

/-- The two differ in their records: the record of a finished child is dropped only by the
compaction. -/
example :
    let actions : List Action := [.handle "go" none 0, .handle "finish" none 0]
    (sample.play? compact 10 actions).map (·.map (·.hierarchy.size)) = some [2, 1] ∧
      (sample.play? id 10 actions).map (·.map (·.hierarchy.size)) = some [2, 2] := by
  decide +kernel

end Engine

end LayeredMachines
