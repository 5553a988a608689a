import LayeredMachines.Proofs.Engine.Runs
import LayeredMachines.Proofs.Pass.Layers

/-!
# What all layers of an engine have in common

An engine keeps its machines until it starts afresh. A property that every layer has when it is
newly started from one of them, and that no walk takes away, is one of all its layers.
-/

namespace LayeredMachines.Engine

variable {engine next last : Engine} {library : Library} {items : Nat} {action : Action} {holds : Layer → Prop}

/-- All layers have a property, and so has every layer when it is newly started. -/
structure Keeps (holds : Layer → Prop) (engine : Engine) : Prop where
  allLayers : engine.hierarchy.AllLayers holds
  startsWith : engine.config.StartsWith holds engine.catalog

/-- An engine that starts afresh has no layer but a new one. -/
theorem keeps_restart (hstarts : engine.config.StartsWith holds library.machines) :
    (engine.restart library).Keeps holds := by
  unfold restart
  split
  · next machine hmachine =>
    have hroot := hstarts machine (List.mem_of_find?_eq_some hmachine) ⟨engine.nextLayer⟩
    exact ⟨(Hierarchy.allLayers_empty holds).attach none hroot, hstarts⟩
  · exact ⟨Hierarchy.allLayers_empty holds, hstarts⟩

/-- No pass takes a stable property from a layer. -/
theorem Keeps.leads {event : String} {target : Option LayerId} {now : Int} {pass : Pass}
    (hengine : engine.Keeps holds) (hstable : Layer.IsStable holds)
    (hleads : Pass.Leads (engine.surroundings now) (engine.beginPass event target) pass) :
    pass.hierarchy.AllLayers holds := by
  refine Pass.allLayers_leads hstable hengine.startsWith ?_ hleads
  rw [hierarchy_beginPass]
  exact hengine.allLayers

/-- Delivering an event takes a stable property from no layer. -/
theorem Keeps.deliver? {event : String} {target : Option LayerId} {now : Int}
    (hengine : engine.Keeps holds) (hstable : Layer.IsStable holds)
    (hdeliver : engine.deliver? items event target now = some next) : next.Keeps holds := by
  rcases deliver?_cases hdeliver with rfl | ⟨_, last, hdrain, rfl⟩
  · exact hengine
  · exact ⟨hengine.leads hstable (Pass.leads_of_drain? hdrain).1, hengine.startsWith⟩

/-- An action that does not start the engine afresh takes a stable property from no layer. -/
theorem Keeps.act? (hengine : engine.Keeps holds) (hstable : Layer.IsStable holds)
    (haction : action.isRestart = false)
    (hact : engine.act? compact items action = some next) : next.Keeps holds := by
  rcases act?_cases hact with ⟨library, rfl, _⟩ | ⟨resolver, rfl⟩ | ⟨timers, rfl⟩ |
    ⟨timers, event, target, now, delivered, hdeliver, rfl⟩
  · simp [Action.isRestart] at haction
  · exact ⟨hengine.allLayers, hengine.startsWith⟩
  · exact ⟨hengine.allLayers, hengine.startsWith⟩
  · have hbefore : { engine with timers := timers }.Keeps holds :=
      ⟨hengine.allLayers, hengine.startsWith⟩
    have hdelivered := hbefore.deliver? hstable hdeliver
    exact ⟨hdelivered.allLayers.compact, hdelivered.startsWith⟩

/-- Whatever an engine handles, it takes a stable property from no layer. -/
theorem Keeps.continues (hengine : engine.Keeps holds) (hstable : Layer.IsStable holds)
    (hlast : engine.Continues last) : last.Keeps holds := by
  induction hlast with
  | refl => exact hengine
  | act _ haction hact ih => exact ih.act? hstable haction hact

end LayeredMachines.Engine
