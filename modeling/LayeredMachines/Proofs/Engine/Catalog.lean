import LayeredMachines.Proofs.Engine.Targets
import LayeredMachines.Proofs.Machine.Axions

/-!
# The machines of a reachable engine

All layers of an engine run machines that it could start now: they are dropped together with the
machines that they were started from. What all machines of an engine avoid, all its layers avoid.
-/

namespace LayeredMachines.Engine

variable {engine next : Engine} {items : Nat} {action : Action} {event : String}
  {target : Option LayerId} {now : Int} {pass : Pass} {slot : Nat} {layer : Layer}

/-- No axion of any machine that the engine can start has the verb. -/
def Avoids (engine : Engine) (builtin : Builtin) : Prop :=
  ∀ machine ∈ engine.catalog, machine.Avoids builtin

instance (engine : Engine) (builtin : Builtin) : Decidable (engine.Avoids builtin) :=
  inferInstanceAs (Decidable (∀ machine ∈ engine.catalog, _))

/-- An engine keeps its machines until it starts afresh. -/
theorem catalog_of_act? (haction : action.isRestart = false)
    (hact : engine.act? compact items action = some next) : next.catalog = engine.catalog := by
  rcases act?_cases hact with ⟨library, rfl, _⟩ | ⟨resolver, rfl⟩ | ⟨timers, rfl⟩ |
    ⟨timers, event, target, now, delivered, hdeliver, rfl⟩
  · simp [Action.isRestart] at haction
  · rfl
  · rfl
  · rcases deliver?_cases hdeliver with rfl | ⟨_, last, _, rfl⟩
    · rfl
    · rfl

/-- The layers of a reachable engine have machines that it could start now. -/
theorem Reachable.keeps_machine (hengine : engine.Reachable) :
    engine.Keeps fun layer => layer.machine ∈ engine.catalog := by
  induction hengine with
  | create config => exact ⟨Hierarchy.allLayers_empty _, fun machine hmachine _ => hmachine⟩
  | @act before next items action _ hact ih =>
    by_cases haction : action.isRestart = true
    · cases action with
      | restart library =>
        obtain rfl := Option.some.inj hact
        have hcatalog : (before.restart library).catalog = library.machines := by
          unfold restart
          split <;> rfl
        rw [hcatalog]
        exact keeps_restart fun machine hmachine _ => hmachine
      | _ => simp [Action.isRestart] at haction
    · rw [Bool.not_eq_true] at haction
      rw [catalog_of_act? haction hact]
      exact ih.act? (Layer.isStable_machine before.catalog) haction hact

/-- In all states of a pass the layers of a reachable engine have machines that it could start. -/
theorem Reachable.machine_mem (hengine : engine.Reachable)
    (hleads : Pass.Leads (engine.surroundings now) (engine.beginPass event target) pass)
    (hlayer : pass.hierarchy.layer? slot = some layer) : layer.machine ∈ engine.catalog :=
  hengine.keeps_machine.leads (Layer.isStable_machine engine.catalog) hleads slot layer hlayer

end LayeredMachines.Engine
