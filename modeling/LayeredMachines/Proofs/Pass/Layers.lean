import LayeredMachines.Proofs.Layer.Follow
import LayeredMachines.Proofs.Pass.Walks

/-!
# What all layers have in common

A layer changes by its own walks, and its variables by what the layers below write. A property that
neither takes away, and that every new layer has, is one of all layers at every time.
-/

namespace LayeredMachines

/-- Every layer that is in its record has a property. -/
def Hierarchy.AllLayers (holds : Layer → Prop) (hierarchy : Hierarchy) : Prop :=
  ∀ slot layer, hierarchy.layer? slot = some layer → holds layer

/-- Every layer has a property that is newly started from one of the machines. -/
def Config.StartsWith (holds : Layer → Prop) (config : Config) (catalog : List Machine) : Prop :=
  ∀ machine ∈ catalog, ∀ id, holds (Layer.create id machine config.historyLimit)

namespace Hierarchy

variable {holds : Layer → Prop} {hierarchy : Hierarchy}

theorem allLayers_empty (holds : Layer → Prop) : empty.AllLayers holds := by
  intro slot layer hlayer
  simp [layer?, empty] at hlayer

theorem AllLayers.attach (hall : hierarchy.AllLayers holds) (parent : Option Nat) {layer : Layer}
    (hlayer : holds layer) : (hierarchy.attach parent layer).AllLayers holds := by
  intro slot other hother
  rw [layer?_attach] at hother
  split at hother
  · exact Option.some.inj hother ▸ hlayer
  · exact hall slot other hother

theorem AllLayers.take (hall : hierarchy.AllLayers holds) (slot : Nat) :
    (hierarchy.take slot).AllLayers holds := by
  intro other layer hlayer
  rw [layer?_take] at hlayer
  split at hlayer
  · simp at hlayer
  · exact hall other layer hlayer

theorem AllLayers.restore (hall : hierarchy.AllLayers holds) (slot : Nat) {layer : Layer}
    (hlayer : holds layer) : (hierarchy.restore slot layer).AllLayers holds := by
  intro other found hfound
  rw [layer?_restore] at hfound
  split at hfound
  · exact Option.some.inj hfound ▸ hlayer
  · exact hall other found hfound

theorem AllLayers.modifyLayer (hall : hierarchy.AllLayers holds) (slot : Nat)
    {change : Layer → Layer} (hchange : ∀ layer, holds layer → holds (change layer)) :
    (hierarchy.modifyLayer slot change).AllLayers holds := by
  intro other layer hlayer
  rw [layer?_modifyLayer] at hlayer
  split at hlayer
  · obtain ⟨before, hbefore, rfl⟩ := Option.map_eq_some_iff.mp hlayer
    exact hchange before (hall slot before hbefore)
  · exact hall other layer hlayer

theorem AllLayers.compact (hall : hierarchy.AllLayers holds) :
    hierarchy.compact.AllLayers holds := by
  intro slot layer hlayer
  rw [layer?_compact] at hlayer
  obtain ⟨kept, _, hkept⟩ := Option.bind_eq_some_iff.mp hlayer
  exact hall kept layer hkept

end Hierarchy

namespace Pass

variable {around : Surroundings} {slot : Nat} {id : LayerId} {pass next last : Pass}
  {holds : Layer → Prop}

/-- No effect takes a stable property from a layer. -/
theorem Effect.allLayers (heffect : Effect around slot id pass next)
    (hstable : Layer.IsStable holds) (hstarts : around.config.StartsWith holds around.catalog)
    (hall : pass.hierarchy.AllLayers holds) : next.hierarchy.AllLayers holds := by
  cases heffect with
  | started seed _ hmachine =>
    rw [startLayer_eq]
    exact hall.attach _ (hstable.frames _ (hstarts _ hmachine _))
  | blasted =>
    rw [enqueueAll_eq]
    exact hall
  | wrote => exact hall.modifyLayer _ fun _ hlayer => hstable.frames _ hlayer
  | popped =>
    intro other layer hlayer
    rw [Hierarchy.layer?_detach] at hlayer
    exact hall other layer hlayer
  | _ => exact hall

/-- Processing a work item takes a stable property from no layer. -/
theorem allLayers_step (hstable : Layer.IsStable holds)
    (hstarts : around.config.StartsWith holds around.catalog)
    (hall : pass.hierarchy.AllLayers holds) (hstep : pass.step? around = some next) :
    next.hierarchy.AllLayers holds := by
  cases hitem : pass.next? with
  | none => simp [step?_eq_none.mpr hitem] at hstep
  | some item =>
    cases hlayer : pass.hierarchy.layer? item.slot with
    | none =>
      rw [step?_of_layer?_eq_none hitem hlayer] at hstep
      exact Option.some.inj hstep ▸ hall
    | some layer =>
      rw [step?_of_layer? hitem hlayer] at hstep
      obtain rfl := Option.some.inj hstep
      have hbegin : (pass.beginWalk item layer).hierarchy.AllLayers holds := hall.take item.slot
      have hothers : (pass.runWalk around item layer).2.hierarchy.AllLayers holds :=
        run_of_effect (fun heffect hbefore => heffect.allLayers hstable hstarts hbefore)
          (around.walk item layer) hbegin
      have hself : holds (pass.runWalk around item layer).1 :=
        (hstable.follow _ _ _ (hall item.slot layer hlayer)).run _ _
      exact hothers.restore item.slot hself

/-- A pass takes a stable property from no layer. -/
theorem allLayers_leads (hstable : Layer.IsStable holds)
    (hstarts : around.config.StartsWith holds around.catalog)
    (hall : pass.hierarchy.AllLayers holds) (hleads : Leads around pass last) :
    last.hierarchy.AllLayers holds := by
  induction hleads with
  | refl => exact hall
  | tail _ hstep ih => exact allLayers_step hstable hstarts ih hstep

end Pass

end LayeredMachines
