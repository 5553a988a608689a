import LayeredMachines.Proofs.Engine.Arena
import LayeredMachines.Proofs.Pass.Isolation

/-!
# Isolation of layers

Whatever axions a layer runs while it follows an event, the other layers of a reachable engine
notice no more of it than variables in the innermost frame of the layer above, new layers below
it, and work that is queued for the layers next to it in the hierarchy.
-/

namespace LayeredMachines.Engine

variable {engine : Engine} {event : String} {target : Option LayerId} {now : Int} {pass : Pass}
  {item : WorkItem}

/-- The walk for a work item changes the records of no other layers, apart from the innermost frame
of the layer above. New records come after the old ones and are below the layer that walks, timers
are added for this layer only, and work is added at the end of the list: for the layer above, for a
layer that was attached below when the work was added, or for a layer that the walk has started. -/
theorem walks_are_isolated (hengine : engine.Reachable) (hevent : event ≠ "")
    (hleads : Pass.Leads (engine.surroundings now) (engine.beginPass event target) pass)
    (hitem : pass.next? = some item) :
    ∃ layer next, pass.hierarchy.layer? item.slot = some layer ∧
      pass.step? (engine.surroundings now) = some next ∧
      pass.hierarchy.KeepsOthers item.slot next.hierarchy ∧
      pass.timers.AddsFor layer.id next.timers ∧
      pass.queue.toList <+: next.queue.toList ∧
      ∀ n sent, pass.queue.size ≤ n → next.queue[n]? = some sent →
        ∃ mid call, (mid, call) ∈ pass.walkCalls (engine.surroundings now) ∧ mid.queue.size ≤ n ∧
          ((engine.surroundings now).handle item.slot layer.id call mid).2.queue[n]? = some sent ∧
          (pass.hierarchy.parent? item.slot = some sent.slot ∨
            mid.hierarchy.isAttached sent.slot = true ∧
              mid.hierarchy.IsBelow sent.slot item.slot ∨
            pass.hierarchy.size ≤ sent.slot ∧ sent.slot < next.hierarchy.size) := by
  have hsettled := hengine.settled
  have hresting : pass.Resting :=
    (resting_beginPass hsettled.ordered hsettled.isFull hevent target).leads hleads
  obtain ⟨layer, hlayer⟩ := hresting.exists_layer hitem
  have hstep : pass.step? (engine.surroundings now) =
      some (pass.walked (engine.surroundings now) item layer) :=
    Pass.step?_of_layer? hitem hlayer
  obtain ⟨hothers, htimers⟩ := hresting.keepsOthers_walked hitem layer
  refine ⟨layer, _, hlayer, hstep, hothers, htimers, Pass.queue_grows_walked pass item layer, ?_⟩
  intro n sent hold hsent
  exact hresting.sent_cases hitem hlayer hold hsent

/-- When the child of the sample finishes, it is detached and sends word to the root, whose record
stays as it is. -/
theorem walks_are_isolated_of_sample :
    ∃ (engine : Engine) (pass next : Pass), engine.Reachable ∧ pass.next? = some ⟨"finish", 1⟩ ∧
      pass.step? (engine.surroundings 0) = some next ∧
      next.hierarchy.isAttached 1 = false ∧ next.queue.size = pass.queue.size + 1 ∧
      pass.hierarchy.KeepsOthers 1 next.hierarchy := by
  have hgo : (sample.act? compact 10 (.handle "go" none 0)).any fun engine =>
      ((engine.beginPass "finish" none).step? (engine.surroundings 0)).any fun pass =>
        pass.next? == some ⟨"finish", 1⟩ &&
          (pass.step? (engine.surroundings 0)).any fun next =>
            !next.hierarchy.isAttached 1 && next.queue.size == pass.queue.size + 1 := by
    decide +kernel
  obtain ⟨engine, hact, hfinish⟩ := (Option.any_eq_true ..).mp hgo
  obtain ⟨pass, hpass, hwalk⟩ := (Option.any_eq_true ..).mp hfinish
  simp only [Bool.and_eq_true, beq_iff_eq] at hwalk
  obtain ⟨hitem, hnext⟩ := hwalk
  obtain ⟨next, hstep, hend⟩ := (Option.any_eq_true ..).mp hnext
  simp only [Bool.and_eq_true, Bool.not_eq_true', beq_iff_eq] at hend
  have hengine : engine.Reachable := .act reachable_sample hact
  obtain ⟨layer, last, hlayer, hlast, hothers, htimers, hqueue, hsent⟩ :=
    walks_are_isolated hengine (by decide) (.single hpass) hitem
  obtain rfl := Option.some.inj (hlast.symm.trans hstep)
  exact ⟨engine, pass, last, hengine, hitem, hstep, hend.1, hend.2, hothers⟩

end LayeredMachines.Engine
