import LayeredMachines.Proofs.Engine.Arena
import LayeredMachines.Proofs.Pass.WorkList

/-!
# Delivery of an event

A pass of a reachable engine that returns has delivered its event, and all events that this set
off. Each work item was walked once, in the order of the work list, and no layer was missing where
work was done or variables were written.
-/

namespace LayeredMachines.Engine

variable {engine : Engine} {items : Nat} {event : String} {target : Option LayerId} {now : Int}
  {last : Pass}

/-- Which slots an event is to be delivered to: those of all attached layers in their order, or
that of the target alone, if it is attached. -/
def IsTargeted (engine : Engine) (slots : List Nat) : Option LayerId → Prop
  | none => slots.Pairwise (· < ·) ∧ ∀ slot, slot ∈ slots ↔ engine.hierarchy.isAttached slot = true
  | some id =>
    (∃ slot layer, slots = [slot] ∧ engine.hierarchy.isAttached slot = true ∧
      engine.hierarchy.layer? slot = some layer ∧ layer.id = id) ∨
    (slots = [] ∧ ∀ slot layer, engine.hierarchy.isAttached slot = true →
      engine.hierarchy.layer? slot = some layer → layer.id ≠ id)

/-- An event is delivered to the slots that it is to be delivered to. -/
theorem isTargeted_targetSlots (engine : Engine) (target : Option LayerId) :
    engine.IsTargeted (engine.targetSlots target) target := by
  cases target with
  | none => exact ⟨engine.hierarchy.pairwise_attachedSlots, fun _ => Hierarchy.mem_attachedSlots⟩
  | some id =>
    cases hfound : engine.hierarchy.find? id with
    | none =>
      refine .inr ⟨?_, Hierarchy.find?_eq_none_iff.mp hfound⟩
      rw [targetSlots, hfound, Option.toList_none]
    | some slot =>
      have hattached := Hierarchy.mem_attachedSlots.mp (List.mem_of_find?_eq_some hfound)
      have hmatch := List.find?_some hfound
      obtain ⟨layer, hlayer, hid⟩ := (Option.any_eq_true ..).mp hmatch
      refine .inl ⟨slot, layer, ?_, hattached, hlayer, beq_iff_eq.mp hid⟩
      rw [targetSlots, hfound, Option.toList_some]

/-- The work list of a pass that returns begins with the event for each layer that it is for, and
is walked from its beginning to its end. Every layer is in its record when it is to walk, no event
is empty, and work that is in the list at any time stays in its place. Whatever an attached layer
writes to the layer above it arrives there. -/
theorem work_list_complete (hengine : engine.Reachable) (hevent : event ≠ "")
    (hdrain : (engine.beginPass event target).drain? (engine.surroundings now) items = some last) :
    (∃ slots, engine.IsTargeted slots target ∧
      (engine.beginPass event target).queue.toList = slots.map (WorkItem.mk event)) ∧
    Pass.Walks (engine.surroundings now) (engine.beginPass event target) last.queue.toList last ∧
    (∀ item ∈ last.queue, item.event ≠ "") ∧
    ∀ pass, Pass.Leads (engine.surroundings now) (engine.beginPass event target) pass →
      pass.queue.toList <+: last.queue.toList ∧
      ∀ item, pass.next? = some item →
        (∃ layer, pass.hierarchy.layer? item.slot = some layer) ∧
        ∀ mid ∈ pass.walkStates (engine.surroundings now),
          pass.queue.toList <+: mid.queue.toList ∧ mid.queue.toList <+: last.queue.toList ∧
          ∀ parent, mid.hierarchy.isAttached item.slot = true →
            mid.hierarchy.parent? item.slot = some parent →
            ∀ id label value, ∃ layer, mid.hierarchy.layer? parent = some layer ∧
              ((engine.surroundings now).handle item.slot id (.write label value)
                mid).2.hierarchy.layer? parent =
                some { layer with frames := layer.frames.write label value } := by
  have hsettled := hengine.settled
  have hfirst := resting_beginPass hsettled.ordered hsettled.isFull hevent target
  obtain ⟨hleads, hend⟩ := Pass.leads_of_drain? hdrain
  refine ⟨⟨_, isTargeted_targetSlots engine target, ?_⟩, ?_, ?_, ?_⟩
  · rw [queue_beginPass, List.toList_toArray]
  · have hwalks := hfirst.walks hleads hend
    rwa [progress_beginPass, List.drop_zero] at hwalks
  · exact fun item hitem => ((hfirst.leads hleads).isQueued item hitem).1
  · intro pass hpass
    have hresting := hfirst.leads hpass
    have hrest := hpass.leads_of_end hleads hend
    refine ⟨hresting.queue_grows hrest, ?_⟩
    intro item hitem
    obtain ⟨layer, hlayer⟩ := hresting.exists_layer hitem
    refine ⟨⟨layer, hlayer⟩, ?_⟩
    intro mid hmid
    obtain ⟨hbefore, hafter⟩ := Pass.queue_grows_during_walk hitem hlayer hmid
    have hwalking := hresting.walking_of_mem_walkStates hitem hmid
    have hstep : pass.step? (engine.surroundings now) =
        some (pass.walked (engine.surroundings now) item layer) :=
      Pass.step?_of_layer? hitem hlayer
    have hnext : Pass.Leads (engine.surroundings now)
        (pass.walked (engine.surroundings now) item layer) last :=
      Pass.Leads.leads_of_end (.single hstep) hrest hend
    have hkept := (hresting.step hstep).queue_grows hnext
    refine ⟨hbefore, hafter.trans hkept, ?_⟩
    intro parent hattached hparent id label value
    exact hwalking.write_arrives hattached hparent label value

/-- The event that makes the root of the sample start its child is walked by the root, and then the
child walks its first event. -/
theorem work_list_complete_of_sample :
    ∃ last, (sample.beginPass "go" none).drain? (sample.surroundings 0) 10 = some last ∧
      last.queue.toList = [⟨"go", 0⟩, ⟨"started", 1⟩] ∧
      Pass.Walks (sample.surroundings 0) (sample.beginPass "go" none) last.queue.toList last := by
  have hgo : ((sample.beginPass "go" none).drain? (sample.surroundings 0) 10).any fun last =>
      last.queue.toList == [⟨"go", 0⟩, ⟨"started", 1⟩] := by
    decide +kernel
  obtain ⟨last, hdrain, hqueue⟩ := (Option.any_eq_true ..).mp hgo
  obtain ⟨_, hwalks, _⟩ := work_list_complete reachable_sample (by decide) hdrain
  exact ⟨last, hdrain, beq_iff_eq.mp hqueue, hwalks⟩

end LayeredMachines.Engine
