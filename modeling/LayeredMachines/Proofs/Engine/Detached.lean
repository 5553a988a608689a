import LayeredMachines.Proofs.Engine.Arena
import LayeredMachines.Proofs.Pass.Detached

/-!
# Detached layers cannot act

A layer of a reachable engine may be detached when its turn comes: work was queued for it before it
finished, or a layer below it that has stayed sends word to it later. It then walks as its machine
tells it, but the engine takes no notice of that beyond the lines of the walk, verbs of the
application, and events for the layers that are still below it.
-/

namespace LayeredMachines

/-- A root that starts a child and sends it a second event, for which the child is too late: it has
started a child of its own and finished. -/
def Library.late : Library :=
  ⟨[⟨"default",
      [(State.named "start").on "go" "spawn",
        ((State.named "spawn").onEntry "start:machine=child").on "success" "sending",
        ((State.named "sending").onEntry "blast:event=second").on "success" "done",
        State.named "done"]⟩,
    ⟨"child",
      [(State.named "start").on "started" "spawn",
        ((State.named "spawn").onEntry "start:machine=leaf").on "success" "final",
        (State.named "final").on "second" "asking",
        ((State.named "asking").onEntry "patch:command=news").on "failure" "sending",
        ((State.named "sending").onEntry "blast:event=third").on "success" "done",
        State.named "done"]⟩,
    ⟨"leaf", [State.named "start"]⟩]⟩

namespace Engine

variable {engine : Engine} {event : String} {target : Option LayerId} {now : Int} {pass : Pass}
  {item : WorkItem}

/-- The walk of a detached layer leaves the hierarchy and the timers as they are, apart from the
layer itself. It shows no command and no line that a layer asked for. The work that it adds is that
of the events which it sends downwards, for attached layers below it. All calls that only an
attached layer is granted are answered with failure. -/
theorem detached_layers_cannot_act (hengine : engine.Reachable) (hevent : event ≠ "")
    (hleads : Pass.Leads (engine.surroundings now) (engine.beginPass event target) pass)
    (hitem : pass.next? = some item) (hdetached : pass.hierarchy.isAttached item.slot = false) :
    ∃ layer next, pass.hierarchy.layer? item.slot = some layer ∧
      pass.step? (engine.surroundings now) = some next ∧
      pass.hierarchy.AgreesExcept item.slot next.hierarchy ∧ next.timers = pass.timers ∧
      (∀ mid ∈ pass.walkStates (engine.surroundings now),
        mid.hierarchy = pass.hierarchy.take item.slot ∧ mid.timers = pass.timers) ∧
      (∃ shown, next.transcript.toList = pass.transcript.toList ++ shown ∧
        ∀ notice ∈ shown, notice.isAct = false) ∧
      next.queue.toList = pass.queue.toList ++
        ((pass.walkCalls (engine.surroundings now)).map Prod.snd).flatMap
          (Call.sentTo (pass.hierarchy.descendants item.slot)) ∧
      (∀ below ∈ pass.hierarchy.descendants item.slot,
        pass.hierarchy.isAttached below = true ∧ pass.hierarchy.IsBelow below item.slot) ∧
      ∀ mid call, (mid, call) ∈ pass.walkCalls (engine.surroundings now) →
        call.isGuarded = true →
        call.outcome? ((engine.surroundings now).handle item.slot layer.id call mid).1 =
          some .failure := by
  have hresting : pass.Resting := hengine.resting hevent hleads
  obtain ⟨layer, hlayer⟩ := hresting.exists_layer hitem
  have hstep : pass.step? (engine.surroundings now) =
      some (pass.walked (engine.surroundings now) item layer) := Pass.step?_of_layer? hitem hlayer
  have hstates (mid : Pass) (hmid : mid ∈ pass.walkStates (engine.surroundings now)) :=
    Pass.eq_of_mem_walkStates_of_detached hitem hlayer hdetached hmid
  rw [Pass.walked_of_detached hitem hlayer hdetached] at hstep
  refine ⟨layer, _, hlayer, hstep, ?_, rfl, hstates, ⟨_, Array.toList_append, ?_⟩,
    Array.toList_append, ?_, ?_⟩
  · exact pass.hierarchy.agreesExcept_restore item.slot _
  · intro notice hnotice
    rcases List.mem_cons.mp hnotice with rfl | hmade
    · rfl
    · obtain ⟨call, hcall, hshown⟩ := List.mem_flatMap.mp hmade
      obtain ⟨⟨mid, _⟩, hmid, rfl⟩ := List.mem_map.mp hcall
      exact Pass.isAct_of_mem_notices hitem hlayer hmid hshown
  · intro below hbelow
    obtain ⟨hattached, habove⟩ := Hierarchy.mem_descendants.mp hbelow
    exact ⟨hattached, Hierarchy.isBelow_of_mem_ancestors habove⟩
  · intro mid call hcall hguarded
    refine Pass.outcome?_of_detached ?_ hguarded
    have hmid := (Pass.mem_walkStates_of_mem_walkCalls hitem hlayer hcall).1
    rw [(hstates mid hmid).1, Hierarchy.isAttached_take, hdetached]

/-- The engine that runs the late library from its beginning. -/
def late : Engine :=
  (create Config.default).restart Library.late

theorem reachable_late : late.Reachable :=
  reachable_restart Config.default Library.late

/-- The child of the late library is refused to notify the application, and sends an event to its own
child, which has stayed. -/
theorem detached_layers_cannot_act_of_late :
    ∃ (pass next mid : Pass) (layer : Layer), late.Reachable ∧
      Pass.Leads (late.surroundings 0) (late.beginPass "go" none) pass ∧
      pass.next? = some ⟨"second", 1⟩ ∧ pass.hierarchy.isAttached 1 = false ∧
      pass.step? (late.surroundings 0) = some next ∧
      next.queue.toList = pass.queue.toList ++ [⟨"third", 2⟩] ∧
      pass.hierarchy.AgreesExcept 1 next.hierarchy ∧
      (mid, .patch "news" "") ∈ pass.walkCalls (late.surroundings 0) ∧
      ((late.surroundings 0).handle 1 layer.id (.patch "news" "") mid).1 = .failure := by
  have hgo : ((late.beginPass "go" none).step? (late.surroundings 0)).any fun first =>
      (first.step? (late.surroundings 0)).any fun pass =>
        pass.next? == some ⟨"second", 1⟩ && !pass.hierarchy.isAttached 1 &&
          (pass.step? (late.surroundings 0)).any (fun next =>
            next.queue.toList == pass.queue.toList ++ [⟨"third", 2⟩]) &&
          (pass.walkCalls (late.surroundings 0)).any (·.2 == .patch "news" "") := by
    decide +kernel
  obtain ⟨first, hfirst, hrest⟩ := (Option.any_eq_true ..).mp hgo
  obtain ⟨pass, hpass, hwalk⟩ := (Option.any_eq_true ..).mp hrest
  simp only [Bool.and_eq_true, beq_iff_eq, Bool.not_eq_true'] at hwalk
  obtain ⟨⟨⟨hitem, hdetached⟩, hnext⟩, hcalls⟩ := hwalk
  obtain ⟨next, hstep, hqueue⟩ := (Option.any_eq_true ..).mp hnext
  obtain ⟨⟨mid, call⟩, hcall, hpatch⟩ := List.any_eq_true.mp hcalls
  obtain rfl : call = .patch "news" "" := beq_iff_eq.mp hpatch
  have hleads : Pass.Leads (late.surroundings 0) (late.beginPass "go" none) pass :=
    .tail (.single hfirst) hpass
  obtain ⟨layer, last, _, hlast, hagrees, _, _, _, _, _, hrefused⟩ :=
    detached_layers_cannot_act reachable_late (by decide) hleads hitem hdetached
  obtain rfl := Option.some.inj (hlast.symm.trans hstep)
  exact ⟨pass, last, mid, layer, reachable_late, hleads, hitem, hdetached, hstep,
    beq_iff_eq.mp hqueue, hagrees, hcall, Option.some.inj (hrefused mid _ hcall rfl)⟩

end Engine

end LayeredMachines
