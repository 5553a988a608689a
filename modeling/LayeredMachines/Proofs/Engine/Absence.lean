import LayeredMachines.Proofs.Engine.Arena

/-!
# Events for absent layers

Events are delivered to attached layers only. A layer that was detached or is gone does not follow an
event that is still sent to it, nor the event of a timer that it has set while it was there. The
delivery then leaves the engine as it was, since the last one has left nothing to drop, and all that
is seen of it is one line.
-/

namespace LayeredMachines

/-- A root that starts a child. The child starts one of its own, sets a timer and finishes. -/
def Library.leaving : Library :=
  ⟨[⟨"default",
      [(State.named "start").on "go" "spawn",
        ((State.named "spawn").onEntry "start:machine=child").on "success" "done",
        State.named "done"]⟩,
    ⟨"child",
      [(State.named "start").on "started" "spawn",
        ((State.named "spawn").onEntry "start:machine=leaf").on "success" "timing",
        ((State.named "timing").onEntry "timer:event=tick,expires=5").on "success" "final",
        State.named "final"]⟩,
    ⟨"leaf", [State.named "start"]⟩]⟩

namespace Engine

variable {engine : Engine} {id : LayerId}

/-- An event for a layer that is not attached is shown in one line, which says that it is handled, or
not at all if it is empty. Nothing else of a reachable engine changes, whether the event is sent or a
timer of the layer fires, and the records are not even renumbered. The layer may be gone or only
detached, and other timers stay pending. -/
theorem absent_layers_are_passed_over (hengine : engine.Reachable)
    (habsent : ∀ slot layer, engine.hierarchy.isAttached slot = true →
      engine.hierarchy.layer? slot = some layer → layer.id ≠ id) :
    (∀ items event now, engine.handle? items event (some id) now =
      some { engine with transcript := engine.transcript ++ Notice.mention event }) ∧
    (∀ timer others, engine.timers.pending = timer :: others → timer.target = id →
      ∀ items now, engine.fire? items now =
        some { engine with
          timers := ⟨others⟩
          transcript := engine.transcript ++ Notice.mention timer.event }) ∧
    Notice.mention "" = #[] ∧
    ∀ event, event ≠ "" → ∃ line, Notice.mention event = #[.line line] ∧
      ∀ name, line.render name = "Handling " ++ event := by
  have hhandle (timers : TimerQueue) (items : Nat) (event : String) (now : Int) :
      { engine with timers := timers }.handle? items event (some id) now =
        some { engine with
          timers := timers
          transcript := engine.transcript ++ Notice.mention event } := by
    have hsettled : { engine with timers := timers }.Settled := hengine.settled.of_hierarchy_eq rfl
    exact hsettled.handle?_of_find?_eq_none (Hierarchy.find?_eq_none_iff.mpr habsent) _ _ _
  refine ⟨hhandle engine.timers, fun timer others hpending htarget items now => ?_, rfl,
    fun event hevent => ⟨.handling event, ?_, fun name => rfl⟩⟩
  · have hnext : engine.timers.next? = some (timer, ⟨others⟩) := by
      rw [TimerQueue.next?, hpending]
    subst htarget
    rw [fire?, hnext]
    exact hhandle ⟨others⟩ items timer.event now
  · rw [Notice.mention, if_neg (by simpa using hevent)]

/-- The child of the leaving library is detached, and its record is kept for the layer below it. Its
timer fires, and nothing happens. -/
theorem absent_layers_are_passed_over_of_leaving :
    ∃ engine : Engine, engine.Reachable ∧ engine.hierarchy.isAttached 1 = false ∧
      (engine.hierarchy.layer? 1).map Layer.id = some ⟨1⟩ ∧ engine.size = 2 ∧
      engine.timers.pending = [⟨⟨1⟩, "tick", 5⟩] ∧
      engine.fire? 0 5 = some { engine with
        timers := TimerQueue.empty
        transcript := engine.transcript ++ #[.line (.handling "tick")] } := by
  have hgo : (((create Config.default).restart Library.leaving).act? compact 10
      (.handle "go" none 0)).any fun engine =>
        !engine.hierarchy.isAttached 1 && (engine.hierarchy.layer? 1).map Layer.id == some ⟨1⟩ &&
        engine.size == 2 && engine.timers.pending == [⟨⟨1⟩, "tick", 5⟩] &&
        engine.hierarchy.find? ⟨1⟩ == none := by
    decide +kernel
  obtain ⟨engine, hact, hengine⟩ := (Option.any_eq_true ..).mp hgo
  simp only [Bool.and_eq_true, beq_iff_eq, Bool.not_eq_true'] at hengine
  obtain ⟨⟨⟨⟨hdetached, hid⟩, hsize⟩, hpending⟩, hnone⟩ := hengine
  have hreachable : engine.Reachable :=
    .act (reachable_restart Config.default Library.leaving) hact
  obtain ⟨-, hfire, -⟩ :=
    absent_layers_are_passed_over hreachable (Hierarchy.find?_eq_none_iff.mp hnone)
  exact ⟨engine, hreachable, hdetached, hid, hsize, hpending, hfire _ [] hpending rfl 0 5⟩

end Engine

end LayeredMachines
