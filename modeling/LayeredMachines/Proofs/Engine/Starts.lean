import LayeredMachines.Proofs.Engine.Arena
import LayeredMachines.Proofs.Pass.Starts

/-!
# Every child is started first and clean

Between the moment a layer is started and its first walk the layer above may start more, send more
events and finish, and other layers may walk. None of that reaches the new layer: its first walk is
for the event that it was sent when it was started, and finds it as it was then.
-/

namespace LayeredMachines

/-- A root that starts a child with two values for one label, the second of them from a variable of
its own, and with a value without a label. -/
def Library.seeding : Library :=
  ⟨[⟨"default",
      [(State.named "start").on "go" "ready",
        ((State.named "ready").onEntry "set:label=x,value=7").on "success" "spawn",
        (State.named "spawn").onEntry "start:machine=child,A=1,a=((x)),lost,Machine=other"]⟩,
    ⟨"child", [State.named "start"]⟩]⟩

namespace Engine

variable {engine : Engine} {event : String} {target : Option LayerId} {now : Int} {items : Nat}
  {last : Pass}

/-- The layers that are new at the end of a pass are those that executions of its walks have started.
The first work for such a layer is the event that it was sent when it was started. This is behind
all the work that the pass began with, and before all other work for the layer. When the pass comes
to it, the layer is as it was started, with the parameters of the axion for its seed. -/
theorem children_start_clean (hengine : engine.Reachable) (hevent : event ≠ "")
    (hdrain : (engine.beginPass event target).drain? (engine.surroundings now) items = some last) :
    (∀ slot, engine.hierarchy.size ≤ slot → slot < last.hierarchy.size →
      ∃ pass item execution machine,
        Pass.Leads (engine.surroundings now) (engine.beginPass event target) pass ∧
        pass.Starts (engine.surroundings now) item execution machine ∧
        execution.world.hierarchy.size = slot) ∧
    ∀ pass item execution machine,
      Pass.Leads (engine.surroundings now) (engine.beginPass event target) pass →
      pass.Starts (engine.surroundings now) item execution machine →
      (engine.beginPass event target).queue.size ≤ execution.world.queue.size ∧
      last.BeginsAt execution.world.hierarchy.size execution.world.queue.size ∧
      ∃ first child next,
        Pass.Leads (engine.surroundings now) (engine.beginPass event target) first ∧
        first.progress = execution.world.queue.size ∧
        first.next? = some ⟨startedEvent, execution.world.hierarchy.size⟩ ∧
        first.hierarchy.layer? execution.world.hierarchy.size = some child ∧
        child.IsClean machine (execution.axion.without "machine") ∧
        first.step? (engine.surroundings now) = some next ∧
        Pass.Leads (engine.surroundings now) next last := by
  have hrefl : Pass.Leads (engine.surroundings now) (engine.beginPass event target) _ := .refl
  have hbegin : (engine.beginPass event target).Resting := hengine.resting hevent hrefl
  obtain ⟨hreturns, hend⟩ := Pass.leads_of_drain? hdrain
  refine ⟨fun slot hold hnew => ?_, fun pass item execution machine hleads hstarts => ?_⟩
  · rw [← hierarchy_beginPass engine event target] at hold
    exact hbegin.exists_starts hreturns hold hnew
  · have hpass : pass.Resting := hengine.resting hevent hleads
    obtain ⟨layer, hlayer⟩ := hpass.exists_layer hstarts.next?_eq
    have hstep : pass.step? (engine.surroundings now) =
        some (pass.walked (engine.surroundings now) item layer) :=
      Pass.step?_of_layer? hstarts.next?_eq hlayer
    have huntouched := hstarts.untouched_walked hpass hlayer
    have hnext := hpass.step hstep
    have hrest := Pass.Leads.leads_of_end (.tail hleads hstep) hreturns hend
    have hplace := hstarts.queue_size_le hlayer
    have hold := (hbegin.queue_grows hleads).length_le
    obtain ⟨hlt, _⟩ := Array.getElem?_eq_some_iff.mp hstarts.next?_eq
    have hprogress : (pass.walked (engine.surroundings now) item layer).progress ≤
        execution.world.queue.size := by
      rw [Pass.progress_walked]
      omega
    obtain ⟨first, hfirst, hreached, hchild, hlast⟩ :=
      hnext.exists_first huntouched hprogress hrest hend
    have hgrows := (hnext.leads hfirst).queue_grows hlast
    have hitem : first.next? = some ⟨startedEvent, execution.world.hierarchy.size⟩ := by
      rw [Pass.next?, hreached, hchild.queued]
    have hwalk : first.step? (engine.surroundings now) =
        some (first.walked (engine.surroundings now) _ _) :=
      Pass.step?_of_layer? hitem hchild.layer?_eq
    rw [Array.length_toList, Array.length_toList] at hold
    exact ⟨by omega, hchild.toBeginsAt.of_queue_grows hgrows, first, _, _,
      .trans hleads (.head hstep hfirst), hreached, hitem, hchild.layer?_eq,
      Pass.isClean_newLayer _ _ machine _, hwalk, Pass.Leads.leads_of_end (.single hwalk) hlast hend⟩

/-- The engine that runs the seeding library from its beginning. -/
def seeding : Engine :=
  (create Config.default).restart Library.seeding

/-- The child of the seeding library begins with the second of the two values. -/
theorem children_start_clean_of_seeding :
    ∃ (last first : Pass) (child : Layer), seeding.Reachable ∧
      (seeding.beginPass "go" none).drain? (seeding.surroundings 0) 10 = some last ∧
      last.BeginsAt 1 1 ∧ first.next? = some ⟨"started", 1⟩ ∧
      first.hierarchy.layer? 1 = some child ∧ child.current = 0 ∧
      child.frames.lookup "A" = some "7" ∧ child.frames.lookup "machine" = none := by
  have hengine : seeding.Reachable := reachable_restart Config.default Library.seeding
  have hreturns : ((seeding.beginPass "go" none).drain? (seeding.surroundings 0) 10).isSome := by
    decide +kernel
  obtain ⟨last, hdrain⟩ := Option.isSome_iff_exists.mp hreturns
  have hgo : ((seeding.beginPass "go" none).walkExecutions (seeding.surroundings 0)).any
      fun execution =>
        execution.call? == some (.start "child" [⟨"A", "1"⟩, ⟨"a", "7"⟩, ⟨"", "lost"⟩]) &&
        execution.axion.without "machine" == [⟨"A", "1"⟩, ⟨"a", "7"⟩, ⟨"", "lost"⟩] &&
        execution.world.hierarchy.isAttached 0 && execution.world.hierarchy.size == 1 &&
        execution.world.queue.size == 1 := by
    decide +kernel
  obtain ⟨execution, hexecution, hstart⟩ := List.any_eq_true.mp hgo
  simp only [Bool.and_eq_true, beq_iff_eq] at hstart
  obtain ⟨⟨⟨⟨hcall, hseed⟩, hattached⟩, hslot⟩, hplace⟩ := hstart
  have hmachine : (seeding.surroundings 0).catalog.find? (·.isNamed "child") =
      some ⟨"child", [State.named "start"]⟩ := by
    decide +kernel
  have hstarts : (seeding.beginPass "go" none).Starts (seeding.surroundings 0) ⟨"go", 0⟩ execution
      ⟨"child", [State.named "start"]⟩ :=
    ⟨by decide +kernel, hexecution, "child", _, hcall, hmachine,
      by rw [Pass.handle_start _ hattached hmachine]⟩
  obtain ⟨_, hall⟩ := children_start_clean hengine (by decide) hdrain
  obtain ⟨_, hbegins, first, child, _, _, _, hitem, hchild, hclean, _⟩ :=
    hall _ _ execution _ .refl hstarts
  rw [hslot, hplace] at hbegins
  rw [hslot] at hitem hchild
  rw [hseed] at hclean
  refine ⟨last, first, child, hengine, hdrain, hbegins, hitem, hchild, hclean.current_eq, ?_, ?_⟩
  · rw [hclean.lookup_eq]
    decide
  · rw [hclean.lookup_eq]
    decide

end Engine

end LayeredMachines
