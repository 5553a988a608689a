import LayeredMachines.Proofs.Engine.Arena
import LayeredMachines.Proofs.Engine.Catalog
import LayeredMachines.Proofs.Pass.Identities
import LayeredMachines.Proofs.Pass.OneWay

/-!
# One-way passes return

A pass need not return: two layers can send each other events for ever, and a layer can start one
that starts another. If the machines of an engine send events in one direction only, and no layer is
started, a pass is over after a number of work items that is known beforehand.
-/

namespace LayeredMachines

/-- A root that starts a child on the event "go", and a child that sends word to the root on the event
"finish". No event is sent downwards. -/
def Library.reporting : Library :=
  ⟨[⟨"default",
      [(State.named "start").on "go" "spawn",
        ((State.named "spawn").onEntry "start:machine=child").on "success" "waiting",
        (State.named "waiting").on "done" "heard",
        State.named "heard"]⟩,
    ⟨"child",
      [(State.named "start").on "finish" "telling",
        (State.named "telling").onEntry "raise:event=done"]⟩]⟩

namespace Engine

variable {engine : Engine} {event : String} {target : Option LayerId} {now : Int} {pass next : Pass}
  {item : WorkItem} {layer : Layer} {items : Nat}

/-- No layer is started in the pass for an event. -/
def StartsNothing (engine : Engine) (event : String) (target : Option LayerId) (now : Int) : Prop :=
  ∀ pass, Pass.Leads (engine.surroundings now) (engine.beginPass event target) pass →
    pass.hierarchy.size = engine.hierarchy.size

/-- The work that each item can add: an event for each layer and for each axion that its walk can
execute. -/
def addedBound (engine : Engine) : Nat :=
  (2 * engine.config.maxFollowOn + 1) * engine.hierarchy.size

/-- The work of a pass that sends events one way: each item adds so much, for layers that are one step
further on the way. -/
def workBound (engine : Engine) : Nat :=
  engine.hierarchy.size * (engine.addedBound + 1) ^ engine.hierarchy.size

/-! ### Starting nothing -/

/-- Where no machine has the verb, no layer is started. -/
theorem Reachable.startsNothing (hengine : engine.Reachable) (hstart : engine.Avoids .start)
    (hevent : event ≠ "") (target : Option LayerId) (now : Int) :
    engine.StartsNothing event target now := by
  intro pass hleads
  induction hleads with
  | refl => rw [hierarchy_beginPass]
  | tail hleads hstep ih =>
    obtain ⟨item, layer, hitem, hlayer, rfl⟩ := (hengine.resting hevent hleads).step?_cases hstep
    have havoids := hstart layer.machine (hengine.machine_mem hleads hlayer)
    rw [Pass.size_walked_of_avoids hitem hlayer havoids, ih]

/-- A pass that returns with as many records as it began with has started nothing. -/
theorem Reachable.startsNothing_of_drain? (hengine : engine.Reachable) (hevent : event ≠ "")
    {last : Pass}
    (hdrain : (engine.beginPass event target).drain? (engine.surroundings now) items = some last)
    (hsize : last.hierarchy.size = engine.hierarchy.size) :
    engine.StartsNothing event target now := by
  intro pass hleads
  obtain ⟨hreturns, hend⟩ := Pass.leads_of_drain? hdrain
  have hrest := Pass.Leads.leads_of_end hleads hreturns hend
  have hbegin := resting_beginPass hengine.settled.ordered hengine.settled.isFull hevent target
  have hbefore := (hbegin.grows_leads hleads).size_le
  have hafter := ((hengine.resting hevent hleads).grows_leads hrest).size_le
  rw [hierarchy_beginPass] at hbefore
  omega

/-- In a pass that starts nothing each walk leaves the number of records as it is. -/
theorem StartsNothing.size_walked (hnothing : engine.StartsNothing event target now)
    (hleads : Pass.Leads (engine.surroundings now) (engine.beginPass event target) pass)
    (hitem : pass.next? = some item) (hlayer : pass.hierarchy.layer? item.slot = some layer) :
    (pass.walked (engine.surroundings now) item layer).hierarchy.size = pass.hierarchy.size := by
  rw [hnothing pass hleads, hnothing _ (hleads.tail (Pass.step?_of_layer? hitem hlayer))]

/-! ### One work item -/

/-- Where nothing is sent downwards, each item adds work for the layer above only. -/
theorem Reachable.added_upwards (hengine : engine.Reachable) (hevent : event ≠ "")
    (hnothing : engine.StartsNothing event target now) (hblast : engine.Avoids .blast)
    (hleads : Pass.Leads (engine.surroundings now) (engine.beginPass event target) pass)
    (hitem : pass.next? = some item) :
    ∀ execution ∈ pass.walkExecutions (engine.surroundings now),
      (execution.sends (engine.surroundings now) item.slot).length ≤ 1 ∧
      ∀ sent ∈ execution.sends (engine.surroundings now) item.slot,
        pass.hierarchy.parent? item.slot = some sent.slot ∧ sent.slot < item.slot := by
  intro execution hexecution
  have hpass := hengine.resting hevent hleads
  obtain ⟨layer, hlayer⟩ := hpass.exists_layer hitem
  have havoids := hblast layer.machine (hengine.machine_mem hleads hlayer)
  obtain ⟨hlength, hparent⟩ := hpass.sends_upwards hitem hlayer
    (hnothing.size_walked hleads hitem hlayer) havoids hexecution
  exact ⟨hlength, fun sent hsent =>
    ⟨hparent sent hsent, hpass.ordered.parent_lt (hparent sent hsent)⟩⟩

/-- Where nothing is sent upwards, each item adds work for layers below only. -/
theorem Reachable.added_downwards (hengine : engine.Reachable) (hevent : event ≠ "")
    (hnothing : engine.StartsNothing event target now) (hraise : engine.Avoids .raise)
    (hleads : Pass.Leads (engine.surroundings now) (engine.beginPass event target) pass)
    (hitem : pass.next? = some item) :
    ∀ execution ∈ pass.walkExecutions (engine.surroundings now),
      (execution.sends (engine.surroundings now) item.slot).length ≤ engine.hierarchy.size ∧
      ∀ sent ∈ execution.sends (engine.surroundings now) item.slot,
        item.slot < sent.slot ∧ sent.slot < engine.hierarchy.size := by
  intro execution hexecution
  have hpass := hengine.resting hevent hleads
  obtain ⟨layer, hlayer⟩ := hpass.exists_layer hitem
  have havoids := hraise layer.machine (hengine.machine_mem hleads hlayer)
  rw [← hnothing pass hleads]
  exact hpass.sends_downwards hitem hlayer (hnothing.size_walked hleads hitem hlayer) havoids
    hexecution

/-! ### Whole passes -/

/-- There are not more targets than records. -/
theorem length_targetSlots_le (engine : Engine) (target : Option LayerId) :
    (engine.targetSlots target).length ≤ engine.hierarchy.size := by
  cases target with
  | none => exact engine.hierarchy.length_attachedSlots_le
  | some id =>
    simp only [targetSlots]
    cases hfound : engine.hierarchy.find? id with
    | none => exact Nat.zero_le _
    | some slot =>
      have hslot : slot ∈ engine.hierarchy.attachedSlots := List.mem_of_find?_eq_some hfound
      exact Nat.zero_lt_of_lt
        (Hierarchy.lt_size_of_isAttached (Hierarchy.mem_attachedSlots.mp hslot))

/-- What the work that a pass begins with weighs. -/
theorem weight_beginPass_le (engine : Engine) (event : String) (target : Option LayerId)
    (bound : Nat) {rank : Nat → Nat}
    (hrank : ∀ slot < engine.hierarchy.size, rank slot ≤ engine.hierarchy.size) :
    (engine.beginPass event target).weight bound rank ≤
      engine.hierarchy.size * (bound + 1) ^ engine.hierarchy.size := by
  have hpending : (engine.beginPass event target).pendingWork =
      (engine.targetSlots target).map (WorkItem.mk event) := by
    rw [Pass.pendingWork, queue_beginPass, progress_beginPass]
    rfl
  have hsum := List.sum_le_card_nsmul
    ((engine.targetSlots target).map fun slot => (bound + 1) ^ rank slot)
    ((bound + 1) ^ engine.hierarchy.size) fun n hn => by
      obtain ⟨slot, hslot, rfl⟩ := List.mem_map.mp hn
      have hsize := Hierarchy.lt_size_of_isAttached (isAttached_of_mem_targetSlots hslot)
      exact Nat.pow_le_pow_right (Nat.succ_pos bound) (hrank slot hsize)
  rw [List.length_map, smul_eq_mul] at hsum
  rw [Pass.weight, hpending, List.map_map]
  exact Nat.le_trans hsum (Nat.mul_le_mul_right _ (engine.length_targetSlots_le target))

/-- A pass returns if every item adds work for slots of lower ranks only. -/
theorem Reachable.returns_of_rank (hengine : engine.Reachable) (hevent : event ≠ "")
    (rank : Nat → Nat) (hrank : ∀ slot < engine.hierarchy.size, rank slot ≤ engine.hierarchy.size)
    (hsends : ∀ pass item, Pass.Leads (engine.surroundings now) (engine.beginPass event target) pass →
      pass.next? = some item → ∀ execution ∈ pass.walkExecutions (engine.surroundings now),
      (execution.sends (engine.surroundings now) item.slot).length ≤ engine.hierarchy.size ∧
      ∀ sent ∈ execution.sends (engine.surroundings now) item.slot,
        rank sent.slot < rank item.slot) :
    ∃ next, ∀ items, engine.workBound ≤ items →
      engine.handle? items event target now = some next := by
  have hstep (pass next : Pass)
      (hleads : Pass.Leads (engine.surroundings now) (engine.beginPass event target) pass)
      (hnext : pass.step? (engine.surroundings now) = some next) :
      Pass.Leads (engine.surroundings now) (engine.beginPass event target) next ∧
        next.weight engine.addedBound rank < pass.weight engine.addedBound rank := by
    refine ⟨hleads.tail hnext, ?_⟩
    obtain ⟨item, layer, hitem, hlayer, rfl⟩ := (hengine.resting hevent hleads).step?_cases hnext
    have hadded := hsends pass item hleads hitem
    exact Pass.weight_walked_lt hitem hlayer
      (Pass.length_flatMap_sends_le fun execution hexecution => (hadded execution hexecution).1)
      fun execution hexecution => (hadded execution hexecution).2
  obtain ⟨last, hlast⟩ := Pass.exists_drain? _ hstep .refl
  refine ⟨(engine.endPass last).compact, fun items hitems => ?_⟩
  have hweight := engine.weight_beginPass_le event target engine.addedBound hrank
  have hreturns := hlast items (Nat.le_trans hweight hitems)
  rw [handle?, deliver?, if_neg (by simpa using hevent), hreturns, Option.map_some, Option.map_some]

/-- If no machine sends events downwards, or none sends them upwards, and no layer is started, which
is so if no machine has the verb for it, every event is handled within a number of work items that is
known beforehand. What each item adds is bounded, too: where events are only sent upwards, it is for
the layer above, and at most one item for each axion that the walk can execute; where events are only
sent downwards, it is for layers with greater slots. -/
theorem one_way_passes_return (hengine : engine.Reachable)
    (hstart : engine.Avoids .start ∨ engine.StartsNothing event target now)
    (hway : engine.Avoids .blast ∨ engine.Avoids .raise) :
    (∃ next, ∀ items, engine.workBound ≤ items →
      engine.handle? items event target now = some next) ∧
    ∀ pass item, event ≠ "" →
      Pass.Leads (engine.surroundings now) (engine.beginPass event target) pass →
      pass.next? = some item →
      ∃ next added, pass.step? (engine.surroundings now) = some next ∧
        next.queue.toList = pass.queue.toList ++ added ∧ added.length ≤ engine.addedBound ∧
        (engine.Avoids .blast → added.length ≤ 2 * engine.config.maxFollowOn + 1 ∧
          ∀ sent ∈ added, pass.hierarchy.parent? item.slot = some sent.slot ∧
            sent.slot < item.slot) ∧
        (engine.Avoids .raise →
          ∀ sent ∈ added, item.slot < sent.slot ∧ sent.slot < engine.hierarchy.size) := by
  have hnothing (hevent : event ≠ "") : engine.StartsNothing event target now :=
    hstart.elim (fun hverb => hengine.startsNothing hverb hevent target now) id
  have hlength (pass : Pass) (item : WorkItem) (hevent : event ≠ "")
      (hleads : Pass.Leads (engine.surroundings now) (engine.beginPass event target) pass)
      (hitem : pass.next? = some item) :
      ∀ execution ∈ pass.walkExecutions (engine.surroundings now),
        (execution.sends (engine.surroundings now) item.slot).length ≤ engine.hierarchy.size := by
    intro execution hexecution
    rcases hway with hblast | hraise
    · have hone :=
        (hengine.added_upwards hevent (hnothing hevent) hblast hleads hitem execution hexecution).1
      have hslot := ((hengine.resting hevent hleads).isQueued item
        (Array.mem_of_getElem? hitem)).2
      rw [hnothing hevent pass hleads] at hslot
      omega
    · exact
        (hengine.added_downwards hevent (hnothing hevent) hraise hleads hitem execution hexecution).1
  constructor
  · by_cases hevent : event = ""
    · refine ⟨engine.compact, fun items _ => ?_⟩
      rw [handle?, deliver?, if_pos (by simp [hevent]), Option.map_some]
    · rcases hway with hblast | hraise
      · refine hengine.returns_of_rank hevent (fun slot => slot)
          (fun slot hslot => Nat.le_of_lt hslot) fun pass item hleads hitem execution hexecution => ?_
        have hadded := (hengine.added_upwards hevent (hnothing hevent) hblast hleads hitem
          execution hexecution).2
        exact ⟨hlength pass item hevent hleads hitem execution hexecution,
          fun sent hsent => (hadded sent hsent).2⟩
      · refine hengine.returns_of_rank hevent (fun slot => engine.hierarchy.size - slot)
          (fun slot _ => Nat.sub_le _ slot) fun pass item hleads hitem execution hexecution => ?_
        have hadded := (hengine.added_downwards hevent (hnothing hevent) hraise hleads hitem
          execution hexecution).2
        refine ⟨hlength pass item hevent hleads hitem execution hexecution, fun sent hsent => ?_⟩
        have hslots := hadded sent hsent
        omega
  · intro pass item hevent hleads hitem
    obtain ⟨layer, hlayer⟩ := (hengine.resting hevent hleads).exists_layer hitem
    refine ⟨_, _, Pass.step?_of_layer? hitem hlayer, Pass.queue_walked hitem hlayer,
      Pass.length_flatMap_sends_le (hlength pass item hevent hleads hitem), fun hblast => ?_,
      fun hraise sent hsent => ?_⟩
    · have hadded := hengine.added_upwards hevent (hnothing hevent) hblast hleads hitem
      refine ⟨?_, fun sent hsent => ?_⟩
      · have hone := Pass.length_flatMap_sends_le fun execution hexecution =>
          (hadded execution hexecution).1
        rwa [Nat.mul_one] at hone
      · obtain ⟨execution, hexecution, hmem⟩ := List.mem_flatMap.mp hsent
        exact (hadded execution hexecution).2 sent hmem
    · obtain ⟨execution, hexecution, hmem⟩ := List.mem_flatMap.mp hsent
      exact (hengine.added_downwards hevent (hnothing hevent) hraise hleads hitem execution
        hexecution).2 sent hmem

/-- The engine that runs the reporting library from its beginning. -/
def reporting : Engine :=
  (create Config.default).restart Library.reporting

/-- When the child of the reporting library is there and the event "finish" is handled, nothing is
started. The walk of the child adds one item, for the root. -/
theorem one_way_passes_return_of_reporting :
    ∃ (engine : Engine) (pass next : Pass), engine.Reachable ∧ engine.size = 2 ∧
      engine.StartsNothing "finish" none 0 ∧ engine.Avoids .blast ∧
      Pass.Leads (engine.surroundings 0) (engine.beginPass "finish" none) pass ∧
      pass.next? = some ⟨"finish", 1⟩ ∧ pass.step? (engine.surroundings 0) = some next ∧
      next.queue.toList = pass.queue.toList ++ [⟨"done", 0⟩] ∧
      ∃ last, ∀ items, engine.workBound ≤ items →
        engine.handle? items "finish" none 0 = some last := by
  have hrun : (reporting.act? compact 10 (.handle "go" none 0)).any fun engine =>
      engine.size == 2 && decide (engine.Avoids .blast) &&
      ((engine.beginPass "finish" none).drain? (engine.surroundings 0) 10).any
        (·.hierarchy.size == engine.hierarchy.size) &&
      ((engine.beginPass "finish" none).step? (engine.surroundings 0)).any fun pass =>
        pass.next? == some ⟨"finish", 1⟩ &&
        (pass.step? (engine.surroundings 0)).any fun next =>
          next.queue.toList == pass.queue.toList ++ [⟨"done", 0⟩] := by
    decide +kernel
  obtain ⟨engine, hgo, hrest⟩ := (Option.any_eq_true ..).mp hrun
  simp only [Bool.and_eq_true, beq_iff_eq, decide_eq_true_eq] at hrest
  obtain ⟨⟨⟨hsize, hblast⟩, hreturns⟩, hsteps⟩ := hrest
  obtain ⟨returned, hdrain, hkept⟩ := (Option.any_eq_true ..).mp hreturns
  obtain ⟨pass, hfirst, hwalk⟩ := (Option.any_eq_true ..).mp hsteps
  obtain ⟨hitem, hnext⟩ := Bool.and_eq_true_iff.mp hwalk
  obtain ⟨next, hstep, hqueue⟩ := (Option.any_eq_true ..).mp hnext
  have hengine : engine.Reachable :=
    .act (reachable_restart Config.default Library.reporting) hgo
  have hnothing : engine.StartsNothing "finish" none 0 :=
    hengine.startsNothing_of_drain? (by decide) hdrain (beq_iff_eq.mp hkept)
  obtain ⟨hreturns, _⟩ := one_way_passes_return hengine (.inr hnothing) (.inl hblast)
  exact ⟨engine, pass, next, hengine, hsize, hnothing, hblast, .single hfirst, beq_iff_eq.mp hitem,
    hstep, beq_iff_eq.mp hqueue, hreturns⟩

end Engine

end LayeredMachines
