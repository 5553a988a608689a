import LayeredMachines.Proofs.Pass.Work
import Mathlib.Algebra.Group.Action.Defs
import Mathlib.Algebra.Order.BigOperators.Group.List
import Mathlib.Algebra.Order.Ring.Nat

/-!
# Passes that send events one way

As long as no layer is started, a walk can only add work for the layer above its own or for layers
below it. If all layers add work in the same direction, every work item is followed by boundedly
many others that are nearer to the end of the way. Counting each by a power of its distance from
there gives a number that goes down with every item, although the list may grow, and so the pass
returns.
-/

namespace LayeredMachines

/-- There are not more attached slots than slots. -/
theorem Hierarchy.length_attachedSlots_le (hierarchy : Hierarchy) :
    hierarchy.attachedSlots.length ≤ hierarchy.size := by
  have hfilter := List.length_filter_le hierarchy.isAttached (List.range hierarchy.size)
  rwa [List.length_range] at hfilter

namespace Pass

variable {around : Surroundings} {pass next last : Pass} {item sent : WorkItem} {layer : Layer}
  {execution : Execution Pass}

/-- The work that is still to be done. -/
def pendingWork (pass : Pass) : List WorkItem :=
  pass.queue.toList.drop pass.progress

/-- The work that is still to be done, each item counted by a power of the rank of its slot. -/
def weight (bound : Nat) (rank : Nat → Nat) (pass : Pass) : Nat :=
  (pass.pendingWork.map fun item => (bound + 1) ^ rank item.slot).sum

/-! ### What is added -/

/-- An execution of a walk that starts no layer sends an event to the layer above, or to the layers
below at that time, or adds no work. -/
theorem Resting.sends_cases (hpass : pass.Resting) (hitem : pass.next? = some item)
    (hlayer : pass.hierarchy.layer? item.slot = some layer)
    (hsize : (pass.walked around item layer).hierarchy.size = pass.hierarchy.size)
    (hexecution : execution ∈ pass.walkExecutions around) :
    execution.sends around item.slot = [] ∨
    (∃ event parent, ¬ layer.machine.Avoids .raise ∧
      pass.hierarchy.parent? item.slot = some parent ∧
      execution.sends around item.slot = [⟨event, parent⟩]) ∨
    ∃ event, ¬ layer.machine.Avoids .blast ∧ execution.world ∈ pass.walkStates around ∧
      execution.sends around item.slot =
        (execution.world.hierarchy.descendants item.slot).map (WorkItem.mk event) := by
  unfold Execution.sends
  cases hcall : execution.call? with
  | none => exact .inl rfl
  | some call =>
    have hmade := mem_walkCalls_of_mem_walkExecutions hitem hlayer hexecution hcall
    have hmid := (mem_walkStates_of_mem_walkCalls hitem hlayer hmade).1
    have hverb {builtin : Builtin} (hbuiltin : call.builtin? = some builtin) :
        ¬ layer.machine.Avoids builtin := fun havoids =>
      builtin?_ne_of_avoids hitem hlayer havoids hexecution hcall hbuiltin
    cases call with
    | start machine seed =>
      dsimp only [Surroundings.sent]
      split
      · next hattached =>
        cases hmachine : around.catalog.find? (·.isNamed machine) with
        | none => exact .inl rfl
        | some definition =>
          have hafter := (mem_walkStates_of_mem_walkCalls hitem hlayer hmade).2
          rw [handle_start seed hattached hmachine, walkStates_of_layer? hitem hlayer] at hafter
          rw [walkStates_of_layer? hitem hlayer] at hmid
          have hgrown := size_le_walked hafter
          have hold := (hpass.keepsOthers_of_mem_states hitem hmid).1.size_le
          rw [startLayer_eq, Hierarchy.size_attach, hsize] at hgrown
          omega
      · exact .inl rfl
    | raise event =>
      dsimp only [Surroundings.sent]
      split
      · have hslot := (hpass.isQueued item (Array.mem_of_getElem? hitem)).2
        rw [walkStates_of_layer? hitem hlayer] at hmid
        rw [(hpass.keepsOthers_of_mem_states hitem hmid).1.parent?_eq item.slot hslot]
        cases hparent : pass.hierarchy.parent? item.slot with
        | none => exact .inl rfl
        | some parent => exact .inr (.inl ⟨event, parent, hverb rfl, rfl, rfl⟩)
      · exact .inl rfl
    | blast event =>
      dsimp only [Surroundings.sent]
      split
      · exact .inl rfl
      · exact .inr (.inr ⟨event, hverb rfl, hmid, rfl⟩)
    | _ => exact .inl rfl

/-- A walk that starts no layer leaves the number of records as it is. -/
theorem size_walked_of_avoids (hitem : pass.next? = some item)
    (hlayer : pass.hierarchy.layer? item.slot = some layer)
    (hstart : layer.machine.Avoids .start) :
    (pass.walked around item layer).hierarchy.size = pass.hierarchy.size := by
  have hbegin := Program.start_mem_states (around.handle item.slot layer.id)
    (around.walk item layer) (pass.beginWalk item layer)
  have hgrows := size_le_walked hbegin
  rw [beginWalk, notify, Hierarchy.size_take] at hgrows
  by_contra hne
  obtain ⟨execution, machine, hstarts, _⟩ :=
    exists_starts_of_walked hitem hlayer (Nat.le_refl _) (Nat.lt_of_le_of_ne hgrows (Ne.symm hne))
  obtain ⟨name, seed, hcall, _⟩ := hstarts.exists_call
  exact builtin?_ne_of_avoids hitem hlayer hstart hstarts.mem_walkExecutions hcall rfl

/-- Where nothing is sent downwards, each execution adds work for the layer above at most once. -/
theorem Resting.sends_upwards (hpass : pass.Resting) (hitem : pass.next? = some item)
    (hlayer : pass.hierarchy.layer? item.slot = some layer)
    (hsize : (pass.walked around item layer).hierarchy.size = pass.hierarchy.size)
    (hblast : layer.machine.Avoids .blast)
    (hexecution : execution ∈ pass.walkExecutions around) :
    (execution.sends around item.slot).length ≤ 1 ∧
      ∀ sent ∈ execution.sends around item.slot,
        pass.hierarchy.parent? item.slot = some sent.slot := by
  rcases hpass.sends_cases hitem hlayer hsize hexecution with
    hnone | ⟨event, parent, _, hparent, hsends⟩ | ⟨event, hverb, _⟩
  · simp [hnone]
  · rw [hsends]
    refine ⟨Nat.le_refl 1, fun sent hsent => ?_⟩
    rw [List.mem_singleton.mp hsent, hparent]
  · exact absurd hblast hverb

/-- Where nothing is sent upwards, each execution adds work at most once for each layer below. -/
theorem Resting.sends_downwards (hpass : pass.Resting) (hitem : pass.next? = some item)
    (hlayer : pass.hierarchy.layer? item.slot = some layer)
    (hsize : (pass.walked around item layer).hierarchy.size = pass.hierarchy.size)
    (hraise : layer.machine.Avoids .raise)
    (hexecution : execution ∈ pass.walkExecutions around) :
    (execution.sends around item.slot).length ≤ pass.hierarchy.size ∧
      ∀ sent ∈ execution.sends around item.slot,
        item.slot < sent.slot ∧ sent.slot < pass.hierarchy.size := by
  rcases hpass.sends_cases hitem hlayer hsize hexecution with
    hnone | ⟨event, parent, hverb, _⟩ | ⟨event, _, hmid, hsends⟩
  · simp [hnone]
  · exact absurd hraise hverb
  · rw [walkStates_of_layer? hitem hlayer] at hmid
    have hgrown := size_le_walked hmid
    rw [hsize] at hgrown
    rw [hsends]
    constructor
    · rw [List.length_map]
      have hslots := execution.world.hierarchy.length_attachedSlots_le
      exact Nat.le_trans (List.length_filter_le _ _) (Nat.le_trans hslots hgrown)
    · intro sent hsent
      obtain ⟨below, hbelow, rfl⟩ := List.mem_map.mp hsent
      obtain ⟨hattached, habove⟩ := Hierarchy.mem_descendants.mp hbelow
      exact ⟨Hierarchy.lt_of_mem_ancestors habove,
        Nat.lt_of_lt_of_le (Hierarchy.lt_size_of_isAttached hattached) hgrown⟩

/-- If every execution adds boundedly much, so does a walk. -/
theorem length_flatMap_sends_le {slot bound : Nat}
    (hsends : ∀ execution ∈ pass.walkExecutions around,
      (execution.sends around slot).length ≤ bound) :
    ((pass.walkExecutions around).flatMap (Execution.sends around slot)).length ≤
      (2 * around.config.maxFollowOn + 1) * bound := by
  rw [List.length_flatMap]
  have hsum := List.sum_le_card_nsmul
    ((pass.walkExecutions around).map fun execution => (execution.sends around slot).length) bound
    fun n hn => by
      obtain ⟨execution, hexecution, rfl⟩ := List.mem_map.mp hn
      exact hsends execution hexecution
  rw [List.length_map, smul_eq_mul] at hsum
  exact Nat.le_trans hsum (Nat.mul_le_mul_right bound (length_walkExecutions_le around pass))

/-! ### The weight goes down -/

/-- Boundedly many items of lower ranks weigh less than one. -/
theorem sum_pow_lt {bound rank : Nat} {ranks : List Nat} (hlength : ranks.length ≤ bound)
    (hranks : ∀ lower ∈ ranks, lower < rank) :
    (ranks.map fun lower => (bound + 1) ^ lower).sum < (bound + 1) ^ rank := by
  cases rank with
  | zero =>
    have hnone : ranks = [] :=
      List.eq_nil_iff_forall_not_mem.mpr fun lower hlower => Nat.not_lt_zero lower (hranks lower hlower)
    simp [hnone]
  | succ rank =>
    have hsum := List.sum_le_card_nsmul (ranks.map fun lower => (bound + 1) ^ lower)
      ((bound + 1) ^ rank) fun n hn => by
        obtain ⟨lower, hlower, rfl⟩ := List.mem_map.mp hn
        exact Nat.pow_le_pow_right (Nat.succ_pos bound) (Nat.le_of_lt_succ (hranks lower hlower))
    rw [List.length_map, smul_eq_mul] at hsum
    calc (ranks.map fun lower => (bound + 1) ^ lower).sum
        ≤ ranks.length * (bound + 1) ^ rank := hsum
      _ ≤ bound * (bound + 1) ^ rank := Nat.mul_le_mul_right _ hlength
      _ < (bound + 1) ^ rank * (bound + 1) := by
          rw [Nat.mul_succ, Nat.mul_comm bound]
          exact Nat.lt_add_of_pos_right (Nat.pow_pos (Nat.succ_pos bound))
      _ = (bound + 1) ^ (rank + 1) := (Nat.pow_succ ..).symm

/-- Processing a work item takes it from the pending work and adds what its walk adds. -/
theorem pendingWork_walked (hitem : pass.next? = some item)
    (hlayer : pass.hierarchy.layer? item.slot = some layer) :
    ∃ rest, pass.pendingWork = item :: rest ∧
      (pass.walked around item layer).pendingWork =
        rest ++ (pass.walkExecutions around).flatMap (Execution.sends around item.slot) := by
  obtain ⟨hlt, hget⟩ := Array.getElem?_eq_some_iff.mp hitem
  refine ⟨pass.queue.toList.drop (pass.progress + 1), ?_, ?_⟩
  · rw [pendingWork, List.drop_eq_getElem_cons (by simpa using hlt), Array.getElem_toList, hget]
  · rw [pendingWork, progress_walked, queue_walked hitem hlayer, List.drop_append_of_le_length]
    rwa [Array.length_toList]

/-- The weight goes down where a walk adds boundedly many items of lower ranks. -/
theorem weight_walked_lt {bound : Nat} {rank : Nat → Nat} (hitem : pass.next? = some item)
    (hlayer : pass.hierarchy.layer? item.slot = some layer)
    (hlength : ((pass.walkExecutions around).flatMap
      (Execution.sends around item.slot)).length ≤ bound)
    (hranks : ∀ execution ∈ pass.walkExecutions around,
      ∀ sent ∈ execution.sends around item.slot, rank sent.slot < rank item.slot) :
    (pass.walked around item layer).weight bound rank < pass.weight bound rank := by
  obtain ⟨rest, hbefore, hafter⟩ : ∃ rest, pass.pendingWork = item :: rest ∧
      (pass.walked around item layer).pendingWork = _ := pendingWork_walked hitem hlayer
  rw [weight, weight, hbefore, hafter, List.map_append, List.sum_append, List.map_cons, List.sum_cons,
    Nat.add_comm]
  generalize hadded : (pass.walkExecutions around).flatMap (Execution.sends around item.slot) = added
    at hlength
  have hlower : ∀ lower ∈ added.map fun sent => rank sent.slot, lower < rank item.slot := by
    intro lower hlower
    obtain ⟨sent, hsent, rfl⟩ := List.mem_map.mp hlower
    rw [← hadded] at hsent
    obtain ⟨execution, hexecution, hmem⟩ := List.mem_flatMap.mp hsent
    exact hranks execution hexecution sent hmem
  have hranksLength : (added.map fun sent => rank sent.slot).length ≤ bound := by
    rwa [List.length_map]
  have hsum := sum_pow_lt hranksLength hlower
  rw [List.map_map] at hsum
  exact Nat.add_lt_add_right hsum _

/-- A pass returns, with the same end whatever number of items it may have, if some number goes down
with every item. -/
theorem exists_drain? {holds : Pass → Prop} (size : Pass → Nat)
    (hstep : ∀ pass next, holds pass → pass.step? around = some next →
      holds next ∧ size next < size pass) (hpass : holds pass) :
    ∃ last, ∀ items, size pass ≤ items → pass.drain? around items = some last := by
  induction hsize : size pass using Nat.strongRecOn generalizing pass with
  | ind n ih =>
    cases hnext : pass.step? around with
    | none =>
      refine ⟨pass, fun items _ => ?_⟩
      cases items <;> simp [drain?, hnext]
    | some next =>
      obtain ⟨hholds, hlt⟩ := hstep pass next hpass hnext
      obtain ⟨last, hlast⟩ := ih (size next) (hsize ▸ hlt) hholds rfl
      refine ⟨last, fun items hitems => ?_⟩
      cases items with
      | zero => omega
      | succ items =>
        simp only [drain?, hnext]
        exact hlast items (by omega)

end Pass

end LayeredMachines
