import LayeredMachines.Proofs.Layer.Renaming
import LayeredMachines.Proofs.Timer.Queue
import Mathlib.Data.List.Perm.Basic

/-!
# The same timers under other names and at other times

Timers that are registered at other times have other deadlines, and may therefore stand in another
order. Which of them are pending does not depend on the order, as no two of them stand for each
other: a new timer takes the place of its one predecessor, wherever that is.
-/

namespace LayeredMachines

variable {ρ : Renaming}

/-- The same event for layers with corresponding identities, at corresponding deadlines. -/
structure Timer.Renames (ρ : Renaming) (timer other : Timer) : Prop where
  target : ρ.id timer.target other.target
  event_eq : other.event = timer.event
  deadline : ρ.deadline timer.deadline other.deadline

/-- Timers stand for each other if the timers that correspond to them do. -/
theorem Timer.Renames.sameKey_eq {timer other third fourth : Timer}
    (h : timer.Renames ρ other) (hthird : third.Renames ρ fourth) :
    other.sameKey fourth = timer.sameKey third := by
  have htarget : other.target = fourth.target ↔ timer.target = third.target :=
    (Relator.rel_eq ρ.biUnique_id h.target hthird.target).symm
  rw [Bool.eq_iff_iff, sameKey_iff, sameKey_iff, htarget, h.event_eq, hthird.event_eq]

namespace TimerQueue

variable {queue left right : TimerQueue} {timer other : Timer}

/-- No two pending timers stand for each other. -/
def IsSingle (queue : TimerQueue) : Prop :=
  queue.pending.Pairwise fun timer other => timer.sameKey other = false

/-- What is pending once a timer is added: the timer, and all that it does not stand for. -/
theorem IsSingle.schedule_perm (h : queue.IsSingle) (timer : Timer) :
    (queue.schedule timer).pending.Perm
      (timer :: queue.pending.filter fun other => !other.sameKey timer) := by
  have hkept : queue.pending.eraseP (·.sameKey timer) =
      queue.pending.filter fun other => !other.sameKey timer := by
    unfold IsSingle at h
    generalize queue.pending = pending at h
    induction pending with
    | nil => rfl
    | cons first rest ih =>
      obtain ⟨hfirst, hrest⟩ := List.pairwise_cons.mp h
      cases hsame : first.sameKey timer with
      | true =>
        -- What `timer` stands for is what `first` stands for, and that is nothing else.
        have hothers : ∀ other ∈ rest, (!other.sameKey timer) = true := fun other hother => by
          rw [Timer.sameKey_comm, ← Timer.sameKey_congr_left hsame, hfirst other hother,
            Bool.not_false]
        simp [hsame, List.filter_eq_self.mpr hothers]
      | false => simp [hsame, ih hrest]
  exact hkept ▸ insert_perm timer _

/-- Adding a timer in place of the one that it stands for leaves no two that stand for each
other. -/
theorem IsSingle.schedule (h : queue.IsSingle) (timer : Timer) :
    (queue.schedule timer).IsSingle := by
  have hcomm {a b : Timer} (hab : a.sameKey b = false) : b.sameKey a = false :=
    (Timer.sameKey_comm b a).trans hab
  refine ((h.schedule_perm timer).pairwise_iff hcomm).mpr (List.pairwise_cons.mpr ⟨?_, h.filter _⟩)
  intro other hother
  rw [Timer.sameKey_comm]
  simpa using (List.mem_filter.mp hother).2

/-- The same timers are pending, in whatever order. -/
structure Renames (ρ : Renaming) (left right : TimerQueue) : Prop where
  left_single : left.IsSingle
  right_single : right.IsSingle
  pending : ∃ middle, List.Forall₂ (Timer.Renames ρ) left.pending middle ∧
    middle.Perm right.pending

namespace Renames

theorem empty : Renames ρ TimerQueue.empty TimerQueue.empty :=
  ⟨.nil, .nil, [], .nil, .refl _⟩

/-- The same timer may be added. -/
theorem schedule (h : left.Renames ρ right) (htimer : timer.Renames ρ other) :
    (left.schedule timer).Renames ρ (right.schedule other) := by
  obtain ⟨middle, hrenames, hperm⟩ := h.pending
  have hkept : List.Forall₂ (Timer.Renames ρ) (left.pending.filter fun old => !old.sameKey timer)
      (middle.filter fun old => !old.sameKey other) :=
    List.rel_filter (fun _ _ hold => by simp only [hold.sameKey_eq htimer]) hrenames
  have hleft := h.left_single.schedule_perm timer
  have hright := h.right_single.schedule_perm other
  obtain ⟨between, hbetween, hlast⟩ := List.perm_comp_forall₂ hleft (.cons htimer hkept)
  exact ⟨h.left_single.schedule timer, h.right_single.schedule other, between, hbetween,
    hlast.trans (((hperm.filter _).cons other).trans hright.symm)⟩

end Renames

end TimerQueue

end LayeredMachines
