import LayeredMachines.Proofs.Timer.Ledger
import Mathlib.Data.List.Induction

/-!
# The queue after any operations

Timers are added to the queue, the first one is taken off, and all are dropped, in any order and as
often as one likes. The place of a timer that is added is found by halving, which is right only in a
sorted list. This file shows that the queue is always sorted, that timers with the same deadline
stand in the order of their latest registrations, and that adding a timer touches no others than
the one that it stands for.
-/

namespace LayeredMachines

/-! ### Halving -/

section Halving

variable {α : Type} {p : α → Bool}

/-- The number of entries with a property at the front of a list, if no other entry has it: the
entry in the middle says in which half to go on. -/
def partitionPoint (p : α → Bool) (list : List α) : Nat :=
  if h : 0 < list.length then
    let half := list.length / 2
    if p list[half] then half + 1 + partitionPoint p (list.drop (half + 1))
    else partitionPoint p (list.take half)
  else 0
termination_by list.length

/-- The middle of a list that is not empty says in which half to go on. -/
theorem partitionPoint_of_half {list : List α} {half : Nat} (hhalf : half = list.length / 2)
    (hlt : half < list.length) :
    partitionPoint p list =
      if p list[half] then half + 1 + partitionPoint p (list.drop (half + 1))
      else partitionPoint p (list.take half) := by
  subst hhalf
  have hpos : 0 < list.length := by omega
  rw [partitionPoint, dif_pos hpos]

/-- Halving finds where the entries with a property end, if none comes after an entry without it. -/
theorem partitionPoint_append {front back : List α} (hfront : ∀ a ∈ front, p a = true)
    (hback : ∀ a ∈ back, p a = false) : partitionPoint p (front ++ back) = front.length := by
  induction hlength : (front ++ back).length using Nat.strongRecOn generalizing front back with
  | ind length ih =>
    subst hlength
    by_cases hpos : 0 < (front ++ back).length
    · obtain ⟨half, hhalf⟩ : ∃ half, half = (front ++ back).length / 2 := ⟨_, rfl⟩
      have hlt : half < (front ++ back).length := by omega
      rw [partitionPoint_of_half hhalf hlt]
      by_cases hplace : half < front.length
      · -- The middle is in the front part, and what follows it is split like the whole.
        have hmiddle : p (front ++ back)[half] = true := by
          rw [List.getElem_append_left hplace]
          exact hfront _ (List.getElem_mem hplace)
        have hrest : (front ++ back).drop (half + 1) = front.drop (half + 1) ++ back :=
          List.drop_append_of_le_length hplace
        rw [if_pos hmiddle, hrest, ih _ ?_ ?_ hback rfl, List.length_drop]
        · omega
        · rw [← hrest, List.length_drop]
          omega
        · exact fun a ha => hfront a (List.mem_of_mem_drop ha)
      · have hmiddle : ¬ p (front ++ back)[half] = true := by
          rw [List.getElem_append_right (Nat.not_lt.mp hplace)]
          simp [hback _ (List.getElem_mem _)]
        have hrest : (front ++ back).take half = front ++ back.take (half - front.length) := by
          rw [List.take_append, List.take_of_length_le (Nat.not_lt.mp hplace)]
        rw [if_neg hmiddle, hrest, ih _ ?_ hfront ?_ rfl]
        · rw [← hrest, List.length_take]
          omega
        · exact fun a ha => hback a (List.mem_of_mem_take ha)
    · have hempty : front ++ back = [] := List.eq_nil_of_length_eq_zero (by omega)
      rw [partitionPoint, dif_neg hpos, (List.append_eq_nil_iff.mp hempty).1, List.length_nil]

end Halving

namespace TimerQueue

/-! ### Operations -/

/-- What is done to a queue. -/
inductive Operation where
  /-- A timer is added. -/
  | add (timer : Timer)
  /-- The timer that is due next is taken off, if there is one. -/
  | takeFirst
  /-- All timers are dropped. -/
  | clear
  deriving DecidableEq

/-- The timer that an operation adds. -/
def Operation.timer? : Operation → Option Timer
  | .add timer => some timer
  | .takeFirst | .clear => none

/-- The queue after an operation. -/
def apply (queue : TimerQueue) : Operation → TimerQueue
  | .add timer => queue.schedule timer
  | .takeFirst =>
    match queue.next? with
    | some (_, rest) => rest
    | none => queue
  | .clear => empty

/-- The queue after some operations, which was empty before. -/
def after (operations : List Operation) : TimerQueue :=
  operations.foldl apply empty

/-- The registrations among some operations, with their numbers. -/
def registrations (operations : List Operation) : List Registration :=
  (operations.filterMap Operation.timer?).zipIdx.map fun (timer, number) => ⟨number, timer, true⟩

/-- The latest registration for the target and event of a timer among some operations. -/
def latest? (operations : List Operation) (timer : Timer) : Option Registration :=
  Registration.latest? (registrations operations) timer

variable {queue : TimerQueue} {operations : List Operation} {timer : Timer}

/-- Only an operation that adds a timer is a registration, and it is numbered next. -/
theorem registrations_concat (operations : List Operation) (operation : Operation) :
    registrations (operations ++ [operation]) =
      registrations operations ++ operation.timer?.toList.map fun timer =>
        ⟨(registrations operations).length, timer, true⟩ := by
  unfold registrations
  rw [List.filterMap_append, List.zipIdx_append, List.map_append, List.length_map,
    List.length_zipIdx, Nat.zero_add]
  cases operation <;> rfl

theorem after_concat (operations : List Operation) (operation : Operation) :
    after (operations ++ [operation]) = (after operations).apply operation := by
  rw [after, List.foldl_append, ← after]
  rfl

/-- All registrations among operations succeed. -/
theorem succeeded_of_mem_registrations {entry : Registration}
    (hentry : entry ∈ registrations operations) : entry.succeeded = true := by
  obtain ⟨numbered, _, rfl⟩ := List.mem_map.mp hentry
  rfl

/-- Whatever is done to a queue, there is a ledger of it with the registrations among the
operations. -/
theorem exists_ledger (operations : List Operation) :
    ∃ ledger : Ledger, ledger.Fits (after operations) ∧
      ledger.registrations = registrations operations := by
  induction operations using List.reverseRecOn with
  | nil => exact ⟨.empty, Ledger.fits_empty, rfl⟩
  | append_singleton operations operation ih =>
    obtain ⟨ledger, hfits, hregistrations⟩ := ih
    rw [after_concat, registrations_concat, ← hregistrations]
    cases operation with
    | add timer => exact ⟨ledger.accept timer, hfits.accept timer, rfl⟩
    | takeFirst =>
      have hqueue := hfits.map_timer
      cases hpending : ledger.pending with
      | nil =>
        have hnone : (after operations).apply .takeFirst = after operations := by
          simp [apply, next?, ← hqueue, hpending]
        rw [hnone]
        exact ⟨ledger, hfits, (List.append_nil _).symm⟩
      | cons first rest =>
        have hrest : (after operations).apply .takeFirst = ⟨rest.map Registration.timer⟩ := by
          simp [apply, next?, ← hqueue, hpending]
        rw [hrest]
        exact ⟨_, hfits.fire hpending, (List.append_nil _).symm⟩
    | clear => exact ⟨_, hfits.clear, (List.append_nil _).symm⟩

/-! ### Adding one more timer -/

/-- Of timers none of which stands for another at most one stands for a given one. -/
theorem pairwise_sameKey
    (hdistinct : queue.pending.Pairwise fun first next => first.sameKey next = false)
    (timer : Timer) :
    queue.pending.Pairwise fun first next =>
      first.sameKey timer = true → next.sameKey timer = false := by
  refine hdistinct.imp fun {first next} hne hfirst => ?_
  rw [Timer.sameKey_comm, ← Timer.sameKey_congr_left hfirst]
  exact hne

/-- A timer that is added to a sorted queue divides the others into those that are not due after it
and those that are. -/
theorem exists_schedule_eq (hsorted : queue.IsSorted) (timer : Timer) :
    ∃ front back, queue.pending.eraseP (·.sameKey timer) = front ++ back ∧
      (queue.schedule timer).pending = front ++ timer :: back ∧
      (∀ other ∈ front, other.deadline ≤ timer.deadline) ∧
      ∀ other ∈ back, timer.deadline < other.deadline := by
  refine ⟨_, _, List.takeWhile_append_dropWhile.symm, insert_eq timer _, ?_, ?_⟩
  · intro other hother
    simpa using List.all_eq_true.mp List.all_takeWhile other hother
  · intro other hother
    exact lt_of_mem_dropWhile (hsorted.sublist List.eraseP_sublist) hother

/-- A timer that is added to a sorted queue of distinct timers removes the one that it stands for, if
there is one, and is put among the others where halving finds that they are due after it. -/
theorem schedule_eq_of_distinct (hsorted : queue.IsSorted)
    (hdistinct : queue.pending.Pairwise fun first next => first.sameKey next = false)
    (timer : Timer) :
    let others := queue.pending.filter (!·.sameKey timer)
    let place := partitionPoint (fun other => decide (other.deadline ≤ timer.deadline)) others
    queue.pending.Perm ((queue.replaced? timer).toList ++ others) ∧
      (queue.schedule timer).pending = others.take place ++ timer :: others.drop place ∧
      (∀ other ∈ others.take place, other.deadline ≤ timer.deadline) ∧
      ∀ other ∈ others.drop place, timer.deadline < other.deadline := by
  intro others place
  have hothers : queue.pending.eraseP (·.sameKey timer) = others :=
    eraseP_eq_filter (pairwise_sameKey hdistinct timer)
  obtain ⟨front, back, hsplit, hschedule, hfront, hback⟩ := exists_schedule_eq hsorted timer
  rw [hothers] at hsplit
  have hplace : place = front.length := by
    have hfound := partitionPoint_append
      (p := fun other : Timer => decide (other.deadline ≤ timer.deadline))
      (fun other hother => decide_eq_true (hfront other hother))
      (fun other hother => decide_eq_false (Int.not_le.mpr (hback other hother)))
    rwa [← hsplit] at hfound
  have hperm : queue.pending.Perm ((queue.replaced? timer).toList ++ others) := by
    rw [← hothers]
    exact perm_find?_eraseP _ _
  rw [hplace]
  refine ⟨hperm, ?_, ?_, ?_⟩
  · rw [hsplit, List.take_left, List.drop_left]
    exact hschedule
  · rw [hsplit, List.take_left]
    exact hfront
  · rw [hsplit, List.drop_left]
    exact hback

/-- Whatever is done to a queue, the deadlines do not decrease from one timer to the next. Each
timer is pending as it was registered last, timers with the same deadline stand in the order of
their latest registrations, and no two timers have the same target and the same event up to case. A
timer that is added removes the one with the same target and event, if there is one, and is put
among the others in the place that halving finds, behind all those that are not due after it; the
others stay in their order. -/
theorem queue_is_sorted_and_stable (operations : List Operation) :
    let queue := after operations
    let latest? := latest? operations
    (queue.pending.Pairwise fun first next => first.deadline ≤ next.deadline) ∧
    (∀ timer ∈ queue.pending, ∃ entry, latest? timer = some entry ∧ entry.timer = timer) ∧
    (queue.pending.Pairwise fun first next => first.deadline = next.deadline →
      ∀ a b, latest? first = some a → latest? next = some b → a.number < b.number) ∧
    (queue.pending.Pairwise fun first next =>
      ¬ (first.target = next.target ∧ caselessEq first.event next.event = true)) ∧
    ∀ timer,
      let others := queue.pending.filter (!·.sameKey timer)
      let place := partitionPoint (fun other => decide (other.deadline ≤ timer.deadline)) others
      queue.pending.Perm ((queue.replaced? timer).toList ++ others) ∧
      (queue.schedule timer).pending = others.take place ++ timer :: others.drop place ∧
      (∀ other ∈ others.take place, other.deadline ≤ timer.deadline) ∧
      ∀ other ∈ others.drop place, timer.deadline < other.deadline := by
  intro queue latest?
  obtain ⟨ledger, hfits, hregistrations⟩ := exists_ledger operations
  have hpending : queue.pending = ledger.pending.map Registration.timer := hfits.map_timer.symm
  have hordered := hfits.ordered
  have hnumbered := hfits.pairwise_number_lt
  rw [hregistrations] at hordered hnumbered
  have hdistinct : queue.pending.Pairwise fun first next => first.sameKey next = false := by
    rw [hpending, List.pairwise_map]
    exact hfits.distinct
  refine ⟨hfits.isSorted, ?_, ?_, ?_, schedule_eq_of_distinct hfits.isSorted hdistinct⟩
  · intro timer htimer
    rw [hpending] at htimer
    obtain ⟨entry, hentry, rfl⟩ := List.mem_map.mp htimer
    obtain ⟨last, hlast, hcases⟩ := hfits.exists_latest hentry
    rw [hregistrations] at hlast
    have hsucceeded := succeeded_of_mem_registrations (Registration.mem_of_latest? hlast)
    rcases hcases with rfl | hfailed
    · exact ⟨last, hlast, rfl⟩
    · exact absurd (hfailed.symm.trans hsucceeded) Bool.false_ne_true
  · rw [hpending, List.pairwise_map]
    exact hordered.imp fun hbefore hsame a b => hbefore.latest_number_lt hnumbered hsame
  · refine hdistinct.imp fun {first next} hne hsame => ?_
    exact absurd (Timer.sameKey_iff.mpr hsame) (by simp [hne])

/-- A timer that is registered anew comes after one with the same deadline that it stood before. -/
example :
    (after [.add ⟨⟨0⟩, "tick", 10⟩, .add ⟨⟨1⟩, "tick", 10⟩, .add ⟨⟨0⟩, "TICK", 10⟩]).pending =
      [⟨⟨1⟩, "tick", 10⟩, ⟨⟨0⟩, "TICK", 10⟩] := by
  decide +kernel

end TimerQueue

end LayeredMachines
