import LayeredMachines.Proofs.Text.Caseless
import LayeredMachines.Timer.Queue

/-!
# Adding timers and taking them back

A timer that is added takes the place of the one that it stands for, and is put behind all pending
timers that are not due after it. This file states where it stands then, which timer is due next,
and what is left of it when it is taken back.
-/

namespace LayeredMachines

namespace Timer

variable {timer other third : Timer}

theorem sameKey_iff : timer.sameKey other = true ↔
    timer.target = other.target ∧ caselessEq timer.event other.event = true := by
  simp [sameKey]

@[simp] theorem sameKey_refl (timer : Timer) : timer.sameKey timer = true := by
  simp [sameKey]

theorem sameKey_comm (timer other : Timer) : timer.sameKey other = other.sameKey timer := by
  rw [Bool.eq_iff_iff, sameKey_iff, sameKey_iff, caselessEq_comm, eq_comm]

/-- Timers that stand for each other stand for the same timers. -/
theorem sameKey_congr_left (hsame : timer.sameKey other = true) (third : Timer) :
    timer.sameKey third = other.sameKey third := by
  obtain ⟨htarget, hevent⟩ := sameKey_iff.mp hsame
  rw [sameKey, sameKey, htarget, caselessEq_congr_left hevent]

end Timer

/-! ### Lists in the order of their deadlines -/

section Between

variable {α : Type} {l : List α} {a : α} {p : α → Bool} {R : α → α → Prop}

/-- An entry between the entries at the front that have a property and all others is in order if it
is in order with both. -/
theorem pairwise_between (hl : l.Pairwise R) (hfront : ∀ b ∈ l.takeWhile p, R b a)
    (hback : ∀ b ∈ l.dropWhile p, R a b) :
    (l.takeWhile p ++ a :: l.dropWhile p).Pairwise R := by
  have hsplit := l.takeWhile_append_dropWhile (p := p)
  rw [← hsplit] at hl
  obtain ⟨htake, hdrop, hacross⟩ := List.pairwise_append.mp hl
  refine List.pairwise_append.mpr ⟨htake, List.pairwise_cons.mpr ⟨hback, hdrop⟩, ?_⟩
  intro b hb c hc
  rcases List.mem_cons.mp hc with rfl | hmem
  · exact hfront b hb
  · exact hacross b hb c hmem

/-- In a sorted list nothing up to a bound comes after an entry beyond it. -/
theorem lt_of_mem_dropWhile {key : α → Int} {bound : Int}
    (hsorted : l.Pairwise fun a b => key a ≤ key b) {b : α}
    (hb : b ∈ l.dropWhile fun a => decide (key a ≤ bound)) : bound < key b := by
  induction l with
  | nil => simp at hb
  | cons first rest ih =>
    obtain ⟨hfirst, hrest⟩ := List.pairwise_cons.mp hsorted
    by_cases hle : key first ≤ bound
    · rw [List.dropWhile_cons_of_pos (by simpa using hle)] at hb
      exact ih hrest hb
    · rw [List.dropWhile_cons_of_neg (by simpa using hle)] at hb
      rcases List.mem_cons.mp hb with rfl | hmem
      · omega
      · have := hfirst b hmem
        omega

/-- If no two entries have a property, removing the first that has it leaves all the others. -/
theorem eraseP_eq_filter (hsingle : l.Pairwise fun a b => p a = true → p b = false) :
    l.eraseP p = l.filter (!p ·) := by
  induction l with
  | nil => rfl
  | cons first rest ih =>
    obtain ⟨hfirst, hrest⟩ := List.pairwise_cons.mp hsingle
    by_cases hp : p first = true
    · have hothers : rest.filter (!p ·) = rest :=
        List.filter_eq_self.mpr fun b hb => by rw [hfirst b hb hp, Bool.not_false]
      rw [List.eraseP_cons_of_pos hp, List.filter_cons_of_neg (by simp [hp]), hothers]
    · rw [List.eraseP_cons_of_neg hp, List.filter_cons_of_pos (by simp [hp]), ih hrest]

/-- If no two entries have a property, none has it once the first that has it is removed. -/
theorem not_of_mem_eraseP (hsingle : l.Pairwise fun a b => p a = true → p b = false) :
    ∀ b ∈ l.eraseP p, p b = false := by
  intro b hb
  rw [eraseP_eq_filter hsingle] at hb
  simpa using (List.mem_filter.mp hb).2

/-- Removing the first entry with a property changes nothing of those without it. -/
theorem filter_eraseP (p : α → Bool) (l : List α) :
    (l.eraseP p).filter (!p ·) = l.filter (!p ·) := by
  induction l with
  | nil => rfl
  | cons first rest ih =>
    cases hp : p first with
    | true => rw [List.eraseP_cons_of_pos hp, List.filter_cons_of_neg (by simp [hp])]
    | false =>
      rw [List.eraseP_cons_of_neg (by simp [hp]), List.filter_cons_of_pos (by simp [hp]),
        List.filter_cons_of_pos (by simp [hp]), ih]

/-- The first entry with a property and what is left without it are the whole list. -/
theorem perm_cons_eraseP (hfound : l.find? p = some a) : l.Perm (a :: l.eraseP p) := by
  obtain ⟨hp, front, back, rfl, hfront⟩ := List.find?_eq_some_iff_append.mp hfound
  have hnone : ∀ b ∈ front, ¬ p b = true := fun b hb => by simpa using hfront b hb
  rw [List.eraseP_append_right _ hnone, List.eraseP_cons_of_pos hp]
  exact List.perm_middle

/-- The first entry with a property, if there is one, and what is left without it are the whole
list. -/
theorem perm_find?_eraseP (p : α → Bool) (l : List α) :
    l.Perm ((l.find? p).toList ++ l.eraseP p) := by
  cases hfound : l.find? p with
  | none =>
    rw [List.eraseP_of_forall_not (List.find?_eq_none.mp hfound)]
    exact .refl l
  | some a => exact perm_cons_eraseP hfound

end Between

namespace TimerQueue

variable {queue : TimerQueue} {timer : Timer}

/-- A timer is put behind those at the front that are not due after it. -/
theorem insert_eq (timer : Timer) (pending : List Timer) :
    insert timer pending =
      (pending.takeWhile fun other => decide (other.deadline ≤ timer.deadline)) ++
        timer :: pending.dropWhile fun other => decide (other.deadline ≤ timer.deadline) := by
  induction pending with
  | nil => rfl
  | cons first rest ih =>
    unfold insert
    split
    · next hle => simp [hle, ih]
    · next hlt => simp [hlt]

/-- The pending timers are in the order of their deadlines. -/
def IsSorted (queue : TimerQueue) : Prop :=
  queue.pending.Pairwise (·.deadline ≤ ·.deadline)

/-- No pending timer is due before the first one. -/
theorem IsSorted.head_le (hsorted : queue.IsSorted) {first other : Timer}
    (hfirst : queue.pending.head? = some first) (hother : other ∈ queue.pending) :
    first.deadline ≤ other.deadline := by
  unfold IsSorted at hsorted
  obtain ⟨rest, hpending⟩ := List.head?_eq_some_iff.mp hfirst
  rw [hpending] at hsorted hother
  rcases List.mem_cons.mp hother with rfl | hmem
  · exact Int.le_refl _
  · exact (List.pairwise_cons.mp hsorted).1 other hmem

/-- What is due next after a timer is added is the timer, or was pending before. -/
theorem head?_schedule (queue : TimerQueue) (timer : Timer) :
    ∃ first, (queue.schedule timer).pending.head? = some first ∧
      (first = timer ∨ first ∈ queue.pending) := by
  have hmem : ∀ other ∈ (queue.schedule timer).pending, other = timer ∨ other ∈ queue.pending := by
    intro other hother
    rcases List.mem_cons.mp ((insert_perm timer _).mem_iff.mp hother) with heq | hkept
    · exact .inl heq
    · exact .inr (List.mem_of_mem_eraseP hkept)
  cases hpending : (queue.schedule timer).pending with
  | nil =>
    have hlength := (insert_perm timer (queue.pending.eraseP (·.sameKey timer))).length_eq
    rw [show insert timer (queue.pending.eraseP (·.sameKey timer)) = [] from hpending] at hlength
    simp at hlength
  | cons first rest => exact ⟨first, rfl, hmem first (hpending ▸ List.mem_cons_self)⟩

/-- A timer that is added and taken back is gone, and the one that it was added in place of is put
behind those that are not due after it. -/
theorem unschedule_schedule (queue : TimerQueue) (timer : Timer) :
    (queue.schedule timer).unschedule (queue.place timer) (queue.replaced? timer) =
      match queue.replaced? timer with
      | some old => ⟨insert old (queue.pending.eraseP (·.sameKey timer))⟩
      | none => queue := by
  have hrest : (queue.schedule timer).pending.eraseIdx (queue.place timer) =
      queue.pending.eraseP (·.sameKey timer) := by
    rw [schedule, insert_eq, place, List.eraseIdx_append_of_length_le (Nat.le_refl _), Nat.sub_self,
      List.eraseIdx_cons_zero, List.takeWhile_append_dropWhile]
  simp only [unschedule, hrest]
  cases hreplaced : queue.replaced? timer with
  | some old => rfl
  | none =>
    have hnone : ∀ other ∈ queue.pending, ¬ other.sameKey timer = true :=
      List.find?_eq_none.mp hreplaced
    rw [List.eraseP_of_forall_not hnone]

end TimerQueue

end LayeredMachines
