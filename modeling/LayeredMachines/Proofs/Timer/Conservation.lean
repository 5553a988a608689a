import LayeredMachines.Proofs.Timer.Ledger
import LayeredMachines.Proofs.Timer.Steps

/-!
# Timers are neither lost nor duplicated

However registrations, workers and the clock take turns, every registration that has succeeded is
pending, or its timer has been fired, replaced or dropped, and only one of these. A timer is fired
when it is due and no other one has an earlier deadline. Timers with the same deadline are fired in
the order of their registrations, but for those that a registration that failed has put behind
others.
-/

namespace LayeredMachines.Ledger

variable {ledger : Ledger} {set next : TimerSet} {action : TimerSet.Action}

/-! ### One step -/

/-- A worker that looks at the pending timers takes the first one if that is due, and begins to fire
it. Otherwise it takes none. -/
theorem Fits.look_cases (hfits : ledger.Fits set.queue) (worker : Nat) (now : Int) :
    (ledger.look now = ledger ∧ (set.look worker now).queue = set.queue ∧
      ∀ timer, .firing timer ∈ (set.look worker now).workers → .firing timer ∈ set.workers) ∨
    ∃ first rest, ledger.pending = first :: rest ∧ first.timer.deadline ≤ now ∧
      ledger.look now = { ledger with pending := rest, fired := ledger.fired ++ [first] } ∧
      set.look worker now =
        { set with
          queue := ⟨rest.map Registration.timer⟩
          workers := set.workers.set worker (.firing first.timer) } := by
  have hqueue := hfits.map_timer
  cases hpending : ledger.pending with
  | nil =>
    rw [hpending] at hqueue
    rw [TimerSet.look_of_pending_eq_nil hqueue.symm]
    refine .inl ⟨by simp only [look, hpending], rfl, fun timer hmem => ?_⟩
    exact List.mem_of_mem_eraseIdx hmem
  | cons first rest =>
    rw [hpending] at hqueue
    by_cases hdue : first.timer.deadline ≤ now
    · refine .inr ⟨first, rest, rfl, hdue, ?_, TimerSet.look_of_le hqueue.symm hdue worker⟩
      simp only [look, hpending, if_neg (Int.not_lt.mpr hdue)]
    · have hearly := Int.not_le.mp hdue
      rw [TimerSet.look_of_lt hqueue.symm hearly]
      refine .inl ⟨by simp only [look, hpending, if_pos hearly], rfl, fun timer hmem => ?_⟩
      rcases List.mem_or_eq_of_mem_set hmem with hbefore | heq
      · exact hbefore
      · cases heq

/-- Every step keeps what holds of the ledger. -/
theorem Fits.step (hfits : ledger.Fits set.queue) (hstep : set.Step action next) :
    (ledger.note set action).Fits next.queue := by
  cases hstep with
  | register timer =>
    rw [TimerSet.queue_register]
    exact (hfits.accept timer).setBrokeDown _
  | refuse timer => exact hfits.refuse timer
  | clear => exact hfits.clear
  | @look worker now =>
    rcases hfits.look_cases worker now with ⟨hledger, hqueue, _⟩ |
      ⟨first, rest, hpending, _, hledger, hset⟩
    · rw [note, hledger, hqueue]
      exact hfits
    · rw [note, hledger, hset]
      exact hfits.fire hpending
  | breakDown => exact hfits.setBrokeDown true
  | wake => exact hfits
  | fired => exact hfits
  | giveUp => exact hfits

/-- A step makes no worker fire a timer, unless it is the step of a worker that looks at the pending
timers and finds that the first one is due. -/
theorem Fits.firing_cases (hfits : ledger.Fits set.queue) (hstep : set.Step action next) :
    ((ledger.note set action).fired = ledger.fired ∧
      ∀ timer, .firing timer ∈ next.workers → .firing timer ∈ set.workers) ∨
    ∃ worker now first rest, action = .look worker now ∧ ledger.pending = first :: rest ∧
      first.timer.deadline ≤ now ∧ set.workers[worker]? = some .checking ∧
      next.workers = set.workers.set worker (.firing first.timer) ∧
      ledger.note set action =
        { ledger with pending := rest, fired := ledger.fired ++ [first] } := by
  have hset {worker : Nat} {other : Worker} (hother : ∀ timer, other ≠ .firing timer)
      (timer : Timer) (hmem : .firing timer ∈ set.workers.set worker other) :
      .firing timer ∈ set.workers := by
    rcases List.mem_or_eq_of_mem_set hmem with hbefore | heq
    · exact hbefore
    · exact absurd heq.symm (hother timer)
  cases hstep with
  | register timer =>
    refine .inl ⟨rfl, fun other hmem => ?_⟩
    rcases TimerSet.mem_workers_register hmem with hbefore | heq | ⟨deadline, heq⟩
    · exact hbefore
    · cases heq
    · cases heq
  | refuse => exact .inl ⟨rfl, fun _ hmem => hmem⟩
  | clear =>
    refine .inl ⟨rfl, fun timer hmem => ?_⟩
    obtain ⟨worker, hworker, heq⟩ := List.mem_map.mp hmem
    exact Worker.eq_of_signal_eq_firing heq ▸ hworker
  | @look worker now hworker =>
    rcases hfits.look_cases worker now with ⟨hledger, _, hfiring⟩ |
      ⟨first, rest, hpending, hdue, hledger, hnext⟩
    · exact .inl ⟨congrArg fired hledger, hfiring⟩
    · exact .inr ⟨worker, now, first, rest, rfl, hpending, hdue, hworker,
        congrArg TimerSet.workers hnext, hledger⟩
  | wake => exact .inl ⟨rfl, hset (by simp)⟩
  | fired => exact .inl ⟨rfl, hset (by simp)⟩
  | breakDown => exact .inl ⟨rfl, hset (by simp)⟩
  | giveUp => exact .inl ⟨rfl, fun _ hmem => List.mem_of_mem_eraseIdx hmem⟩

/-- A worker that looks at the pending timers changes what is pending and what is fired only. -/
theorem look_eq (ledger : Ledger) (now : Int) :
    ∃ pending fired, ledger.look now = { ledger with pending := pending, fired := fired } := by
  unfold look
  split
  · exact ⟨ledger.pending, ledger.fired, rfl⟩
  · next first rest _ =>
    split
    · exact ⟨ledger.pending, ledger.fired, rfl⟩
    · exact ⟨rest, ledger.fired ++ [first], rfl⟩

/-- Only a registration that succeeds replaces others. -/
theorem replaced_note (ledger : Ledger) (set : TimerSet) (action : TimerSet.Action) :
    (∃ timer, action = .register timer) ∨
      (ledger.note set action).replaced = ledger.replaced := by
  cases action with
  | register timer => exact .inl ⟨timer, rfl⟩
  | look worker now =>
    obtain ⟨pending, fired, hlook⟩ := ledger.look_eq now
    exact .inr (by rw [note, hlook])
  | _ => exact .inr rfl

/-- Only clearing the set drops timers. -/
theorem dropped_note (ledger : Ledger) (set : TimerSet) (action : TimerSet.Action) :
    action = .clear ∨ (ledger.note set action).dropped = ledger.dropped := by
  cases action with
  | clear => exact .inl rfl
  | look worker now =>
    obtain ⟨pending, fired, hlook⟩ := ledger.look_eq now
    exact .inr (by rw [note, hlook])
  | _ => exact .inr rfl

/-! ### All steps -/

/-- The ledger of a set of timers fits its queue, and knows the timers that are being fired. -/
theorem Records.fits (hrecords : ledger.Records set) :
    ledger.Fits set.queue ∧
      ∀ timer, .firing timer ∈ set.workers → ∃ entry ∈ ledger.fired, entry.timer = timer := by
  induction hrecords with
  | empty => exact ⟨fits_empty, fun timer hmem => absurd hmem List.not_mem_nil⟩
  | @step ledger set next action _ hstep ih =>
    obtain ⟨hfits, hfired⟩ := ih
    have hstep := TimerSet.step_of_step? hstep
    refine ⟨hfits.step hstep, fun timer hmem => ?_⟩
    rcases hfits.firing_cases hstep with ⟨hsame, hbefore⟩ |
      ⟨worker, now, first, rest, _, _, _, _, hworkers, hledger⟩
    · rw [hsame]
      exact hfired timer (hbefore timer hmem)
    · rw [hledger]
      rw [hworkers] at hmem
      rcases List.mem_or_eq_of_mem_set hmem with hbefore | heq
      · obtain ⟨entry, hentry, htimer⟩ := hfired timer hbefore
        exact ⟨entry, List.mem_append_left _ hentry, htimer⟩
      · exact ⟨first, List.mem_append_right _ List.mem_cons_self, (Worker.firing.inj heq).symm⟩

/-- The registrations that have succeeded are those whose timers are pending, have been fired, have
been replaced by a later registration for the same target and event, and have been dropped by
clearing the set, each of them once. What is pending was registered by the latest registration for
its target and event that has succeeded. A timer is fired by a worker that has read a time at which
it is due, and then no pending timer has an earlier deadline. All others with the same deadline were
registered later, but for those that were put behind it: for these a registration has failed since
the last one for its own target and event. A registration that fails changes the place of the timer
that it was to replace, and no more. When the firing of a timer breaks down, all pending timers
stay. -/
theorem registrations_are_accounted (hrecords : ledger.Records set) :
    ledger.pending.map Registration.timer = set.queue.pending ∧
    (ledger.registrations.map Registration.number).Pairwise (· < ·) ∧
    (ledger.pending ++ ledger.fired ++ ledger.replaced.map Prod.fst ++ ledger.dropped).Perm
      (ledger.registrations.filter Registration.succeeded) ∧
    (∀ old new, (old, new) ∈ ledger.replaced →
      new ∈ ledger.registrations ∧ new.succeeded = true ∧ old.number < new.number ∧
        old.timer.target = new.timer.target ∧
        caselessEq old.timer.event new.timer.event = true) ∧
    (∀ entry ∈ ledger.pending, ∀ later ∈ ledger.registrations,
      later.isFor entry.timer = true → entry.number < later.number → later.succeeded = false) ∧
    (∀ timer, .firing timer ∈ set.workers → ∃ entry ∈ ledger.fired, entry.timer = timer) ∧
    ∀ action next, set.step? action = some next →
      ((∃ timer, action = .register timer) ∨
        (ledger.note set action).replaced = ledger.replaced) ∧
      (action = .clear ∨ (ledger.note set action).dropped = ledger.dropped) ∧
      (((ledger.note set action).fired = ledger.fired ∧
        ∀ timer, .firing timer ∈ next.workers → .firing timer ∈ set.workers) ∨
      ∃ worker now first rest, action = .look worker now ∧
        ledger.pending = first :: rest ∧ (ledger.note set action).pending = rest ∧
        (ledger.note set action).fired = ledger.fired ++ [first] ∧
        next.workers[worker]? = some (.firing first.timer) ∧ first.timer.deadline ≤ now ∧
        ∀ other ∈ rest, first.timer.deadline ≤ other.timer.deadline ∧
          (¬ first.Precedes other ↔ other.IsPutBehind ledger.registrations first)) ∧
      (∀ timer, action = .refuse timer →
        (ledger.note set action).pending.Perm ledger.pending ∧
          (ledger.note set action).pending.filter (!·.isFor timer) =
            ledger.pending.filter (!·.isFor timer)) ∧
      ∀ worker, action = .breakDown worker ∨ action = .giveUp worker →
        next.queue = set.queue ∧ (ledger.note set action).pending = ledger.pending := by
  obtain ⟨hfits, hfired⟩ := hrecords.fits
  refine ⟨hfits.map_timer, ?_, hfits.accounted, ?_, hfits.latest, hfired, ?_⟩
  · rw [List.pairwise_map]
    exact hfits.pairwise_number_lt
  · intro old new hmem
    obtain ⟨hnew, hsucceeded, hlater, hsame⟩ := hfits.replaced_by old new hmem
    exact ⟨hnew, hsucceeded, hlater, Timer.sameKey_iff.mp hsame⟩
  · intro action next hstep
    have hstep := TimerSet.step_of_step? hstep
    refine ⟨ledger.replaced_note set action, ledger.dropped_note set action, ?_, ?_, ?_⟩
    · rcases hfits.firing_cases hstep with hnone |
        ⟨worker, now, first, rest, haction, hpending, hdue, hworker, hworkers, hledger⟩
      · exact .inl hnone
      · obtain ⟨hlt, _⟩ := List.getElem?_eq_some_iff.mp hworker
        refine .inr ⟨worker, now, first, rest, haction, hpending, by rw [hledger], by rw [hledger],
          ?_, hdue, fun other hother => hfits.of_first hpending hother⟩
        rw [hworkers, List.getElem?_set_self hlt]
    · rintro timer rfl
      exact ledger.refuse_pending timer
    · intro worker haction
      cases hstep with
      | breakDown => exact ⟨rfl, rfl⟩
      | giveUp => exact ⟨rfl, rfl⟩
      | _ => simp at haction

/-- A registration that was to replace the first of two timers with the same deadline fails, when a
firing has broken down and no new worker can be started. The worker that the next registration
starts fires the second timer first. So timers are not always fired in the order of their
registrations. -/
theorem not_forall_precedes :
    ¬ ∀ ledger set, Records ledger set →
      ∀ worker now next, set.step? (.look worker now) = some next →
        ∀ first rest, ledger.pending = first :: rest → first.timer.deadline ≤ now →
          ∀ other ∈ rest, first.Precedes other := by
  intro hall
  let earlier : Registration := ⟨1, ⟨⟨1⟩, "tick", 20⟩, true⟩
  let later : Registration := ⟨2, ⟨⟨2⟩, "tick", 20⟩, true⟩
  have hplay : (empty.play? .empty [.register ⟨⟨0⟩, "boom", 5⟩, .register ⟨⟨1⟩, "tick", 20⟩,
      .register ⟨⟨2⟩, "tick", 20⟩, .look 0 10, .breakDown 0, .giveUp 0,
      .refuse ⟨⟨1⟩, "TICK", 99⟩, .register ⟨⟨0⟩, "late", 99⟩]).any fun (ledger, set) =>
        ledger.pending.take 2 == [later, earlier] && (set.step? (.look 0 20)).isSome := by
    decide +kernel
  obtain ⟨⟨ledger, set⟩, hlast, hstands⟩ := (Option.any_eq_true ..).mp hplay
  simp only [Bool.and_eq_true, beq_iff_eq] at hstands
  obtain ⟨htake, hlook⟩ := hstands
  obtain ⟨next, hstep⟩ := Option.isSome_iff_exists.mp hlook
  have hrecords : Records ledger set := Records.empty.play? hlast
  obtain ⟨rest, hpending⟩ : ∃ rest, ledger.pending = later :: earlier :: rest := by
    refine ⟨ledger.pending.drop 2, ?_⟩
    rw [← List.take_append_drop 2 ledger.pending, htake]
    rfl
  have hprecedes := hall ledger set hrecords 0 20 next hstep later (earlier :: rest) hpending
    (by decide) earlier List.mem_cons_self
  revert hprecedes
  decide

/-- Of two timers with the same deadline the one whose registration is replaced comes second, and is
still pending when the other one is fired. -/
theorem registrations_are_accounted_of_sample :
    ∃ ledger set, Records ledger set ∧
      ledger.fired.map Registration.number = [1] ∧ ledger.pending.map Registration.number = [2] ∧
      ledger.replaced.map (fun (old, new) => (old.number, new.number)) = [(0, 2)] ∧
      (ledger.pending ++ ledger.fired ++ ledger.replaced.map Prod.fst ++ ledger.dropped).Perm
        (ledger.registrations.filter Registration.succeeded) := by
  have hplay : (empty.play? .empty [.register ⟨⟨0⟩, "tick", 10⟩, .register ⟨⟨1⟩, "tick", 10⟩,
      .register ⟨⟨0⟩, "TICK", 10⟩, .look 0 20]).any fun (ledger, _) =>
        ledger.fired.map Registration.number == [1] &&
          ledger.pending.map Registration.number == [2] &&
          ledger.replaced.map (fun (old, new) => (old.number, new.number)) == [(0, 2)] := by
    decide +kernel
  obtain ⟨⟨ledger, set⟩, hlast, hlists⟩ := (Option.any_eq_true ..).mp hplay
  simp only [Bool.and_eq_true, beq_iff_eq] at hlists
  obtain ⟨⟨hfired, hpending⟩, hreplaced⟩ := hlists
  have hrecords : Records ledger set := Records.empty.play? hlast
  obtain ⟨_, _, haccounted, _⟩ := registrations_are_accounted hrecords
  exact ⟨ledger, set, hrecords, hfired, hpending, hreplaced, haccounted⟩

end LayeredMachines.Ledger
