import LayeredMachines.Proofs.Timer.Conservation

/-!
# Pending timers have a worker

Workers end and are started again, sleep and are woken, while timers are registered and dropped at
any time. There is never more than one of them, and as long as no firing breaks down there is one
whenever a timer is pending. A worker that sleeps has either been signalled, or sleeps no longer
than it should.
-/

namespace LayeredMachines

namespace TimerSet

variable {set next : TimerSet} {timer : Timer} {worker : Nat} {pending : List Timer} {now : Int}
  {breaks : String → Bool}

/-- A wait for the worker to end finds that it has if and only if no worker is said to be running. -/
theorem idle?_eq_some_true {timeIsUp : Bool} :
    set.idle? timeIsUp = some true ↔ set.running = false := by
  unfold idle?
  cases set.running <;> cases timeIsUp <;> simp

/-- A worker that looks at timers all of which are due fires them in their order, and ends. -/
theorem serve_of_due (hdue : ∀ timer ∈ pending, timer.deadline ≤ now)
    (hbreaks : ∀ timer ∈ pending, breaks timer.event = false) {actions : Nat}
    (hactions : 2 * pending.length < actions) :
    serve now breaks actions ⟨⟨pending⟩, true, [.checking]⟩ = (pending, empty) := by
  induction pending generalizing actions with
  | nil =>
    obtain ⟨rest, rfl⟩ : ∃ rest, actions = rest + 1 := ⟨actions - 1, by simp at hactions; omega⟩
    cases rest <;> rfl
  | cons first rest ih =>
    obtain ⟨more, rfl⟩ : ∃ more, actions = more + 2 :=
      ⟨actions - 2, by simp at hactions; omega⟩
    have hmore : 2 * rest.length < more := by
      simp only [List.length_cons] at hactions
      omega
    have hfirst : ¬ now < first.deadline := Int.not_lt.mpr (hdue first List.mem_cons_self)
    have hrest := ih (fun timer h => hdue timer (List.mem_cons_of_mem first h))
      (fun timer h => hbreaks timer (List.mem_cons_of_mem first h)) hmore
    simp only [serve, nextAction?, step?, look, TimerQueue.next?, firing?, Option.bind_some,
      List.getElem?_cons_zero, List.set_cons_zero, hfirst, if_false,
      hbreaks first List.mem_cons_self, Bool.false_eq_true, hrest]
    rfl

end TimerSet

namespace Ledger

variable {ledger : Ledger} {set next : TimerSet} {action : TimerSet.Action} {worker : Nat}
  {doing : Worker}

/-- What holds of the workers of a set of timers. -/
structure Served (ledger : Ledger) (set : TimerSet) : Prop where
  single : set.workers.length ≤ 1
  stopped : set.running = false → set.workers = []
  broken : .broken ∈ set.workers → ledger.brokeDown = true
  running : ledger.brokeDown = false → set.queue.pending ≠ [] → set.running = true
  awake : ∀ deadline, .sleeping deadline false ∈ set.workers → ∃ first,
    set.queue.pending.head? = some first ∧ deadline ≤ first.deadline

/-- A queue needs no worker if nothing is pending, or a firing has broken down. -/
theorem served_of_no_worker {queue : TimerQueue}
    (hpending : ledger.brokeDown = false → queue.pending = []) :
    ledger.Served ⟨queue, false, []⟩ where
  single := Nat.zero_le 1
  stopped _ := rfl
  broken hmem := absurd hmem List.not_mem_nil
  running hbrokeDown hsome := absurd (hpending hbrokeDown) hsome
  awake _ hmem := absurd hmem List.not_mem_nil

theorem served_empty : empty.Served .empty :=
  served_of_no_worker fun _ => rfl

/-- The worker that does something is the only one. -/
theorem Served.workers_eq (hserved : ledger.Served set)
    (hworker : set.workers[worker]? = some doing) : worker = 0 ∧ set.workers = [doing] := by
  obtain ⟨hlt, hget⟩ := List.getElem?_eq_some_iff.mp hworker
  have hsingle := hserved.single
  obtain ⟨only, honly⟩ := List.length_eq_one_iff.mp (show set.workers.length = 1 by omega)
  have hzero : worker = 0 := by omega
  subst hzero
  simp only [honly, List.getElem_cons_zero] at hget
  exact ⟨rfl, hget ▸ honly⟩

/-- While there is a worker, one is said to be running. -/
theorem Served.running_of_worker (hserved : ledger.Served set)
    (hworker : set.workers[worker]? = some doing) : set.running = true := by
  cases hrunning : set.running with
  | true => rfl
  | false =>
    rw [hserved.stopped hrunning] at hworker
    simp at hworker

/-- Nothing is pending while no worker is said to be running, unless a firing has broken down. -/
theorem Served.pending_eq_nil (hserved : ledger.Served set) (hbrokeDown : ledger.brokeDown = false)
    (hstopped : set.running = false) : set.queue.pending = [] := by
  cases hpending : set.queue.pending with
  | nil => rfl
  | cons first rest =>
    have hrunning := hserved.running hbrokeDown (by simp [hpending])
    simp [hstopped] at hrunning

/-- The worker that does something is the only one when it goes on to do something else. -/
theorem Served.set_worker (hserved : ledger.Served set)
    (hworker : set.workers[worker]? = some doing) (queue : TimerQueue) (other : Worker) :
    ({ set with queue := queue, workers := set.workers.set worker other } : TimerSet) =
      ⟨queue, true, [other]⟩ := by
  obtain ⟨rfl, hworkers⟩ := hserved.workers_eq hworker
  simp only [hworkers, hserved.running_of_worker hworker, List.set_cons_zero]

/-- When the worker that does something ends, none is left. -/
theorem Served.erase_worker (hserved : ledger.Served set)
    (hworker : set.workers[worker]? = some doing) :
    ({ set with running := false, workers := set.workers.eraseIdx worker } : TimerSet) =
      ⟨set.queue, false, []⟩ := by
  obtain ⟨rfl, hworkers⟩ := hserved.workers_eq hworker
  simp only [hworkers, List.eraseIdx_cons_zero]

/-- One worker that is said to be running serves the queue, if it is neither broken without the
ledger saying so nor asleep for longer than it should be. -/
theorem served_of_one_worker {queue : TimerQueue}
    (hbroken : doing = .broken → ledger.brokeDown = true)
    (hawake : ∀ deadline, doing = .sleeping deadline false → ∃ first,
      queue.pending.head? = some first ∧ deadline ≤ first.deadline) :
    ledger.Served ⟨queue, true, [doing]⟩ where
  single := Nat.le_refl 1
  stopped hrunning := by simp at hrunning
  broken hmem := hbroken (List.mem_singleton.mp hmem).symm
  running _ _ := rfl
  awake deadline hmem := hawake deadline (List.mem_singleton.mp hmem).symm

/-! ### One step -/

/-- A timer that is registered has a worker, which does not sleep for longer than it should. -/
theorem Served.register (hserved : ledger.Served set) (hsorted : set.queue.IsSorted)
    (timer : Timer) : (ledger.note set (.register timer)).Served (set.register timer) := by
  cases hrunning : set.running with
  | false =>
    rw [TimerSet.register_of_running_eq_false hrunning, hserved.stopped hrunning]
    exact served_of_one_worker (by simp) (by simp)
  | true =>
    have hbrokeDown : (ledger.note set (.register timer)).brokeDown = ledger.brokeDown := by
      simp [note, hrunning]
    constructor
    · rw [TimerSet.register_of_running hrunning]
      dsimp only
      split
      · rw [Worker.length_signalFirst]
        exact hserved.single
      · exact hserved.single
    · intro hstopped
      simp [TimerSet.register_of_running hrunning, hrunning] at hstopped
    · intro hmem
      rw [hbrokeDown]
      rcases TimerSet.mem_workers_register hmem with hbefore | heq | ⟨deadline, heq⟩
      · exact hserved.broken hbefore
      · cases heq
      · cases heq
    · intro _ _
      rw [TimerSet.register_of_running hrunning]
      exact hrunning
    · intro deadline hmem
      rw [TimerSet.register_of_running hrunning] at hmem ⊢
      dsimp only at hmem ⊢
      split at hmem
      · exact absurd hmem (Worker.not_mem_signalFirst hserved.single)
      · next hnotFirst =>
        obtain ⟨first, hfirst, hle⟩ := hserved.awake deadline hmem
        obtain ⟨later, hlater, heq | hbefore⟩ := set.queue.head?_schedule timer
        · exact absurd (heq ▸ hlater) hnotFirst
        · exact ⟨later, hlater, Int.le_trans hle (hsorted.head_le hfirst hbefore)⟩

/-- Dropping all timers wakes the worker. -/
theorem Served.clear (hserved : ledger.Served set) :
    (ledger.note set .clear).Served set.clear where
  single := by
    rw [TimerSet.clear, List.length_map]
    exact hserved.single
  stopped hrunning := congrArg (List.map Worker.signal) (hserved.stopped hrunning)
  broken hmem := by
    obtain ⟨worker, hworker, heq⟩ := List.mem_map.mp hmem
    cases worker with
    | broken => exact hserved.broken hworker
    | _ => simp [Worker.signal] at heq
  running _ hpending := absurd rfl hpending
  awake deadline hmem := by
    obtain ⟨worker, _, heq⟩ := List.mem_map.mp hmem
    exact absurd heq worker.signal_ne_sleeping

/-- A worker that looks at the pending timers ends only if there are none, and sleeps only until the
first deadline. -/
theorem Served.look (hserved : ledger.Served set) (now : Int)
    (hworker : set.workers[worker]? = some .checking) :
    (ledger.note set (.look worker now)).Served (set.look worker now) := by
  cases hpending : set.queue.pending with
  | nil =>
    rw [TimerSet.look_of_pending_eq_nil hpending, hserved.erase_worker hworker]
    exact served_of_no_worker fun _ => hpending
  | cons first rest =>
    by_cases hdue : first.deadline ≤ now
    · rw [TimerSet.look_of_le hpending hdue, hserved.set_worker hworker]
      exact served_of_one_worker (by simp) (by simp)
    · rw [TimerSet.look_of_lt hpending (Int.not_le.mp hdue), hserved.set_worker hworker]
      refine served_of_one_worker (by simp) fun deadline heq => ?_
      obtain ⟨rfl, _⟩ := Worker.sleeping.inj heq
      exact ⟨first, by rw [hpending]; rfl, Int.le_refl _⟩

/-- Every step keeps what holds of the workers. -/
theorem Served.step (hserved : ledger.Served set) (hfits : ledger.Fits set.queue)
    (hstep : set.Step action next) : (ledger.note set action).Served next := by
  cases hstep with
  | register timer => exact hserved.register hfits.isSorted timer
  | refuse timer hrunning =>
    rw [TimerSet.refuse, hrunning, hserved.stopped hrunning]
    refine served_of_no_worker fun hbrokeDown => ?_
    -- Nothing is pending unless a firing has broken down, and so nothing is put back.
    have hempty := hserved.pending_eq_nil hbrokeDown hrunning
    have hreplaced : set.queue.replaced? timer = none := by
      simp [TimerQueue.replaced?, hempty]
    rw [TimerQueue.unschedule_schedule, hreplaced]
    exact hempty
  | clear => exact hserved.clear
  | look now hworker => exact hserved.look now hworker
  | wake hworker =>
    rw [hserved.set_worker hworker set.queue]
    exact served_of_one_worker (by simp) (by simp)
  | fired hworker =>
    rw [hserved.set_worker hworker set.queue]
    exact served_of_one_worker (by simp) (by simp)
  | breakDown hworker =>
    rw [hserved.set_worker hworker set.queue]
    exact served_of_one_worker (fun _ => rfl) (by simp)
  | giveUp hworker =>
    have hbroken : ledger.brokeDown = true :=
      hserved.broken (List.mem_of_getElem? hworker)
    rw [hserved.erase_worker hworker]
    refine served_of_no_worker fun hbrokeDown => ?_
    exact absurd (hbroken.symm.trans hbrokeDown) (by decide)

/-- What holds of the workers holds at all times. -/
theorem Records.served (hrecords : ledger.Records set) : ledger.Served set := by
  induction hrecords with
  | empty => exact served_empty
  | step hrecords hstep ih => exact ih.step hrecords.fits.1 (TimerSet.step_of_step? hstep)

/-! ### All steps -/

/-- There is never more than one worker, and none while no worker is said to be running. Unless a
firing has broken down since the last worker was started, a worker is running while a timer is
pending, and so nothing is pending when a wait for the worker finds that it has ended. A worker that
sleeps has been signalled, or sleeps for no longer than until the first deadline. When a firing has
broken down and the worker has said so, all pending timers are left, and the next registration
starts a worker that fires them all once they are due. -/
theorem pending_timers_are_served (hrecords : ledger.Records set) :
    set.workers.length ≤ 1 ∧
    (set.running = false → set.workers = []) ∧
    (ledger.brokeDown = false →
      (set.queue.pending ≠ [] → set.running = true) ∧
      ∀ timeIsUp, set.idle? timeIsUp = some true → set.queue.pending = []) ∧
    (∀ deadline signalled, .sleeping deadline signalled ∈ set.workers → signalled = true ∨
      set.queue.pending ≠ [] ∧ ∀ timer ∈ set.queue.pending, deadline ≤ timer.deadline) ∧
    (∀ worker next, set.step? (.breakDown worker) = some next → next.queue = set.queue) ∧
    (∀ worker next, set.step? (.giveUp worker) = some next →
      next.queue = set.queue ∧ next.running = false ∧ next.workers = []) ∧
    (set.running = false → ∀ timer next, set.step? (.register timer) = some next →
      next = ⟨set.queue.schedule timer, true, [.checking]⟩ ∧
      ∀ now breaks, (∀ other ∈ next.queue.pending, other.deadline ≤ now) →
        (∀ other ∈ next.queue.pending, breaks other.event = false) →
        next.settle now breaks = (next.queue.pending, .empty)) := by
  have hserved := hrecords.served
  have hsorted := hrecords.fits.1.isSorted
  refine ⟨hserved.single, hserved.stopped, fun hbrokeDown => ⟨hserved.running hbrokeDown, ?_⟩, ?_,
    ?_, ?_, ?_⟩
  · intro timeIsUp hidle
    exact hserved.pending_eq_nil hbrokeDown (TimerSet.idle?_eq_some_true.mp hidle)
  · intro deadline signalled hmem
    cases signalled with
    | true => exact .inl rfl
    | false =>
      obtain ⟨first, hfirst, hle⟩ := hserved.awake deadline hmem
      refine .inr ⟨fun hnone => by simp [hnone] at hfirst, fun timer htimer => ?_⟩
      exact Int.le_trans hle (hsorted.head_le hfirst htimer)
  · intro worker next hstep
    cases TimerSet.step_of_step? hstep
    rfl
  · intro worker next hstep
    cases TimerSet.step_of_step? hstep with
    | giveUp hworker =>
      rw [hserved.erase_worker hworker]
      exact ⟨rfl, rfl, rfl⟩
  · intro hrunning timer next hstep
    cases TimerSet.step_of_step? hstep
    rw [TimerSet.register_of_running_eq_false hrunning, hserved.stopped hrunning]
    refine ⟨rfl, fun now breaks hdue hbreaks => ?_⟩
    exact TimerSet.serve_of_due hdue hbreaks (by simp only [TimerQueue.size]; omega)

/-- A timer that is registered while the firing of another one breaks down is still pending when the
worker has given up. The worker that the next registration starts fires both timers. -/
theorem pending_timers_are_served_of_sample :
    ∃ ledger set next, Records ledger set ∧ ledger.brokeDown = true ∧ set.running = false ∧
      set.step? (.register ⟨⟨2⟩, "late", 7⟩) = some next ∧
      next.settle 10 (fun _ => false) = ([⟨⟨1⟩, "tick", 5⟩, ⟨⟨2⟩, "late", 7⟩], .empty) := by
  have hplay : (empty.play? .empty [.register ⟨⟨0⟩, "boom", 5⟩, .look 0 10,
      .register ⟨⟨1⟩, "tick", 5⟩, .breakDown 0, .giveUp 0]).any fun (ledger, set) =>
        ledger.brokeDown && !set.running &&
          (set.queue.schedule ⟨⟨2⟩, "late", 7⟩).pending ==
            [⟨⟨1⟩, "tick", 5⟩, ⟨⟨2⟩, "late", 7⟩] := by
    decide +kernel
  obtain ⟨⟨ledger, set⟩, hlast, hset⟩ := (Option.any_eq_true ..).mp hplay
  simp only [Bool.and_eq_true, Bool.not_eq_true', beq_iff_eq] at hset
  obtain ⟨⟨hbrokeDown, hrunning⟩, hpending⟩ := hset
  have hrecords : Records ledger set := Records.empty.play? hlast
  obtain ⟨_, _, _, _, _, _, hnext⟩ := pending_timers_are_served hrecords
  obtain ⟨heq, hsettle⟩ := hnext hrunning ⟨⟨2⟩, "late", 7⟩ _ rfl
  have hlate : (set.register ⟨⟨2⟩, "late", 7⟩).queue.pending =
      [⟨⟨1⟩, "tick", 5⟩, ⟨⟨2⟩, "late", 7⟩] := by
    rw [heq]
    exact hpending
  refine ⟨ledger, set, _, hrecords, hbrokeDown, hrunning, rfl, ?_⟩
  rw [← hlate]
  refine hsettle 10 _ ?_ (fun _ _ => rfl)
  rw [hlate]
  decide

end Ledger

end LayeredMachines
