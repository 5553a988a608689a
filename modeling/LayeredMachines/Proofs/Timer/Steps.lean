import LayeredMachines.Timer.Worker

/-!
# Steps of a set of timers

The users of a set of timers and its workers take turns, each with one indivisible step at a time.
This file lists the steps with the conditions under which they occur, and says which workers do
what afterwards.
-/

namespace LayeredMachines

namespace Worker

variable {workers : List Worker} {worker : Worker} {timer : Timer} {deadline : Int}

/-- A signal changes nothing of a worker that does not sleep. -/
theorem eq_of_signal_eq_firing (heq : worker.signal = .firing timer) : worker = .firing timer := by
  cases worker with
  | sleeping => simp [signal] at heq
  | _ => exact heq

theorem signal_ne_sleeping (worker : Worker) : worker.signal ≠ .sleeping deadline false := by
  cases worker <;> simp [signal]

/-- Signalling one of the workers changes that one only, if any. -/
theorem mem_of_mem_signalFirst (hmem : worker ∈ signalFirst workers) :
    worker ∈ workers ∨ ∃ deadline, worker = .sleeping deadline true := by
  induction workers with
  | nil => exact .inl hmem
  | cons first rest ih =>
    unfold signalFirst at hmem
    split at hmem
    · rcases List.mem_cons.mp hmem with rfl | hrest
      · cases first with
        | sleeping deadline signalled => exact .inr ⟨deadline, rfl⟩
        | _ => exact .inl List.mem_cons_self
      · exact .inl (List.mem_cons_of_mem first hrest)
    · rcases List.mem_cons.mp hmem with rfl | hrest
      · exact .inl List.mem_cons_self
      · exact (ih hrest).imp_left (List.mem_cons_of_mem first)

/-- A signal reaches the worker that is asleep, if there is only one worker. -/
theorem not_mem_signalFirst (hsingle : workers.length ≤ 1) :
    .sleeping deadline false ∉ signalFirst workers := by
  intro hmem
  match workers with
  | [] => simp [signalFirst] at hmem
  | [only] =>
    unfold signalFirst at hmem
    split at hmem
    · exact only.signal_ne_sleeping (List.mem_singleton.mp hmem).symm
    · next hawake =>
      have heq : .sleeping deadline false = only := List.mem_singleton.mp hmem
      simp [← heq, isAsleep] at hawake
  | _ :: _ :: _ => simp at hsingle

theorem length_signalFirst (workers : List Worker) :
    (signalFirst workers).length = workers.length := by
  induction workers with
  | nil => rfl
  | cons first rest ih =>
    unfold signalFirst
    split
    · rfl
    · exact congrArg (· + 1) ih

end Worker

namespace TimerSet

/-- The steps of a set of timers, with the conditions under which they occur. -/
inductive Step (set : TimerSet) : Action → TimerSet → Prop
  | register (timer : Timer) : Step set (.register timer) (set.register timer)
  | refuse (timer : Timer) (hrunning : set.running = false) :
      Step set (.refuse timer) (set.refuse timer)
  | clear : Step set .clear set.clear
  | look {worker : Nat} (now : Int) (hworker : set.workers[worker]? = some .checking) :
      Step set (.look worker now) (set.look worker now)
  | wake {worker : Nat} {deadline : Int} {signalled : Bool}
      (hworker : set.workers[worker]? = some (.sleeping deadline signalled)) :
      Step set (.wake worker) { set with workers := set.workers.set worker .checking }
  | fired {worker : Nat} {timer : Timer} (hworker : set.workers[worker]? = some (.firing timer)) :
      Step set (.fired worker) { set with workers := set.workers.set worker .checking }
  | breakDown {worker : Nat} {timer : Timer}
      (hworker : set.workers[worker]? = some (.firing timer)) :
      Step set (.breakDown worker) { set with workers := set.workers.set worker .broken }
  | giveUp {worker : Nat} (hworker : set.workers[worker]? = some .broken) :
      Step set (.giveUp worker)
        { set with running := false, workers := set.workers.eraseIdx worker }

variable {set next : TimerSet} {timer : Timer} {now : Int}

/-- What happens is one of the steps. -/
theorem step_of_step? {action : Action} (hstep : set.step? action = some next) :
    set.Step action next := by
  cases action
  case register timer =>
    obtain rfl := Option.some.inj hstep
    exact .register timer
  case refuse timer =>
    cases hrunning : set.running with
    | true => simp [step?, hrunning] at hstep
    | false =>
      simp only [step?, hrunning, Bool.false_eq_true, if_false] at hstep
      obtain rfl := Option.some.inj hstep
      exact .refuse timer hrunning
  case clear =>
    obtain rfl := Option.some.inj hstep
    exact .clear
  -- What a worker does depends on what it has been doing.
  all_goals
    simp only [step?] at hstep
    split at hstep
    · next hworker =>
      obtain rfl := Option.some.inj hstep
      constructor
      exact hworker
    · simp at hstep

/-! ### Registering a timer -/

/-- A registration starts a worker if none is running. -/
theorem register_of_running_eq_false (hrunning : set.running = false) (timer : Timer) :
    set.register timer = ⟨set.queue.schedule timer, true, set.workers ++ [.checking]⟩ := by
  simp only [register, hrunning, Bool.false_eq_true, if_false]

/-- A registration signals a worker that sleeps if its timer is due next. -/
theorem register_of_running (hrunning : set.running = true) (timer : Timer) :
    set.register timer =
      { set with
        queue := set.queue.schedule timer
        workers :=
          if (set.queue.schedule timer).pending.head? = some timer then
            Worker.signalFirst set.workers
          else set.workers } := by
  simp only [register, hrunning, if_true]

/-- A registration adds its timer to the queue, whether or not it starts a worker. -/
theorem queue_register (set : TimerSet) (timer : Timer) :
    (set.register timer).queue = set.queue.schedule timer := by
  cases hrunning : set.running with
  | true => rw [register_of_running hrunning]
  | false => rw [register_of_running_eq_false hrunning]

/-- After a registration the workers are those before, or start, or have been signalled. -/
theorem mem_workers_register {worker : Worker} (hmem : worker ∈ (set.register timer).workers) :
    worker ∈ set.workers ∨ worker = .checking ∨ ∃ deadline, worker = .sleeping deadline true := by
  cases hrunning : set.running with
  | true =>
    rw [register_of_running hrunning] at hmem
    dsimp only at hmem
    split at hmem
    · exact (Worker.mem_of_mem_signalFirst hmem).imp_right .inr
    · exact .inl hmem
  | false =>
    rw [register_of_running_eq_false hrunning] at hmem
    exact (List.mem_append.mp hmem).imp_right fun hnew => .inl (List.mem_singleton.mp hnew)

/-! ### Looking at the pending timers -/

/-- A worker that finds nothing pending ends. -/
theorem look_of_pending_eq_nil (hpending : set.queue.pending = []) (worker : Nat) (now : Int) :
    set.look worker now =
      { set with running := false, workers := set.workers.eraseIdx worker } := by
  simp only [look, TimerQueue.next?, hpending]

/-- A worker sleeps until the first deadline. -/
theorem look_of_lt {rest : List Timer} (hpending : set.queue.pending = timer :: rest)
    (hearly : now < timer.deadline) (worker : Nat) :
    set.look worker now =
      { set with workers := set.workers.set worker (.sleeping timer.deadline false) } := by
  simp only [look, TimerQueue.next?, hpending, if_pos hearly]

/-- A worker fires the first timer when it is due. -/
theorem look_of_le {rest : List Timer} (hpending : set.queue.pending = timer :: rest)
    (hdue : timer.deadline ≤ now) (worker : Nat) :
    set.look worker now =
      { set with queue := ⟨rest⟩, workers := set.workers.set worker (.firing timer) } := by
  simp only [look, TimerQueue.next?, hpending, if_neg (Int.not_lt.mpr hdue)]

end TimerSet

end LayeredMachines
