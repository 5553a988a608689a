import LayeredMachines.Proofs.Timer.Registration
import LayeredMachines.Timer.Worker
import Mathlib.Data.List.Nodup

/-!
# What becomes of registrations

A set of timers forgets what it has done. This file keeps a ledger beside it, which numbers the
registrations and follows each of them until its timer is fired, replaced or dropped, and states
what every action keeps of the ledger: it agrees with the pending timers, accounts for every
registration once, and has the timers in the order of their deadlines and registrations, apart from
those that were put behind others when a registration failed.
-/

namespace LayeredMachines

/-- What has become of the registrations of a set of timers. -/
structure Ledger where
  /-- All registrations in their order. -/
  registrations : List Registration
  /-- Those whose timers are pending, in the order of the queue. -/
  pending : List Registration
  /-- Those whose timers a worker has taken to fire them, in that order. -/
  fired : List Registration
  /-- Those whose timers were replaced, each with the registration that did it. -/
  replaced : List (Registration × Registration)
  /-- Those whose timers were dropped. -/
  dropped : List Registration
  /-- A firing has broken down since the last worker was started. -/
  brokeDown : Bool
  deriving DecidableEq

namespace Ledger

/-- The ledger before all registrations. -/
def empty : Ledger :=
  ⟨[], [], [], [], [], false⟩

/-- The next registration. -/
def entry (ledger : Ledger) (timer : Timer) (succeeded : Bool) : Registration :=
  ⟨ledger.registrations.length, timer, succeeded⟩

/-- Note a registration that succeeds. -/
def accept (ledger : Ledger) (timer : Timer) : Ledger :=
  let entry := ledger.entry timer true
  let replaced := ledger.pending.find? (·.isFor timer)
  { ledger with
    registrations := ledger.registrations ++ [entry]
    pending := entry.insert (ledger.pending.eraseP (·.isFor timer))
    replaced := ledger.replaced ++ replaced.toList.map (·, entry) }

/-- Note a registration that fails. The timer that it would have replaced is put behind all those
that are not due after it. -/
def refuse (ledger : Ledger) (timer : Timer) : Ledger :=
  { ledger with
    registrations := ledger.registrations ++ [ledger.entry timer false]
    pending :=
      match ledger.pending.find? (·.isFor timer) with
      | some old => old.insert (ledger.pending.eraseP (·.isFor timer))
      | none => ledger.pending }

/-- Note that a worker looks at the pending timers: it takes the first one if that is due. -/
def look (ledger : Ledger) (now : Int) : Ledger :=
  match ledger.pending with
  | [] => ledger
  | first :: rest =>
    if now < first.timer.deadline then ledger
    else { ledger with pending := rest, fired := ledger.fired ++ [first] }

/-- The ledger after an action. -/
def note (ledger : Ledger) (set : TimerSet) : TimerSet.Action → Ledger
  | .register timer => { ledger.accept timer with brokeDown := ledger.brokeDown && set.running }
  | .refuse timer => ledger.refuse timer
  | .clear => { ledger with pending := [], dropped := ledger.dropped ++ ledger.pending }
  | .look _ now => ledger.look now
  | .breakDown _ => { ledger with brokeDown := true }
  | .wake _ | .fired _ | .giveUp _ => ledger

/-- The ledger of a set of timers that has come from the empty one by actions in some order. -/
inductive Records : Ledger → TimerSet → Prop
  | empty : Records .empty .empty
  | step {ledger : Ledger} {set next : TimerSet} {action : TimerSet.Action}
      (hrecords : Records ledger set) (hstep : set.step? action = some next) :
      Records (ledger.note set action) next

/-- The set of timers after some actions, with its ledger, if they can happen one after another. -/
def play? (ledger : Ledger) (set : TimerSet) : List TimerSet.Action → Option (Ledger × TimerSet)
  | [] => some (ledger, set)
  | action :: rest => (set.step? action).bind fun next => (ledger.note set action).play? next rest

/-- What holds of the ledger of a queue. -/
structure Fits (ledger : Ledger) (queue : TimerQueue) : Prop where
  map_timer : ledger.pending.map Registration.timer = queue.pending
  numbered : ledger.registrations.map Registration.number = List.range ledger.registrations.length
  accounted : (ledger.pending ++ ledger.fired ++ ledger.replaced.map Prod.fst ++
    ledger.dropped).Perm (ledger.registrations.filter Registration.succeeded)
  replaced_by : ∀ old new, (old, new) ∈ ledger.replaced →
    new ∈ ledger.registrations ∧ new.succeeded = true ∧ old.number < new.number ∧
      old.isFor new.timer = true
  ordered : ledger.pending.Pairwise (Registration.StandsBefore ledger.registrations)
  distinct : ledger.pending.Pairwise fun a b => a.isFor b.timer = false
  latest : ∀ entry ∈ ledger.pending, ∀ later ∈ ledger.registrations,
    later.isFor entry.timer = true → entry.number < later.number → later.succeeded = false

variable {ledger : Ledger} {queue : TimerQueue} {timer : Timer}

/-- Playing actions goes on with the ledger. -/
theorem Records.play? {set last : TimerSet} {later : Ledger} {actions : List TimerSet.Action}
    (hrecords : ledger.Records set) (hplay : ledger.play? set actions = some (later, last)) :
    later.Records last := by
  induction actions generalizing ledger set with
  | nil =>
    obtain ⟨rfl, rfl⟩ := Prod.mk.inj (Option.some.inj hplay)
    exact hrecords
  | cons action rest ih =>
    obtain ⟨next, hstep, hrest⟩ := Option.bind_eq_some_iff.mp hplay
    exact ih (hrecords.step hstep) hrest

theorem fits_empty : empty.Fits TimerQueue.empty where
  map_timer := rfl
  numbered := rfl
  accounted := .refl _
  replaced_by _ _ hmem := absurd hmem List.not_mem_nil
  ordered := .nil
  distinct := .nil
  latest _ hmem := absurd hmem List.not_mem_nil

/-- The pending timers are in the order of their deadlines. -/
theorem Fits.isSorted (hfits : ledger.Fits queue) : queue.IsSorted := by
  rw [TimerQueue.IsSorted, ← hfits.map_timer, List.pairwise_map]
  exact hfits.ordered.imp fun hbefore => hbefore.deadline_le

/-- What is pending has been registered with success. -/
theorem Fits.mem_of_mem_pending (hfits : ledger.Fits queue) {entry : Registration}
    (hentry : entry ∈ ledger.pending) : entry ∈ ledger.registrations := by
  have hmem := hfits.accounted.mem_iff.mp (List.mem_append_left _ (List.mem_append_left _
    (List.mem_append_left _ hentry)))
  exact (List.mem_filter.mp hmem).1

/-! ### The order of the pending timers -/

/-- Numbers are given in their order. -/
theorem Fits.number_lt (hfits : ledger.Fits queue) :
    ∀ entry ∈ ledger.registrations, entry.number < ledger.registrations.length := by
  intro entry hentry
  have hmem := List.mem_map_of_mem (f := Registration.number) hentry
  rw [hfits.numbered] at hmem
  exact List.mem_range.mp hmem

theorem Fits.pairwise_number_lt (hfits : ledger.Fits queue) :
    ledger.registrations.Pairwise (·.number < ·.number) := by
  rw [← List.pairwise_map (f := Registration.number), hfits.numbered]
  exact List.pairwise_lt_range

/-- No two registrations have the same number. -/
theorem Fits.eq_of_number_eq (hfits : ledger.Fits queue) {entry other : Registration}
    (hentry : entry ∈ ledger.registrations) (hother : other ∈ ledger.registrations)
    (hnumber : entry.number = other.number) : entry = other := by
  have hnodup : (ledger.registrations.map Registration.number).Nodup :=
    hfits.numbered ▸ List.nodup_range
  exact List.inj_on_of_nodup_map hnodup hentry hother hnumber

/-- The latest registration for the target and event of a pending timer is its own or has failed. -/
theorem Fits.exists_latest (hfits : ledger.Fits queue) {entry : Registration}
    (hentry : entry ∈ ledger.pending) :
    ∃ last, Registration.latest? ledger.registrations entry.timer = some last ∧
      (last = entry ∨ last.succeeded = false) := by
  have hmem := hfits.mem_of_mem_pending hentry
  have hself : entry.isFor entry.timer = true := Timer.sameKey_refl entry.timer
  have hsome : (Registration.latest? ledger.registrations entry.timer).isSome = true :=
    List.find?_isSome.mpr ⟨entry, List.mem_reverse.mpr hmem, hself⟩
  obtain ⟨last, hlast⟩ := Option.isSome_iff_exists.mp hsome
  refine ⟨last, hlast, ?_⟩
  rcases Registration.eq_or_number_lt_of_latest? hfits.pairwise_number_lt hlast hmem hself with
    heq | hlt
  · exact .inl heq.symm
  · exact .inr (hfits.latest entry hentry last (Registration.mem_of_latest? hlast)
      (Registration.isFor_of_latest? hlast) hlt)

/-- A timer that is pending in front of another one comes before it, unless the other one was put
behind it. -/
theorem Fits.not_precedes_iff (hfits : ledger.Fits queue) {first other : Registration}
    (hfirst : first ∈ ledger.pending) (hother : other ∈ ledger.pending)
    (hdistinct : first.isFor other.timer = false)
    (hbefore : Registration.StandsBefore ledger.registrations first other) :
    ¬ first.Precedes other ↔ other.IsPutBehind ledger.registrations first := by
  constructor
  · intro hnot
    rcases hbefore with hlt | ⟨heq, attempt, hattempt, hfor, hafter⟩
    · exact absurd (.inl hlt) hnot
    · have hself : first.isFor first.timer = true := Timer.sameKey_refl first.timer
      have hlater := hafter first (hfits.mem_of_mem_pending hfirst) hself
      have hnumber : ¬ first.number < other.number := fun hlt => hnot (.inr ⟨heq, hlt⟩)
      have hne : other.number ≠ first.number := fun hsame => by
        have hentry := hfits.eq_of_number_eq (hfits.mem_of_mem_pending hother)
          (hfits.mem_of_mem_pending hfirst) hsame
        rw [hentry, hself] at hdistinct
        cases hdistinct
      exact
        { deadline_eq := heq.symm
          number_lt := by omega
          exists_failed := ⟨attempt, hattempt,
            hfits.latest other hother attempt hattempt hfor (by omega), hfor, hafter⟩ }
  · rintro ⟨heq, hlt, _⟩ (hearlier | ⟨_, hnumber⟩) <;> omega

/-- The first of the pending timers has the earliest deadline, and comes before all others that were
not put behind it. -/
theorem Fits.of_first (hfits : ledger.Fits queue) {first other : Registration}
    {rest : List Registration} (hpending : ledger.pending = first :: rest) (hother : other ∈ rest) :
    first.timer.deadline ≤ other.timer.deadline ∧
      (¬ first.Precedes other ↔ other.IsPutBehind ledger.registrations first) := by
  have hordered := hfits.ordered
  have hdistinct := hfits.distinct
  rw [hpending] at hordered hdistinct
  have hbefore := (List.pairwise_cons.mp hordered).1 other hother
  refine ⟨hbefore.deadline_le, hfits.not_precedes_iff ?_ ?_ ?_ hbefore⟩
  · rw [hpending]
    exact List.mem_cons_self
  · rw [hpending]
    exact List.mem_cons_of_mem first hother
  · exact (List.pairwise_cons.mp hdistinct).1 other hother

/-! ### What is pending besides the timer that is registered -/

/-- The timer that is replaced is the one of the registration that the ledger finds. -/
theorem Fits.replaced?_eq (hfits : ledger.Fits queue) (timer : Timer) :
    queue.replaced? timer =
      (ledger.pending.find? (·.isFor timer)).map Registration.timer := by
  rw [TimerQueue.replaced?, ← hfits.map_timer, List.find?_map]
  rfl

theorem Fits.map_timer_eraseP (hfits : ledger.Fits queue) (timer : Timer) :
    (ledger.pending.eraseP (·.isFor timer)).map Registration.timer =
      queue.pending.eraseP (·.sameKey timer) := by
  rw [← hfits.map_timer, List.eraseP_map]
  rfl

/-- Besides the first one no pending registration is for the target and event of a timer. -/
theorem Fits.isFor_of_mem_eraseP (hfits : ledger.Fits queue) (timer : Timer) :
    ∀ other ∈ ledger.pending.eraseP (·.isFor timer), other.isFor timer = false := by
  refine not_of_mem_eraseP (hfits.distinct.imp fun {a b} hdistinct ha => ?_)
  refine Bool.eq_false_iff.mpr fun hb => ?_
  have hsame : a.timer.sameKey b.timer = true := by
    rw [Timer.sameKey_congr_left ha, Timer.sameKey_comm]
    exact hb
  exact Bool.false_ne_true (hdistinct.symm.trans hsame)

/-- One more registration is numbered next. -/
theorem Fits.numbered_concat (hfits : ledger.Fits queue) (timer : Timer) (succeeded : Bool) :
    (ledger.registrations ++ [ledger.entry timer succeeded]).map Registration.number =
      List.range (ledger.registrations ++ [ledger.entry timer succeeded]).length := by
  rw [List.map_append, hfits.numbered, List.length_append, List.length_singleton, List.range_succ]
  rfl

/-- Nothing is numbered after the next registration. -/
theorem Fits.number_le_concat (hfits : ledger.Fits queue) (timer : Timer) (succeeded : Bool) :
    ∀ later ∈ ledger.registrations ++ [ledger.entry timer succeeded],
      later.number ≤ (ledger.entry timer succeeded).number := by
  intro later hlater
  rcases List.mem_append.mp hlater with hearlier | hnew
  · exact Nat.le_of_lt (hfits.number_lt later hearlier)
  · exact Nat.le_of_eq (congrArg Registration.number (List.mem_singleton.mp hnew))

/-- What is pending has not been registered with success again, unless one more registration has
done so. -/
theorem Fits.latest_concat (hfits : ledger.Fits queue) {entry other : Registration}
    (hother : other ∈ ledger.pending)
    (hnew : entry.isFor other.timer = true → entry.succeeded = false) :
    ∀ later ∈ ledger.registrations ++ [entry], later.isFor other.timer = true →
      other.number < later.number → later.succeeded = false := by
  intro later hlater hfor hlt
  rcases List.mem_append.mp hlater with hbefore | hlast
  · exact hfits.latest other hother later hbefore hfor hlt
  · obtain rfl := List.mem_singleton.mp hlast
    exact hnew hfor

/-! ### The actions -/

/-- The next registration is for no other target and event that is pending. -/
theorem Fits.entry_isFor_of_mem_eraseP (hfits : ledger.Fits queue) (timer : Timer)
    (succeeded : Bool) : ∀ other ∈ ledger.pending.eraseP (·.isFor timer),
      (ledger.entry timer succeeded).isFor other.timer = false := by
  intro other hother
  rw [← hfits.isFor_of_mem_eraseP timer other hother]
  exact Timer.sameKey_comm timer other.timer

/-- A registration that succeeds is accounted for, and so is the one that it replaces. -/
theorem Fits.accounted_accept (hfits : ledger.Fits queue) (timer : Timer) :
    ((ledger.accept timer).pending ++ (ledger.accept timer).fired ++
      (ledger.accept timer).replaced.map Prod.fst ++ (ledger.accept timer).dropped).Perm
        ((ledger.accept timer).registrations.filter Registration.succeeded) := by
  have hpending := (ledger.entry timer true).insert_perm (ledger.pending.eraseP (·.isFor timer))
  have hkept := perm_find?_eraseP (·.isFor timer) ledger.pending
  have hreplaced : ((ledger.pending.find? (·.isFor timer)).toList.map
      (·, ledger.entry timer true)).map Prod.fst =
        (ledger.pending.find? (·.isFor timer)).toList := by
    rw [List.map_map]
    exact List.map_id _
  have hentry : [ledger.entry timer true].filter Registration.succeeded =
      [ledger.entry timer true] := rfl
  rw [List.perm_iff_count]
  intro a
  have haccountedCount := hfits.accounted.count_eq a
  have hpendingCount := hpending.count_eq a
  have hkeptCount := hkept.count_eq a
  simp only [accept, List.map_append, hreplaced, List.filter_append, hentry, List.count_append,
    List.count_cons, List.count_nil] at haccountedCount hpendingCount hkeptCount ⊢
  omega

/-- What a registration replaces was registered before it for the same target and event. -/
theorem Fits.replaced_by_accept (hfits : ledger.Fits queue) (timer : Timer) :
    ∀ old new, (old, new) ∈ (ledger.accept timer).replaced →
      new ∈ (ledger.accept timer).registrations ∧ new.succeeded = true ∧
        old.number < new.number ∧ old.isFor new.timer = true := by
  intro old new hmem
  rcases List.mem_append.mp hmem with hbefore | hnow
  · obtain ⟨hnew, hreplaced⟩ := hfits.replaced_by old new hbefore
    exact ⟨List.mem_append_left _ hnew, hreplaced⟩
  · obtain ⟨found, hfound, heq⟩ := List.mem_map.mp hnow
    obtain ⟨rfl, rfl⟩ := Prod.mk.inj heq
    have hfind := Option.mem_toList.mp hfound
    have hpending := hfits.mem_of_mem_pending (List.mem_of_find?_eq_some hfind)
    exact ⟨List.mem_append_right _ List.mem_cons_self, rfl, hfits.number_lt _ hpending,
      Registration.isFor_of_find? hfind⟩

/-- A registration that succeeds is pending, in place of the one that it replaces. -/
theorem Fits.accept (hfits : ledger.Fits queue) (timer : Timer) :
    (ledger.accept timer).Fits (queue.schedule timer) := by
  have hsublist : (ledger.pending.eraseP (·.isFor timer)).Sublist ledger.pending :=
    List.eraseP_sublist
  have hothers := hfits.entry_isFor_of_mem_eraseP timer true
  have hself : (ledger.entry timer true).isFor timer = true := Timer.sameKey_refl timer
  constructor
  · exact ((ledger.entry timer true).map_timer_insert _).trans
      (congrArg (TimerQueue.insert timer) (hfits.map_timer_eraseP timer))
  · exact hfits.numbered_concat timer true
  · exact hfits.accounted_accept timer
  · exact hfits.replaced_by_accept timer
  · exact Registration.pairwise_standsBefore_insert (hfits.ordered.sublist hsublist)
      hfits.number_lt hothers hself
  · exact Registration.pairwise_isFor_insert (hfits.distinct.sublist hsublist) hothers
  · intro other hother
    rcases List.mem_cons.mp (((ledger.entry timer true).insert_perm _).mem_iff.mp hother) with
      rfl | hmem
    · intro later hlater _ hlt
      exact absurd hlt (Nat.not_lt.mpr (hfits.number_le_concat timer true later hlater))
    · refine hfits.latest_concat (hsublist.mem hmem) fun hfor => ?_
      exact absurd ((hothers other hmem).symm.trans hfor) Bool.false_ne_true

/-- A registration that fails leaves the same timers pending, and all but the one that it would have
replaced in their order. -/
theorem refuse_pending (ledger : Ledger) (timer : Timer) :
    (ledger.refuse timer).pending.Perm ledger.pending ∧
      (ledger.refuse timer).pending.filter (!·.isFor timer) =
        ledger.pending.filter (!·.isFor timer) := by
  unfold refuse
  cases hfound : ledger.pending.find? (·.isFor timer) with
  | none => exact ⟨.refl _, rfl⟩
  | some old =>
    have hold : (!old.isFor timer) = false := by
      rw [Registration.isFor_of_find? hfound, Bool.not_true]
    refine ⟨(old.insert_perm _).trans (perm_cons_eraseP hfound).symm, ?_⟩
    rw [Registration.filter_insert hold, filter_eraseP]

/-- A registration that fails for something that is not pending changes nothing but the number of
registrations. -/
theorem Fits.refuse_of_find?_eq_none (hfits : ledger.Fits queue)
    (hfound : ledger.pending.find? (·.isFor timer) = none) : (ledger.refuse timer).Fits queue := by
  have hkept := List.eraseP_of_forall_not (List.find?_eq_none.mp hfound)
  have hothers := hfits.entry_isFor_of_mem_eraseP timer false
  rw [hkept] at hothers
  have hpending : (ledger.refuse timer).pending = ledger.pending := by
    simp only [refuse, hfound]
  constructor
  · rw [hpending]
    exact hfits.map_timer
  · exact hfits.numbered_concat timer false
  · rw [hpending]
    simpa [refuse, entry] using hfits.accounted
  · intro old new hmem
    obtain ⟨hnew, hreplaced⟩ := hfits.replaced_by old new hmem
    exact ⟨List.mem_append_left _ hnew, hreplaced⟩
  · rw [hpending]
    exact hfits.ordered.imp_of_mem fun ha _ hbefore => hbefore.concat (hothers _ ha)
  · rw [hpending]
    exact hfits.distinct
  · rw [hpending]
    exact fun other hother => hfits.latest_concat hother fun _ => rfl

/-- A registration that fails for something that is pending puts that behind all that is not due
after it. -/
theorem Fits.refuse_of_find?_eq_some (hfits : ledger.Fits queue) {old : Registration}
    (hfound : ledger.pending.find? (·.isFor timer) = some old) :
    (ledger.refuse timer).Fits
      ⟨TimerQueue.insert old.timer (queue.pending.eraseP (·.sameKey timer))⟩ := by
  have hsublist : (ledger.pending.eraseP (·.isFor timer)).Sublist ledger.pending :=
    List.eraseP_sublist
  have hothers := hfits.entry_isFor_of_mem_eraseP timer false
  have hold := Registration.isFor_of_find? hfound
  have hself : (ledger.entry timer false).isFor old.timer = true :=
    (Timer.sameKey_comm timer old.timer).trans hold
  have hpending : (ledger.refuse timer).pending =
      old.insert (ledger.pending.eraseP (·.isFor timer)) := by
    simp only [refuse, hfound]
  constructor
  · rw [hpending, Registration.map_timer_insert, hfits.map_timer_eraseP]
  · exact hfits.numbered_concat timer false
  · have hkept := (ledger.refuse_pending timer).1
    refine (((hkept.append_right _).append_right _).append_right _).trans ?_
    simpa [refuse, entry] using hfits.accounted
  · intro earlier new hmem
    obtain ⟨hnew, hreplaced⟩ := hfits.replaced_by earlier new hmem
    exact ⟨List.mem_append_left _ hnew, hreplaced⟩
  · rw [hpending]
    exact Registration.pairwise_standsBefore_insert (hfits.ordered.sublist hsublist)
      hfits.number_lt hothers hself
  · rw [hpending]
    have hdistinct := hfits.distinct.sublist hsublist
    refine Registration.pairwise_isFor_insert hdistinct fun other hother => ?_
    rw [← hothers other hother]
    exact Timer.sameKey_congr_left hold other.timer
  · intro other hother
    have hbefore := (ledger.refuse_pending timer).1.mem_iff.mp hother
    exact hfits.latest_concat hbefore fun _ => rfl

/-- A registration that fails leaves all others as they are, but the timer that it would have
replaced comes after all that are not due after it. -/
theorem Fits.refuse (hfits : ledger.Fits queue) (timer : Timer) :
    (ledger.refuse timer).Fits
      ((queue.schedule timer).unschedule (queue.place timer) (queue.replaced? timer)) := by
  rw [TimerQueue.unschedule_schedule, hfits.replaced?_eq]
  cases hfound : ledger.pending.find? (·.isFor timer) with
  | none => exact hfits.refuse_of_find?_eq_none hfound
  | some old => exact hfits.refuse_of_find?_eq_some hfound

/-- What holds of the ledger does not depend on whether a firing has broken down. -/
theorem Fits.setBrokeDown (hfits : ledger.Fits queue) (brokeDown : Bool) :
    { ledger with brokeDown := brokeDown }.Fits queue :=
  ⟨hfits.map_timer, hfits.numbered, hfits.accounted, hfits.replaced_by, hfits.ordered,
    hfits.distinct, hfits.latest⟩

/-- Dropped timers are accounted for. -/
theorem Fits.clear (hfits : ledger.Fits queue) :
    { ledger with pending := [], dropped := ledger.dropped ++ ledger.pending }.Fits
      TimerQueue.empty where
  map_timer := rfl
  numbered := hfits.numbered
  accounted := by
    refine List.Perm.trans ?_ hfits.accounted
    rw [List.perm_iff_count]
    intro a
    simp only [List.count_append, List.count_nil]
    omega
  replaced_by := hfits.replaced_by
  ordered := .nil
  distinct := .nil
  latest _ hmem := absurd hmem List.not_mem_nil

/-- The first timer is accounted for when it is taken to be fired. -/
theorem Fits.fire (hfits : ledger.Fits queue) {first : Registration} {rest : List Registration}
    (hpending : ledger.pending = first :: rest) :
    { ledger with pending := rest, fired := ledger.fired ++ [first] }.Fits
      ⟨rest.map Registration.timer⟩ where
  map_timer := rfl
  numbered := hfits.numbered
  accounted := by
    refine List.Perm.trans ?_ hfits.accounted
    rw [hpending, List.perm_iff_count]
    intro a
    simp only [List.count_append, List.count_cons, List.count_nil]
    omega
  replaced_by := hfits.replaced_by
  ordered := (List.pairwise_cons.mp (hpending ▸ hfits.ordered)).2
  distinct := (List.pairwise_cons.mp (hpending ▸ hfits.distinct)).2
  latest other hother := hfits.latest other (hpending ▸ List.mem_cons_of_mem first hother)

end Ledger

end LayeredMachines
