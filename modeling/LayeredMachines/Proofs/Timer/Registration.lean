import LayeredMachines.Proofs.Timer.Queue

/-!
# The order of registrations

Pending timers say when they are due, but not when they were registered. A registration has a number
as well, so that it can be said of two timers with the same deadline which one was registered first.
Such timers are pending in this order, with one exception: a registration that fails puts the timer
that it would have replaced behind the others.
-/

namespace LayeredMachines

/-- A registration of a timer, with its number among all registrations, and whether it succeeded. -/
structure Registration where
  number : Nat
  timer : Timer
  succeeded : Bool
  deriving DecidableEq

namespace Registration

/-- The registration is one of a timer with the same target and event. -/
def isFor (entry : Registration) (timer : Timer) : Bool :=
  entry.timer.sameKey timer

/-- Put a registration behind those at the front whose timers are not due after its own. -/
def insert (entry : Registration) (pending : List Registration) : List Registration :=
  let isBefore (other : Registration) : Bool := decide (other.timer.deadline ≤ entry.timer.deadline)
  pending.takeWhile isBefore ++ entry :: pending.dropWhile isBefore

/-- The latest of some registrations for a target and event, whether or not it succeeded. -/
def latest? (registrations : List Registration) (timer : Timer) : Option Registration :=
  registrations.reverse.find? (·.isFor timer)

/-- One timer comes before another: its deadline is earlier, or it is the same and the timer was
registered earlier. -/
def Precedes (first next : Registration) : Prop :=
  first.timer.deadline < next.timer.deadline ∨
    first.timer.deadline = next.timer.deadline ∧ first.number < next.number

instance (first next : Registration) : Decidable (first.Precedes next) :=
  inferInstanceAs (Decidable (_ ∨ _))

/-- A registration was made after all those for the target and event of another one. -/
def IsAfterAll (registrations : List Registration) (attempt first : Registration) : Prop :=
  ∀ other ∈ registrations, other.isFor first.timer = true → other.number < attempt.number

/-- A timer was put behind one with the same deadline that was registered later: a registration that
was to replace it has failed, after all registrations for the target and event of the other one. -/
structure IsPutBehind (registrations : List Registration) (entry first : Registration) : Prop where
  deadline_eq : entry.timer.deadline = first.timer.deadline
  number_lt : entry.number < first.number
  exists_failed : ∃ attempt ∈ registrations, attempt.succeeded = false ∧
    attempt.isFor entry.timer = true ∧ IsAfterAll registrations attempt first

/-- One timer is pending in front of another: its deadline is earlier, or it is the same and some
registration for the target and event of the other one was made after all those for its own, whether
or not it succeeded. -/
def StandsBefore (registrations : List Registration) (first next : Registration) : Prop :=
  first.timer.deadline < next.timer.deadline ∨
    first.timer.deadline = next.timer.deadline ∧
      ∃ attempt ∈ registrations, attempt.isFor next.timer = true ∧
        IsAfterAll registrations attempt first

variable {registrations kept : List Registration} {entry first next : Registration} {timer : Timer}

theorem isFor_of_find? (hfound : registrations.find? (·.isFor timer) = some entry) :
    entry.isFor timer = true :=
  List.find?_some (p := fun other : Registration => other.isFor timer) hfound

theorem insert_perm (entry : Registration) (pending : List Registration) :
    (entry.insert pending).Perm (entry :: pending) := by
  unfold insert
  refine List.perm_middle.trans (List.Perm.cons entry ?_)
  rw [List.takeWhile_append_dropWhile]

/-- A registration is put where its timer is put. -/
theorem map_timer_insert (entry : Registration) (pending : List Registration) :
    (entry.insert pending).map Registration.timer =
      TimerQueue.insert entry.timer (pending.map Registration.timer) := by
  rw [TimerQueue.insert_eq, insert, List.map_append, List.map_cons, List.takeWhile_map,
    List.dropWhile_map]
  rfl

/-- What is not for the target and event of a registration stays in its order when that is put
among it. -/
theorem filter_insert {keeps : Registration → Bool} (hentry : keeps entry = false)
    (pending : List Registration) :
    (entry.insert pending).filter keeps = pending.filter keeps := by
  unfold insert
  rw [List.filter_append, List.filter_cons_of_neg (by simp [hentry]), ← List.filter_append,
    List.takeWhile_append_dropWhile]

/-! ### The latest registration -/

theorem mem_of_latest? {last : Registration} (hlast : latest? registrations timer = some last) :
    last ∈ registrations :=
  List.mem_reverse.mp (List.mem_of_find?_eq_some hlast)

theorem isFor_of_latest? {last : Registration} (hlast : latest? registrations timer = some last) :
    last.isFor timer = true :=
  isFor_of_find? hlast

/-- Of the registrations for a target and event the latest one has the greatest number. -/
theorem eq_or_number_lt_of_latest? {last : Registration}
    (hnumbered : registrations.Pairwise (·.number < ·.number))
    (hlast : latest? registrations timer = some last) (hentry : entry ∈ registrations)
    (hfor : entry.isFor timer = true) : entry = last ∨ entry.number < last.number := by
  obtain ⟨_, later, earlier, hsplit, hlater⟩ := List.find?_eq_some_iff_append.mp hlast
  rw [← List.reverse_reverse registrations, hsplit, List.reverse_append, List.reverse_cons,
    List.append_assoc] at hnumbered hentry
  rcases List.mem_append.mp hentry with hearlier | hrest
  · exact .inr ((List.pairwise_append.mp hnumbered).2.2 entry hearlier last List.mem_cons_self)
  · rcases List.mem_cons.mp hrest with heq | hmem
    · exact .inl heq
    · have hnot := hlater entry (List.mem_reverse.mp hmem)
      simp [hfor] at hnot

/-! ### The order of the pending timers -/

/-- A registration for something else does not come after all those that another one does. -/
theorem IsAfterAll.concat {attempt : Registration} (hafter : IsAfterAll registrations attempt first)
    (hfirst : entry.isFor first.timer = false) :
    IsAfterAll (registrations ++ [entry]) attempt first := by
  intro other hother hfor
  rcases List.mem_append.mp hother with hbefore | hnew
  · exact hafter other hbefore hfor
  · rw [List.mem_singleton.mp hnew, hfirst] at hfor
    exact absurd hfor Bool.false_ne_true

theorem StandsBefore.deadline_le (hbefore : StandsBefore registrations first next) :
    first.timer.deadline ≤ next.timer.deadline := by
  rcases hbefore with hlt | ⟨heq, _⟩ <;> omega

/-- Timers with the same deadline stand in the order of their latest registrations. -/
theorem StandsBefore.latest_number_lt (hbefore : StandsBefore registrations first next)
    (hnumbered : registrations.Pairwise (·.number < ·.number))
    (hsame : first.timer.deadline = next.timer.deadline) {a b : Registration}
    (ha : latest? registrations first.timer = some a)
    (hb : latest? registrations next.timer = some b) : a.number < b.number := by
  rcases hbefore with hlt | ⟨_, attempt, hattempt, hfor, hafter⟩
  · omega
  · have hlt := hafter a (mem_of_latest? ha) (isFor_of_latest? ha)
    rcases eq_or_number_lt_of_latest? hnumbered hb hattempt hfor with rfl | hle
    · exact hlt
    · exact Nat.lt_trans hlt hle

/-- A timer stays in front of others until there is one more registration for it. -/
theorem StandsBefore.concat (hbefore : StandsBefore registrations first next)
    (hfirst : entry.isFor first.timer = false) :
    StandsBefore (registrations ++ [entry]) first next := by
  rcases hbefore with hlt | ⟨heq, attempt, hattempt, hfor, hafter⟩
  · exact .inl hlt
  · exact .inr ⟨heq, attempt, List.mem_append_left _ hattempt, hfor, hafter.concat hfirst⟩

/-- What there is one more registration for comes after all that is not due after it. -/
theorem standsBefore_concat (hnumber : ∀ other ∈ registrations, other.number < entry.number)
    (hfirst : entry.isFor first.timer = false) (hnext : entry.isFor next.timer = true)
    (hle : first.timer.deadline ≤ next.timer.deadline) :
    StandsBefore (registrations ++ [entry]) first next := by
  have hafter : IsAfterAll registrations entry first := fun other hother _ => hnumber other hother
  rcases Int.lt_or_eq_of_le hle with hlt | heq
  · exact .inl hlt
  · exact .inr ⟨heq, entry, List.mem_append_right _ List.mem_cons_self, hnext, hafter.concat hfirst⟩

/-- A registration that is put among others, when there is one more for its target and event, keeps
them in their order. -/
theorem pairwise_standsBefore_insert (hkept : kept.Pairwise (StandsBefore registrations))
    (hnumber : ∀ other ∈ registrations, other.number < entry.number)
    (hothers : ∀ other ∈ kept, entry.isFor other.timer = false)
    (hnext : entry.isFor next.timer = true) :
    (next.insert kept).Pairwise (StandsBefore (registrations ++ [entry])) := by
  have hsorted : kept.Pairwise fun a b => a.timer.deadline ≤ b.timer.deadline :=
    hkept.imp fun hbefore => hbefore.deadline_le
  refine pairwise_between ?_ (fun other hother => ?_) (fun other hother => ?_)
  · exact hkept.imp_of_mem fun ha _ hbefore => hbefore.concat (hothers _ ha)
  · have hle : other.timer.deadline ≤ next.timer.deadline := by
      simpa using List.all_eq_true.mp List.all_takeWhile other hother
    have hkeptOther := (List.takeWhile_prefix _).mem hother
    exact standsBefore_concat hnumber (hothers other hkeptOther) hnext hle
  · have hlt : next.timer.deadline < other.timer.deadline :=
      lt_of_mem_dropWhile hsorted hother
    exact .inl hlt

/-- A registration that is put among others for other targets and events is for another one than
they are. -/
theorem pairwise_isFor_insert (hkept : kept.Pairwise fun a b => a.isFor b.timer = false)
    (hothers : ∀ other ∈ kept, next.isFor other.timer = false) :
    (next.insert kept).Pairwise fun a b => a.isFor b.timer = false := by
  have hsymm {a b : Registration} (hab : a.isFor b.timer = false) : b.isFor a.timer = false := by
    rw [← hab]
    exact Timer.sameKey_comm b.timer a.timer
  refine ((insert_perm next kept).pairwise_iff hsymm).mpr ?_
  exact List.pairwise_cons.mpr ⟨hothers, hkept⟩

end Registration

end LayeredMachines
