import LayeredMachines.Proofs.Engine.Compaction
import LayeredMachines.Proofs.Pass.Identities

/-!
# Identities and places between two starts

An engine that is compacted moves its layers to other slots, but one that never is keeps them in
their places until it starts afresh. Since the two mirror each other, what the second one keeps can
be said of the first: layers are numbered in the order in which they were started, and one that has
left does not come back.
-/

namespace LayeredMachines.Engine

variable {engine next last small large : Engine} {items first earlier : Nat} {action : Action}
  {event : String} {target : Option LayerId} {now : Int}

/-- Layers have numbers from `first` on and below the next number, and timers are for numbers that
were given out. -/
structure IsNumbered (first : Nat) (engine : Engine) : Prop where
  layers : engine.hierarchy.IsNumbered first engine.nextLayer
  timers : ∀ timer ∈ engine.timers.pending, timer.target.number < engine.nextLayer

/-- What holds of an engine between its passes, whether it is compacted after them or not. -/
structure Intact (first : Nat) (engine : Engine) : Prop where
  ordered : engine.hierarchy.Ordered
  isFull : engine.hierarchy.IsFull
  isNumbered : engine.IsNumbered first

/-! ### Numbers -/

theorem IsNumbered.mono (h : engine.IsNumbered first) (hearlier : earlier ≤ first) :
    engine.IsNumbered earlier where
  layers := {
    first_le := Nat.le_trans hearlier h.layers.first_le
    number_ge := fun hid => Nat.le_trans hearlier (h.layers.number_ge hid)
    number_lt := h.layers.number_lt
    slot_eq := h.layers.slot_eq }
  timers := h.timers

/-- An engine that starts afresh has no layer with a number that was given out before. -/
theorem isNumbered_restart (engine : Engine) (library : Library) :
    (engine.restart library).IsNumbered engine.nextLayer := by
  have hnone (next : Nat) : ∀ timer ∈ TimerQueue.empty.pending, timer.target.number < next :=
    fun timer htimer => absurd htimer List.not_mem_nil
  have hempty := Hierarchy.isNumbered_empty engine.nextLayer
  unfold restart
  split
  · next machine _ =>
    have hroot : (Layer.create ⟨engine.nextLayer⟩ machine engine.config.historyLimit).id =
        ⟨engine.nextLayer⟩ := rfl
    exact ⟨hempty.attach none hroot, hnone _⟩
  · exact ⟨hempty, hnone _⟩

/-- A pass begins with layers and timers that are numbered like those of the engine. -/
theorem IsNumbered.beginPass (h : engine.IsNumbered first) (event : String)
    (target : Option LayerId) : (engine.beginPass event target).IsNumbered first := by
  rw [Engine.beginPass, Pass.enqueueAll_eq]
  exact ⟨h.layers, h.timers⟩

/-! ### One action, without a compaction -/

/-- Delivering an event gives new layers new numbers, and leaves the others where they are. -/
theorem Intact.deliver? (h : engine.Intact first)
    (hdeliver : engine.deliver? items event target now = some next) :
    next.Intact first ∧ engine.hierarchy.Grows next.hierarchy := by
  rcases deliver?_cases hdeliver with rfl | ⟨hevent, last, hdrain, rfl⟩
  · exact ⟨h, .refl _⟩
  · have hbegin := resting_beginPass h.ordered h.isFull hevent target
    have hleads := (Pass.leads_of_drain? hdrain).1
    have hlast := hbegin.leads hleads
    have hnumbered := hbegin.isNumbered_leads (h.isNumbered.beginPass event target) hleads
    have hgrows := hbegin.grows_leads hleads
    rw [hierarchy_beginPass] at hgrows
    exact ⟨⟨hlast.ordered, hlast.isFull, hnumbered.layers, hnumbered.timers⟩, hgrows⟩

/-- An engine may lose timers. -/
theorem Intact.setTimers (h : engine.Intact first) {timers : TimerQueue}
    (htimers : ∀ timer ∈ timers.pending, timer ∈ engine.timers.pending) :
    { engine with timers := timers }.Intact first :=
  ⟨h.ordered, h.isFull, h.isNumbered.layers,
    fun timer htimer => h.isNumbered.timers timer (htimers timer htimer)⟩

/-- Every action but a start gives new layers new numbers, and leaves the others where they are as
long as nothing is compacted. -/
theorem Intact.act? (h : engine.Intact first) (haction : action.isRestart = false)
    (hact : engine.act? id items action = some next) :
    next.Intact first ∧ engine.hierarchy.Grows next.hierarchy := by
  have hrest {timer : Timer} {rest : TimerQueue} (hnext : engine.timers.next? = some (timer, rest)) :
      { engine with timers := rest }.Intact first := by
    refine h.setTimers fun other hother => ?_
    unfold TimerQueue.next? at hnext
    split at hnext
    · simp at hnext
    · next due _ hpending =>
      obtain ⟨rfl, rfl⟩ := Prod.mk.inj (Option.some.inj hnext)
      rw [hpending]
      exact List.mem_cons_of_mem due hother
  cases action with
  | restart library => simp [Action.isRestart] at haction
  | setResolver resolver =>
    obtain rfl := Option.some.inj hact
    exact ⟨⟨h.ordered, h.isFull, h.isNumbered.layers, h.isNumbered.timers⟩, .refl _⟩
  | handle event target now =>
    rw [Engine.act?, Option.map_id_apply] at hact
    exact h.deliver? hact
  | fire now =>
    simp only [Engine.act?] at hact
    split at hact
    · next timer rest hnext =>
      rw [Option.map_id_apply] at hact
      exact (hrest hnext).deliver? hact
    · obtain rfl := Option.some.inj hact
      exact ⟨h, .refl _⟩
  | expire =>
    simp only [Engine.act?] at hact
    split at hact
    · next timer rest hnext =>
      obtain rfl := Option.some.inj hact
      exact ⟨hrest hnext, .refl _⟩
    · obtain rfl := Option.some.inj hact
      exact ⟨h, .refl _⟩

/-! ### Engines that are compacted -/

/-- A settled engine mirrors itself. -/
theorem Settled.mirrors_self (h : engine.Settled) : Mirrors engine engine :=
  ⟨h, id, rfl, rfl, rfl, rfl, .refl _, rfl, rfl⟩

theorem Settled.intact (h : engine.Settled) (hnumbered : engine.IsNumbered first) :
    engine.Intact first :=
  ⟨h.ordered, h.isFull, hnumbered⟩

/-- Layers and timers are numbered alike in an engine and its mirror. -/
theorem Mirrors.isNumbered (h : Mirrors small large) (hlarge : large.IsNumbered first) :
    small.IsNumbered first := by
  obtain ⟨_, place, hembeds⟩ := h
  have hlayers := hembeds.hierarchy.isNumbered hlarge.layers
  rw [hembeds.nextLayer_eq] at hlayers
  refine ⟨hlayers, fun timer htimer => ?_⟩
  rw [← hembeds.nextLayer_eq]
  exact hlarge.timers timer (hembeds.timers_eq ▸ htimer)

/-- What an engine does until it starts afresh, its mirror does without moving a layer. -/
theorem Mirrors.continues (h : Mirrors small large) (hlarge : large.Intact first)
    (hlast : small.Continues last) :
    ∃ larger, Mirrors last larger ∧ larger.Intact first ∧
      large.hierarchy.Grows larger.hierarchy := by
  induction hlast with
  | refl => exact ⟨large, h, hlarge, .refl _⟩
  | @act middle next items action _ haction hact ih =>
    obtain ⟨larger, hmirrors, hlarger, hgrows⟩ := ih
    rcases rel_cases (hmirrors.act? items action) with
      ⟨hnone, _⟩ | ⟨_, last, hsmall, hlast, hnext⟩
    · simp [hact] at hnone
    · obtain rfl := Option.some.inj (hact.symm.trans hsmall)
      obtain ⟨hintact, hlater⟩ := hlarger.act? haction hlast
      exact ⟨last, hnext, hintact, hgrows.trans hlater⟩

/-- What an engine does until it starts afresh gives new layers new numbers. -/
theorem Continues.isNumbered (hlast : engine.Continues last) (hengine : engine.Settled)
    (hnumbered : engine.IsNumbered first) : last.IsNumbered first := by
  obtain ⟨larger, hmirrors, hlarger, _⟩ :=
    hengine.mirrors_self.continues (hengine.intact hnumbered) hlast
  exact hmirrors.isNumbered hlarger.isNumbered

/-- One engine comes from another by actions, which may also start it afresh. -/
def Leads : Engine → Engine → Prop :=
  Relation.ReflTransGen fun engine next =>
    ∃ items action, engine.act? compact items action = some next

/-- Every action gives new layers new numbers. -/
theorem IsNumbered.act? (h : engine.IsNumbered first) (hengine : engine.Settled)
    (hact : engine.act? compact items action = some next) : next.IsNumbered first := by
  by_cases haction : action.isRestart = true
  · cases action with
    | restart library =>
      obtain rfl := Option.some.inj hact
      exact (isNumbered_restart engine library).mono h.layers.first_le
    | _ => simp [Action.isRestart] at haction
  · have hnext : engine.Continues next := .act (.refl engine) (Bool.not_eq_true _ ▸ haction) hact
    exact hnext.isNumbered hengine h

/-- Whatever an engine does gives new layers new numbers. -/
theorem Leads.isNumbered (hlast : engine.Leads last) (hengine : engine.Settled)
    (hnumbered : engine.IsNumbered first) : last.Settled ∧ last.IsNumbered first := by
  induction hlast with
  | refl => exact ⟨hengine, hnumbered⟩
  | tail _ hact ih =>
    obtain ⟨items, action, hact⟩ := hact
    exact ⟨ih.1.act? hact, ih.2.act? ih.1 hact⟩

/-- No action takes a number back. -/
theorem nextLayer_le_of_act? (hact : engine.act? compact items action = some next) :
    engine.nextLayer ≤ next.nextLayer := by
  rcases act?_cases hact with ⟨library, _, rfl⟩ | ⟨resolver, rfl⟩ | ⟨timers, rfl⟩ |
    ⟨timers, event, target, now, delivered, hdeliver, rfl⟩
  · exact (isNumbered_restart engine library).layers.first_le
  · exact Nat.le_refl _
  · exact Nat.le_refl _
  · rcases deliver?_cases hdeliver with rfl | ⟨_, last, hdrain, rfl⟩
    · exact Nat.le_refl _
    · have hle := Pass.nextLayer_le_of_leads (Pass.leads_of_drain? hdrain).1
      rwa [Engine.beginPass, Pass.enqueueAll_eq] at hle

/-- Whatever an engine does takes no number back. -/
theorem Leads.nextLayer_le (hlast : engine.Leads last) : engine.nextLayer ≤ last.nextLayer := by
  induction hlast with
  | refl => exact Nat.le_refl _
  | tail _ hact ih =>
    obtain ⟨items, action, hact⟩ := hact
    exact Nat.le_trans ih (nextLayer_le_of_act? hact)

/-- The layers of a reachable engine are numbered. -/
theorem Reachable.isNumbered (hengine : engine.Reachable) : engine.IsNumbered 0 := by
  induction hengine with
  | create config =>
    exact ⟨Hierarchy.isNumbered_empty 0, fun timer htimer => absurd htimer List.not_mem_nil⟩
  | act hbefore hact ih => exact ih.act? hbefore.settled hact

end LayeredMachines.Engine
