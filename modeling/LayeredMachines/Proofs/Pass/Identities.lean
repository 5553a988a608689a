import LayeredMachines.Proofs.Pass.Endings
import LayeredMachines.Proofs.Pass.Isolation

/-!
# Identities and places in a pass

Every layer is given the next number when it is started, and keeps it. So no two layers share an
identity, and one that was given out before some time is not given out again. While no record is
dropped, layers also keep their slots and their parents, and a layer that has left the hierarchy
does not come back.
-/

namespace LayeredMachines

namespace Hierarchy

/-- The identity of the layer in a slot, unless the layer is taken out. -/
def id? (hierarchy : Hierarchy) (slot : Nat) : Option LayerId :=
  (hierarchy.layer? slot).map Layer.id

/-- The layers have numbers from `first` on and below `next`, and no two of them share one. -/
structure IsNumbered (first next : Nat) (hierarchy : Hierarchy) : Prop where
  first_le : first ≤ next
  number_ge : ∀ {slot id}, hierarchy.id? slot = some id → first ≤ id.number
  number_lt : ∀ {slot id}, hierarchy.id? slot = some id → id.number < next
  slot_eq : ∀ {slot other id}, hierarchy.id? slot = some id → hierarchy.id? other = some id →
    slot = other

/-- The records of `before` are there later on, in their slots and below the same parents, and those
that were detached are detached. -/
structure Grows (before after : Hierarchy) : Prop where
  size_le : before.size ≤ after.size
  parent?_eq : ∀ slot < before.size, after.parent? slot = before.parent? slot
  isAttached_of : ∀ slot < before.size, after.isAttached slot = true →
    before.isAttached slot = true
  holds : ∀ slot layer, before.layer? slot = some layer → after.Holds slot layer

variable {hierarchy before middle after : Hierarchy} {slot other first next : Nat} {layer : Layer}
  {id : LayerId}

/-! ### Numbers -/

theorem id?_eq_some_iff :
    hierarchy.id? slot = some id ↔ ∃ layer, hierarchy.layer? slot = some layer ∧ layer.id = id :=
  Option.map_eq_some_iff

theorem id?_restore (hierarchy : Hierarchy) (slot : Nat) (layer : Layer) (other : Nat) :
    (hierarchy.restore slot layer).id? other =
      if other = slot ∧ slot < hierarchy.size then some layer.id else hierarchy.id? other := by
  rw [id?, layer?_restore]
  split <;> rfl

/-- Whether layers are numbered is a matter of their identities alone. -/
theorem IsNumbered.congr (h : before.IsNumbered first next)
    (hid : ∀ slot, after.id? slot = before.id? slot) : after.IsNumbered first next where
  first_le := h.first_le
  number_ge hslot := h.number_ge (hid _ ▸ hslot)
  number_lt hslot := h.number_lt (hid _ ▸ hslot)
  slot_eq hslot hother := h.slot_eq (hid _ ▸ hslot) (hid _ ▸ hother)

theorem isNumbered_empty (first : Nat) : empty.IsNumbered first first where
  first_le := Nat.le_refl first
  number_ge h := by simp [id?, layer?, empty] at h
  number_lt h := by simp [id?, layer?, empty] at h
  slot_eq h := by simp [id?, layer?, empty] at h

/-- A layer with the next number can be added. -/
theorem IsNumbered.attach (h : hierarchy.IsNumbered first next) (parent : Option Nat)
    (hlayer : layer.id = ⟨next⟩) : (hierarchy.attach parent layer).IsNumbered first (next + 1) := by
  have hid (slot : Nat) : (hierarchy.attach parent layer).id? slot =
      if slot = hierarchy.size then some ⟨next⟩ else hierarchy.id? slot := by
    rw [id?, layer?_attach]
    split
    · rw [Option.map_some, hlayer]
    · rfl
  constructor
  · exact Nat.le_succ_of_le h.first_le
  · intro slot id hslot
    rw [hid] at hslot
    split at hslot
    · exact Option.some.inj hslot ▸ h.first_le
    · exact h.number_ge hslot
  · intro slot id hslot
    rw [hid] at hslot
    split at hslot
    · exact Option.some.inj hslot ▸ Nat.lt_succ_self next
    · exact Nat.lt_succ_of_lt (h.number_lt hslot)
  · intro slot other id hslot hother
    rw [hid] at hslot hother
    split at hslot <;> split at hother
    · omega
    · have hlt := h.number_lt hother
      rw [← Option.some.inj hslot] at hlt
      exact absurd hlt (Nat.lt_irrefl next)
    · have hlt := h.number_lt hslot
      rw [← Option.some.inj hother] at hlt
      exact absurd hlt (Nat.lt_irrefl next)
    · exact h.slot_eq hslot hother

/-- Where one hierarchy embeds into another, its layers are numbered like those of the other. -/
theorem Embeds.isNumbered {place : Nat → Nat} (hembeds : before.Embeds place after)
    (h : after.IsNumbered first next) : before.IsNumbered first next := by
  have hid (slot : Nat) : after.id? (place slot) = before.id? slot := by
    rw [id?, hembeds.layer?_place, id?]
  refine ⟨h.first_le, fun hslot => h.number_ge ((hid _).trans hslot),
    fun hslot => h.number_lt ((hid _).trans hslot), fun hslot hother => ?_⟩
  exact hembeds.place_eq_iff.mp (h.slot_eq ((hid _).trans hslot) ((hid _).trans hother))

/-! ### Growth -/

theorem Grows.refl (hierarchy : Hierarchy) : hierarchy.Grows hierarchy where
  size_le := Nat.le_refl _
  parent?_eq _ _ := rfl
  isAttached_of _ _ hattached := hattached
  holds _ layer hlayer := ⟨layer, hlayer, .refl layer⟩

theorem Grows.trans (hfirst : before.Grows middle) (hnext : middle.Grows after) :
    before.Grows after where
  size_le := Nat.le_trans hfirst.size_le hnext.size_le
  parent?_eq slot hslot := by
    have hmiddle := Nat.lt_of_lt_of_le hslot hfirst.size_le
    rw [hnext.parent?_eq slot hmiddle, hfirst.parent?_eq slot hslot]
  isAttached_of slot hslot hattached := by
    have hmiddle := Nat.lt_of_lt_of_le hslot hfirst.size_le
    exact hfirst.isAttached_of slot hslot (hnext.isAttached_of slot hmiddle hattached)
  holds slot layer hlayer := by
    obtain ⟨later, hlater, hsame⟩ := hfirst.holds slot layer hlayer
    obtain ⟨last, hlast, hsameLast⟩ := hnext.holds slot later hlater
    exact ⟨last, hlast, hsame.trans hsameLast⟩

/-- Layers keep their identities. -/
theorem Grows.id? (hgrows : before.Grows after) (hid : before.id? slot = some id) :
    after.id? slot = some id := by
  obtain ⟨layer, hlayer, rfl⟩ := id?_eq_some_iff.mp hid
  obtain ⟨later, hlater, hsame⟩ := hgrows.holds slot layer hlayer
  exact id?_eq_some_iff.mpr ⟨later, hlater, hsame.id_eq⟩

end Hierarchy

/-- Timers that are added for a layer are for this layer. -/
theorem TimerQueue.AddsFor.mem_or {id : LayerId} {before after : TimerQueue}
    (hadds : before.AddsFor id after) {timer : Timer} (htimer : timer ∈ after.pending) :
    timer ∈ before.pending ∨ timer.target = id := by
  obtain ⟨added, hadded, rfl⟩ := hadds
  induction added generalizing before with
  | nil => exact .inl htimer
  | cons first rest ih =>
    have hrest : ∀ other ∈ rest, other.target = id :=
      fun other hother => hadded other (List.mem_cons_of_mem first hother)
    rcases ih hrest htimer with hbefore | htarget
    · rcases List.mem_cons.mp ((TimerQueue.insert_perm first _).mem_iff.mp hbefore) with
        rfl | hkept
      · exact .inr (hadded timer List.mem_cons_self)
      · exact .inl (List.mem_of_mem_eraseP hkept)
    · exact .inr htarget

namespace Pass

variable {around : Surroundings} {slot first : Nat} {id : LayerId} {pass next last : Pass}
  {item : WorkItem} {layer : Layer}

/-- Layers are numbered up to the next number, and timers are for numbers that were given out. -/
structure IsNumbered (first : Nat) (pass : Pass) : Prop where
  layers : pass.hierarchy.IsNumbered first pass.nextLayer
  timers : ∀ timer ∈ pass.timers.pending, timer.target.number < pass.nextLayer

/-! ### One walk -/

/-- A layer that is started has the next number. The layer that walks is counted as if it were in its
record. -/
theorem Effect.isNumbered (heffect : Effect around slot id pass next)
    (hslot : slot < pass.hierarchy.size)
    (h : (pass.hierarchy.restore slot layer).IsNumbered first pass.nextLayer) :
    (next.hierarchy.restore slot layer).IsNumbered first next.nextLayer := by
  cases heffect with
  | @started machine seed =>
    rw [startLayer_eq]
    have hnew : (pass.newLayer around.config machine seed).id = ⟨pass.nextLayer⟩ := rfl
    refine (h.attach (some slot) hnew).congr fun other => ?_
    simp only [Hierarchy.id?, Hierarchy.layer?_restore, Hierarchy.layer?_attach,
      Hierarchy.size_attach, Hierarchy.size_restore]
    have hne : slot ≠ pass.hierarchy.size := Nat.ne_of_lt hslot
    by_cases hother : other = slot
    · simp only [hother, hne, hslot, Nat.lt_succ_of_lt hslot, and_self, if_true, if_false]
    · simp only [hother, false_and, if_false]
  | blasted =>
    rw [enqueueAll_eq]
    exact h
  | wrote =>
    refine h.congr fun other => ?_
    simp only [Hierarchy.id?, Hierarchy.layer?_restore, Hierarchy.layer?_modifyLayer,
      Hierarchy.size_modifyLayer]
    split
    · rfl
    · split
      · next heq =>
        rw [heq]
        cases pass.hierarchy.layer? _ <;> rfl
      · rfl
  | popped =>
    refine h.congr fun other => ?_
    simp only [Hierarchy.id?, Hierarchy.layer?_restore, Hierarchy.layer?_detach,
      Hierarchy.size_detach]
  | _ => exact h

/-- No effect attaches a layer that was there. -/
theorem Effect.isAttached_of {other : Nat} (heffect : Effect around slot id pass next)
    (hother : other < pass.hierarchy.size) (hattached : next.hierarchy.isAttached other = true) :
    pass.hierarchy.isAttached other = true := by
  cases heffect with
  | started =>
    rwa [startLayer_eq, Hierarchy.isAttached_attach, if_neg (Nat.ne_of_lt hother)] at hattached
  | blasted => rwa [enqueueAll_eq] at hattached
  | wrote => rwa [Hierarchy.isAttached_modifyLayer] at hattached
  | popped =>
    rw [Hierarchy.isAttached_detach] at hattached
    split at hattached
    · simp at hattached
    · exact hattached
  | _ => exact hattached

/-- The numbers that are given out are never taken back. -/
theorem Effect.nextLayer_le (heffect : Effect around slot id pass next) :
    pass.nextLayer ≤ next.nextLayer := by
  cases heffect with
  | started => exact Nat.le_succ _
  | blasted => rw [enqueueAll_eq]
  | _ => exact Nat.le_refl _

/-- While a layer walks, new layers are given new numbers. -/
theorem Resting.isNumbered_runWalk (hpass : pass.Resting)
    (h : pass.hierarchy.IsNumbered first pass.nextLayer) (hitem : pass.next? = some item)
    (hlayer : pass.hierarchy.layer? item.slot = some layer) :
    pass.nextLayer ≤ (pass.runWalk around item layer).2.nextLayer ∧
      ((pass.runWalk around item layer).2.hierarchy.restore item.slot layer).IsNumbered first
        (pass.runWalk around item layer).2.nextLayer := by
  have hwalking := hpass.beginWalk hitem layer
  have hbegin : ((pass.beginWalk item layer).hierarchy.restore item.slot layer).IsNumbered first
      (pass.beginWalk item layer).nextLayer := by
    refine h.congr fun other => ?_
    rw [Hierarchy.id?_restore, Hierarchy.id?, layer?_beginWalk]
    by_cases hother : other = item.slot
    · rw [if_pos ⟨hother, hwalking.slot_lt⟩, hother, Hierarchy.id?, hlayer, Option.map_some]
    · rw [if_neg fun heq => hother heq.1, if_neg hother, Hierarchy.id?]
  have hkept {before after : Pass} (heffect : Effect around item.slot layer.id before after)
      (hbefore : before.Walking item.slot ∧ pass.nextLayer ≤ before.nextLayer ∧
        (before.hierarchy.restore item.slot layer).IsNumbered first before.nextLayer) :
      after.Walking item.slot ∧ pass.nextLayer ≤ after.nextLayer ∧
        (after.hierarchy.restore item.slot layer).IsNumbered first after.nextLayer :=
    ⟨hbefore.1.effect heffect, Nat.le_trans hbefore.2.1 heffect.nextLayer_le,
      heffect.isNumbered hbefore.1.slot_lt hbefore.2.2⟩
  exact (run_of_effect hkept (around.walk item layer)
    ⟨hwalking, Nat.le_refl pass.nextLayer, hbegin⟩).2

/-- Processing a work item gives new layers new numbers. -/
theorem Resting.isNumbered_step (hpass : pass.Resting) (h : pass.IsNumbered first)
    (hstep : pass.step? around = some next) : next.IsNumbered first := by
  obtain ⟨item, layer, hitem, hlayer, rfl⟩ := hpass.step?_cases hstep
  obtain ⟨hnext, hend⟩ : pass.nextLayer ≤ (pass.runWalk around item layer).2.nextLayer ∧ _ :=
    hpass.isNumbered_runWalk h.layers hitem hlayer
  have hsame : layer.IsSame (pass.runWalk around item layer).1 :=
    (layer.follow_yields _ _ _).run _ _
  constructor
  · refine hend.congr fun other => ?_
    rw [walked, endWalk, Hierarchy.id?_restore, Hierarchy.id?_restore, hsame.id_eq]
  · intro timer htimer
    have hgiven : layer.id.number < pass.nextLayer :=
      h.layers.number_lt (Hierarchy.id?_eq_some_iff.mpr ⟨layer, hlayer, rfl⟩)
    rcases (hpass.keepsOthers_walked hitem layer).2.mem_or htimer with hold | hnew
    · exact Nat.lt_of_lt_of_le (h.timers timer hold) hnext
    · rw [hnew]
      exact Nat.lt_of_lt_of_le hgiven hnext

/-- While a layer walks, no layer is attached again. -/
theorem isAttached_of_runWalk {other : Nat} (hother : other < pass.hierarchy.size)
    (hattached : (pass.runWalk around item layer).2.hierarchy.isAttached other = true) :
    pass.hierarchy.isAttached other = true := by
  have hkept {before after : Pass} (heffect : Effect around item.slot layer.id before after)
      (hbefore : other < before.hierarchy.size ∧
        (before.hierarchy.isAttached other = true → pass.hierarchy.isAttached other = true)) :
      other < after.hierarchy.size ∧
        (after.hierarchy.isAttached other = true → pass.hierarchy.isAttached other = true) :=
    ⟨Nat.lt_of_lt_of_le hbefore.1 heffect.size_le,
      fun hafter => hbefore.2 (heffect.isAttached_of hbefore.1 hafter)⟩
  have hbegin : other < (pass.beginWalk item layer).hierarchy.size ∧
      ((pass.beginWalk item layer).hierarchy.isAttached other = true →
        pass.hierarchy.isAttached other = true) := by
    rw [beginWalk, notify, Hierarchy.size_take, Hierarchy.isAttached_take]
    exact ⟨hother, fun hbefore => hbefore⟩
  exact (run_of_effect hkept (around.walk item layer) hbegin).2 hattached

/-- Processing a work item leaves all layers in their slots. -/
theorem Resting.grows_step (hpass : pass.Resting) (hstep : pass.step? around = some next) :
    pass.hierarchy.Grows next.hierarchy := by
  have hholds (slot : Nat) (layer : Layer) (hlayer : pass.hierarchy.layer? slot = some layer) :
      next.hierarchy.Holds slot layer := hpass.holds_step ⟨layer, hlayer, .refl layer⟩ hstep
  obtain ⟨item, layer, hitem, hlayer, rfl⟩ := hpass.step?_cases hstep
  have hothers : pass.hierarchy.KeepsOthers item.slot (pass.walked around item layer).hierarchy :=
    (hpass.keepsOthers_walked hitem layer).1
  refine ⟨hothers.size_le, hothers.parent?_eq, fun slot hslot hattached => ?_, hholds⟩
  rw [walked, endWalk, Hierarchy.isAttached_restore] at hattached
  exact isAttached_of_runWalk hslot hattached

/-! ### A whole pass -/

/-- A pass gives new layers new numbers. -/
theorem Resting.isNumbered_leads (hpass : pass.Resting) (h : pass.IsNumbered first)
    (hleads : Leads around pass last) : last.IsNumbered first := by
  induction hleads with
  | refl => exact h
  | tail hleads hstep ih => exact (hpass.leads hleads).isNumbered_step ih hstep

/-- A pass takes no number back. -/
theorem nextLayer_le_of_leads (hleads : Leads around pass last) :
    pass.nextLayer ≤ last.nextLayer := by
  induction hleads with
  | refl => exact Nat.le_refl _
  | @tail middle next _ hstep ih =>
    refine Nat.le_trans ih ?_
    cases hitem : middle.next? with
    | none => simp [step?_eq_none.mpr hitem] at hstep
    | some item =>
      cases hlayer : middle.hierarchy.layer? item.slot with
      | none =>
        rw [step?_of_layer?_eq_none hitem hlayer] at hstep
        obtain rfl := Option.some.inj hstep
        exact Nat.le_refl _
      | some layer =>
        rw [step?_of_layer? hitem hlayer] at hstep
        obtain rfl := Option.some.inj hstep
        have hkept {before after : Pass} (heffect : Effect around item.slot layer.id before after)
            (hbefore : middle.nextLayer ≤ before.nextLayer) : middle.nextLayer ≤ after.nextLayer :=
          Nat.le_trans hbefore heffect.nextLayer_le
        have hbegin : middle.nextLayer ≤ (middle.beginWalk item layer).nextLayer := Nat.le_refl _
        exact run_of_effect hkept (around.walk item layer) hbegin

/-- A pass leaves all layers in their slots. -/
theorem Resting.grows_leads (hpass : pass.Resting) (hleads : Leads around pass last) :
    pass.hierarchy.Grows last.hierarchy := by
  induction hleads with
  | refl => exact .refl pass.hierarchy
  | tail hleads hstep ih => exact ih.trans ((hpass.leads hleads).grows_step hstep)

end Pass

end LayeredMachines
