import LayeredMachines.Proofs.Layer.Follow
import LayeredMachines.Proofs.Pass.Walks

/-!
# How a pass leaves its layers

A layer is taken out of the hierarchy only at the end of a walk of its own. A layer that is
started in a final state has not walked yet, so its first event has to be counted on: between two
work items every finished layer below the root has work that is still to be done. At the end of a
pass no work is left, and so no finished layer either.
-/

namespace LayeredMachines

/-- Every layer that is in its record is there later, with nothing but variables changed. -/
def Hierarchy.KeepsLayers (hierarchy later : Hierarchy) : Prop :=
  ∀ slot layer, hierarchy.layer? slot = some layer →
    ∃ frames, later.layer? slot = some { layer with frames := frames }

/-- The layer in a slot is the given one at that time or later. -/
def Hierarchy.Holds (hierarchy : Hierarchy) (slot : Nat) (first : Layer) : Prop :=
  ∃ layer, hierarchy.layer? slot = some layer ∧ first.IsSame layer

/-- The layer in a slot does not rest in a final state. -/
def Hierarchy.IsUnfinished (hierarchy : Hierarchy) (slot : Nat) : Prop :=
  ∃ layer, hierarchy.layer? slot = some layer ∧ layer.isFinal = false

theorem Hierarchy.KeepsLayers.refl (hierarchy : Hierarchy) : hierarchy.KeepsLayers hierarchy :=
  fun _ layer hlayer => ⟨layer.frames, hlayer⟩

theorem Hierarchy.KeepsLayers.trans {hierarchy later last : Hierarchy}
    (hlater : hierarchy.KeepsLayers later) (hlast : later.KeepsLayers last) :
    hierarchy.KeepsLayers last := by
  intro slot layer hlayer
  obtain ⟨frames, hframes⟩ := hlater slot layer hlayer
  obtain ⟨lastFrames, hlastFrames⟩ := hlast slot _ hframes
  exact ⟨lastFrames, hlastFrames⟩

/-- A layer of which only variables change stays unfinished. -/
theorem Hierarchy.IsUnfinished.of_keepsLayers {hierarchy later : Hierarchy} {slot : Nat}
    (hunfinished : hierarchy.IsUnfinished slot) (hkeeps : hierarchy.KeepsLayers later) :
    later.IsUnfinished slot := by
  obtain ⟨layer, hlayer, hfinal⟩ := hunfinished
  obtain ⟨frames, hframes⟩ := hkeeps slot layer hlayer
  exact ⟨_, hframes, hfinal⟩

namespace Pass

variable {around : Surroundings} {slot other : Nat} {id : LayerId} {pass next last : Pass}
  {item : WorkItem} {layer : Layer}

/-- Some work for a slot is still to be done. -/
def IsPending (pass : Pass) (slot : Nat) : Prop :=
  ∃ n event, pass.progress ≤ n ∧ pass.queue[n]? = some ⟨event, slot⟩

/-- All attached layers are unfinished or have work to do, the root and some others apart. -/
def IsAttended (pass : Pass) (apart : Nat → Prop) : Prop :=
  ∀ slot, slot ≠ 0 → ¬ apart slot → pass.hierarchy.isAttached slot = true →
    pass.hierarchy.IsUnfinished slot ∨ pass.IsPending slot

/-! ### What a walking layer does to the others -/

/-- No effect changes anything but variables of the layers that are in their records. -/
theorem Effect.keepsLayers (heffect : Effect around slot id pass next) :
    pass.hierarchy.KeepsLayers next.hierarchy := by
  intro other layer hlayer
  cases heffect with
  | started =>
    have hlt := Hierarchy.lt_size_of_layer? hlayer
    refine ⟨layer.frames, ?_⟩
    simp only [startLayer_eq, Hierarchy.layer?_attach, Nat.ne_of_lt hlt, if_false]
    exact hlayer
  | blasted =>
    rw [enqueueAll_eq]
    exact ⟨layer.frames, hlayer⟩
  | @wrote parent label value =>
    by_cases heq : other = parent
    · refine ⟨layer.frames.write label value, ?_⟩
      simp only [heq, Hierarchy.layer?_modifyLayer, if_true]
      rw [← heq, hlayer, Option.map_some]
    · refine ⟨layer.frames, ?_⟩
      simp only [heq, Hierarchy.layer?_modifyLayer, if_false]
      exact hlayer
  | popped => exact ⟨layer.frames, by rw [Hierarchy.layer?_detach]; exact hlayer⟩
  | _ => exact ⟨layer.frames, hlayer⟩

/-- Work to do remains while more is added. -/
theorem IsPending.of_prefix (hpending : pass.IsPending other)
    (hprogress : next.progress = pass.progress)
    (hqueue : pass.queue.toList <+: next.queue.toList) : next.IsPending other := by
  obtain ⟨n, event, hle, hget⟩ := hpending
  obtain ⟨hlt, _⟩ := Array.getElem?_eq_some_iff.mp hget
  exact ⟨n, event, by omega, (getElem?_queue_eq hqueue hlt).trans hget⟩

/-- A layer that is attached after an effect was attached before, or has its first event to
follow. -/
theorem Effect.isAttached_cases (heffect : Effect around slot id pass next)
    (hprogress : pass.progress ≤ pass.queue.size)
    (hattached : next.hierarchy.isAttached other = true) :
    pass.hierarchy.isAttached other = true ∨ next.IsPending other := by
  cases heffect with
  | started =>
    simp only [startLayer_eq, Hierarchy.isAttached_attach] at hattached
    split at hattached
    · next heq =>
      refine .inr ⟨pass.queue.size, startedEvent, hprogress, ?_⟩
      rw [heq, startLayer_eq]
      exact Array.getElem?_push_size
    · exact .inl hattached
  | blasted =>
    rw [enqueueAll_eq] at hattached
    exact .inl hattached
  | wrote =>
    rw [Hierarchy.isAttached_modifyLayer] at hattached
    exact .inl hattached
  | popped =>
    rw [Hierarchy.isAttached_detach] at hattached
    split at hattached
    · simp at hattached
    · exact .inl hattached
  | _ => exact .inl hattached

/-- While a layer walks, all others stay attended. -/
theorem IsAttended.effect (hattended : pass.IsAttended (· = slot)) (hpass : pass.Walking slot)
    (heffect : Effect around slot id pass next) : next.IsAttended (· = slot) := by
  intro other hzero hother hattached
  rcases heffect.isAttached_cases hpass.progress_le hattached with hbefore | hpending
  · rcases hattended other hzero hother hbefore with hunfinished | hpending
    · exact .inl (hunfinished.of_keepsLayers heffect.keepsLayers)
    · exact .inr (hpending.of_prefix heffect.progress_eq heffect.queue_grows)
  · exact .inr hpending

/-! ### One work item -/

/-- When a layer begins to walk, all others are attended: its own work is not theirs. -/
theorem IsAttended.beginWalk (hattended : pass.IsAttended fun _ => False)
    (hitem : pass.next? = some item) (layer : Layer) :
    (pass.beginWalk item layer).IsAttended (· = item.slot) := by
  intro other hzero hother hattached
  simp only [Pass.beginWalk, notify, Hierarchy.isAttached_take] at hattached
  rcases hattended other hzero id hattached with ⟨rest, hlayer, hfinal⟩ | ⟨n, event, hle, hget⟩
  · refine .inl ⟨rest, ?_, hfinal⟩
    rw [layer?_beginWalk, if_neg hother]
    exact hlayer
  · refine .inr ⟨n, event, ?_, hget⟩
    have hne : n ≠ pass.progress := by
      rintro rfl
      rw [next?, hget] at hitem
      exact hother (congrArg WorkItem.slot (Option.some.inj hitem))
    have hlt : pass.progress < n := by omega
    exact hlt

/-- A layer with a parent that has just asked to be taken out is not attached. -/
theorem isAttached_handle_pop
    (hparent : ((around.handle slot id .pop pass).2.hierarchy.parent? slot).isSome) :
    (around.handle slot id .pop pass).2.hierarchy.isAttached slot = false := by
  by_cases hattached : pass.hierarchy.isAttached slot = true
  · simp only [Surroundings.handle, hattached, if_true, Hierarchy.parent?_detach] at hparent ⊢
    rw [Hierarchy.isAttached_detach, if_pos ⟨rfl, hparent⟩]
  · simp only [Surroundings.handle, hattached]
    simpa using hattached

/-- A layer that is still attached after its walk does not rest in a final state. -/
theorem Resting.isFinal_runWalk (hpass : pass.Resting) (hitem : pass.next? = some item)
    (hzero : item.slot ≠ 0) (layer : Layer)
    (hattached : (pass.runWalk around item layer).2.hierarchy.isAttached item.slot = true) :
    (pass.runWalk around item layer).1.isFinal = false := by
  by_contra hfinal
  rw [Bool.not_eq_false] at hfinal
  have hwalking : (pass.runWalk around item layer).2.Walking item.slot := hpass.runWalk hitem layer
  have hparent : ((pass.runWalk around item layer).2.hierarchy.parent? item.slot).isSome := by
    rw [Option.isSome_iff_ne_none, Ne, hwalking.ordered.parent?_eq_none hwalking.slot_lt]
    exact hzero
  obtain ⟨before, hbefore⟩ : ∃ before, (pass.runWalk around item layer).2 =
      (around.handle item.slot layer.id .pop before).2 := Layer.run_follow_of_isFinal hfinal
  rw [hbefore] at hattached hparent
  rw [isAttached_handle_pop hparent] at hattached
  simp at hattached

/-- At the end of a walk all other layers are attended. -/
theorem Resting.isAttended_runWalk (hpass : pass.Resting)
    (hattended : pass.IsAttended fun _ => False) (hitem : pass.next? = some item) (layer : Layer) :
    (pass.runWalk around item layer).2.IsAttended (· = item.slot) := by
  have hkept {before after : Pass} (heffect : Effect around item.slot layer.id before after)
      (hbefore : before.Walking item.slot ∧ before.IsAttended (· = item.slot)) :
      after.Walking item.slot ∧ after.IsAttended (· = item.slot) :=
    ⟨hbefore.1.effect heffect, hbefore.2.effect hbefore.1 heffect⟩
  exact (run_of_effect hkept (around.walk item layer)
    ⟨hpass.beginWalk hitem layer, hattended.beginWalk hitem layer⟩).2

/-- Once the layer is put back all layers are attended again. -/
theorem Resting.isAttended_step (hpass : pass.Resting) (hattended : pass.IsAttended fun _ => False)
    (hstep : pass.step? around = some next) : next.IsAttended fun _ => False := by
  obtain ⟨item, layer, hitem, _, rfl⟩ := hpass.step?_cases hstep
  have hwalking : (pass.runWalk around item layer).2.Walking item.slot := hpass.runWalk hitem layer
  have hothers : (pass.runWalk around item layer).2.IsAttended (· = item.slot) :=
    hpass.isAttended_runWalk hattended hitem layer
  intro other hzero _ hattached
  simp only [walked, endWalk, Hierarchy.isAttached_restore] at hattached
  by_cases heq : other = item.slot
  · subst heq
    refine .inl ⟨_, ?_, hpass.isFinal_runWalk hitem hzero layer hattached⟩
    rw [walked, layer?_endWalk hwalking.slot_lt, if_pos rfl]
  · rcases hothers other hzero heq hattached with ⟨rest, hlayer, hfinal⟩ | hpending
    · refine .inl ⟨rest, ?_, hfinal⟩
      rw [walked, layer?_endWalk hwalking.slot_lt, if_neg heq]
      exact hlayer
    · exact .inr hpending

/-- A walk changes nothing but variables of the layers that are in their records. -/
theorem keepsLayers_runWalk (around : Surroundings) (pass : Pass) (item : WorkItem)
    (layer : Layer) :
    (pass.beginWalk item layer).hierarchy.KeepsLayers
      (pass.runWalk around item layer).2.hierarchy := by
  have hkept {before after : Pass} (heffect : Effect around item.slot layer.id before after)
      (hbefore : (pass.beginWalk item layer).hierarchy.KeepsLayers before.hierarchy) :
      (pass.beginWalk item layer).hierarchy.KeepsLayers after.hierarchy :=
    hbefore.trans heffect.keepsLayers
  exact run_of_effect hkept (around.walk item layer) (.refl _)

/-- Processing a work item leaves every layer the same one. -/
theorem Resting.holds_step {first : Layer} (hpass : pass.Resting)
    (hholds : pass.hierarchy.Holds slot first) (hstep : pass.step? around = some next) :
    next.hierarchy.Holds slot first := by
  obtain ⟨item, layer, hitem, hlayer, rfl⟩ := hpass.step?_cases hstep
  obtain ⟨old, hold, hfirst⟩ := hholds
  have hwalking : (pass.runWalk around item layer).2.Walking item.slot := hpass.runWalk hitem layer
  by_cases heq : slot = item.slot
  · obtain rfl : layer = old := Option.some.inj (hlayer.symm.trans (heq ▸ hold))
    have hsame : layer.IsSame (pass.runWalk around item layer).1 :=
      (layer.follow_yields _ _ _).run _ _
    refine ⟨_, ?_, hfirst.trans hsame⟩
    rw [walked, layer?_endWalk hwalking.slot_lt, if_pos heq]
  · have hbegin : (pass.beginWalk item layer).hierarchy.layer? slot = some old := by
      rw [layer?_beginWalk, if_neg heq]
      exact hold
    obtain ⟨frames, hframes⟩ := keepsLayers_runWalk around pass item layer slot old hbegin
    refine ⟨{ old with frames := frames }, ?_, hfirst.trans ⟨rfl, rfl⟩⟩
    rw [walked, layer?_endWalk hwalking.slot_lt, if_neg heq]
    exact hframes

/-! ### A whole pass -/

/-- A pass that begins with no finished layer below the root ends so. -/
theorem Resting.isUnfinished_of_end (hpass : pass.Resting)
    (hattended : pass.IsAttended fun _ => False) (hleads : Leads around pass last)
    (hend : last.next? = none) (hzero : slot ≠ 0)
    (hattached : last.hierarchy.isAttached slot = true) : last.hierarchy.IsUnfinished slot := by
  have hlast : last.IsAttended fun _ => False := by
    clear hend hattached
    induction hleads with
    | refl => exact hattended
    | tail hleads hstep ih => exact (hpass.leads hleads).isAttended_step ih hstep
  rcases hlast slot hzero not_false hattached with hunfinished | ⟨n, event, hle, hget⟩
  · exact hunfinished
  · have hlen : last.queue.size ≤ last.progress := Array.getElem?_eq_none_iff.mp hend
    obtain ⟨hlt, _⟩ := Array.getElem?_eq_some_iff.mp hget
    omega

/-- A pass leaves every layer the same one. -/
theorem Resting.holds_leads {first : Layer} (hpass : pass.Resting)
    (hholds : pass.hierarchy.Holds slot first) (hleads : Leads around pass last) :
    last.hierarchy.Holds slot first := by
  induction hleads with
  | refl => exact hholds
  | tail hleads hstep ih => exact (hpass.leads hleads).holds_step ih hstep

end Pass

end LayeredMachines
