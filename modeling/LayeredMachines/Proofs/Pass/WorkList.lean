import LayeredMachines.Proofs.Pass.Walks

/-!
# The work list

Work is added at the end of the list while earlier work is done. This file shows that no work is
lost or repeated: whatever a walk adds stays in its place, and a pass that has come to its end has
walked the whole list once from its beginning.
-/

namespace LayeredMachines.Pass

variable {around : Surroundings} {slot : Nat} {id : LayerId} {pass next last mid : Pass}
  {item : WorkItem} {layer : Layer}

/-- The layers of the given work items walk one after the other, each of them found in its record,
until no work is left. -/
inductive Walks (around : Surroundings) : Pass → List WorkItem → Pass → Prop
  | nil {pass : Pass} (hend : pass.next? = none) : Walks around pass [] pass
  | cons {pass last : Pass} {item : WorkItem} {layer : Layer} {rest : List WorkItem}
      (hitem : pass.next? = some item) (hlayer : pass.hierarchy.layer? item.slot = some layer)
      (hrest : Walks around (pass.walked around item layer) rest last) :
      Walks around pass (item :: rest) last

/-! ### Work is added at the end -/

/-- In every state of a walk the work that was there when it began is still there. -/
theorem queue_grows_of_mem_states {α : Type} (program : Program α)
    (hmid : mid ∈ program.states (around.handle slot id) pass) :
    pass.queue.toList <+: mid.queue.toList := by
  have hkept {before after : Pass} (heffect : Effect around slot id before after)
      (hold : pass.queue.toList <+: before.queue.toList) :
      pass.queue.toList <+: after.queue.toList := hold.trans heffect.queue_grows
  exact forall_mem_states_of_effect hkept program (List.prefix_refl _) mid hmid

/-- The work that is there in some state of a walk is still there at its end. -/
theorem queue_grows_to_run {α : Type} (program : Program α)
    (hmid : mid ∈ program.states (around.handle slot id) pass) :
    mid.queue.toList <+: (program.run (around.handle slot id) pass).2.queue.toList :=
  Program.run_above_of_mem_states (fun pass later => pass.queue.toList <+: later.queue.toList)
    (fun pass => List.prefix_refl pass.queue.toList) List.IsPrefix.trans
    (fun call pass => (effect_handle around slot id call pass).queue_grows) program hmid

/-- A walk moves the work list on by its own work item. -/
theorem progress_walked (pass : Pass) (item : WorkItem) (layer : Layer) :
    (pass.walked around item layer).progress = pass.progress + 1 :=
  run_of_effect (fun heffect hprogress => heffect.progress_eq.trans hprogress)
    (around.walk item layer) (rfl : (pass.beginWalk item layer).progress = pass.progress + 1)

/-- A walk only adds work. -/
theorem queue_grows_walked (pass : Pass) (item : WorkItem) (layer : Layer) :
    pass.queue.toList <+: (pass.walked around item layer).queue.toList := by
  have hend := Program.run_mem_states (around.handle item.slot layer.id) (around.walk item layer)
    (pass.beginWalk item layer)
  have hkept := queue_grows_of_mem_states _ hend
  exact hkept

/-- What a walk has added up to some state of it is still there after it. -/
theorem queue_grows_during_walk (hitem : pass.next? = some item)
    (hlayer : pass.hierarchy.layer? item.slot = some layer) (hmid : mid ∈ pass.walkStates around) :
    pass.queue.toList <+: mid.queue.toList ∧
      mid.queue.toList <+: (pass.walked around item layer).queue.toList := by
  rw [walkStates_of_layer? hitem hlayer] at hmid
  have hbefore := queue_grows_of_mem_states _ hmid
  exact ⟨hbefore, queue_grows_to_run _ hmid⟩

/-- Work that is in the list stays there in its place. -/
theorem Resting.queue_grows (hpass : pass.Resting) (hleads : Leads around pass last) :
    pass.queue.toList <+: last.queue.toList := by
  induction hleads using Relation.ReflTransGen.head_induction_on with
  | refl => exact List.prefix_refl _
  | @head pass next hstep _ ih =>
    have hnext := hpass.step hstep
    obtain ⟨item, layer, _, _, rfl⟩ := hpass.step?_cases hstep
    exact (queue_grows_walked pass item layer).trans (ih hnext)

/-! ### All work is done once and in its order -/

/-- A pass that has come to its end has walked all work that was not yet done, in the order of the
list. -/
theorem Resting.walks (hpass : pass.Resting) (hleads : Leads around pass last)
    (hend : last.next? = none) :
    Walks around pass (last.queue.toList.drop pass.progress) last := by
  induction hleads using Relation.ReflTransGen.head_induction_on with
  | refl =>
    have hdone : last.queue.toList.drop last.progress = [] := by
      rw [List.drop_eq_nil_iff, Array.length_toList]
      exact Array.getElem?_eq_none_iff.mp hend
    rw [hdone]
    exact .nil hend
  | @head pass next hstep hrest ih =>
    have hnext := hpass.step hstep
    have hold := hpass.queue_grows (.head hstep hrest)
    obtain ⟨item, layer, hitem, hlayer, rfl⟩ := hpass.step?_cases hstep
    obtain ⟨hlt, _⟩ := Array.getElem?_eq_some_iff.mp hitem
    have hlast : last.queue.toList[pass.progress]? = some item := by
      rw [Array.getElem?_toList, getElem?_queue_eq hold hlt]
      exact hitem
    rw [List.drop_eq_getElem?_toList_append, hlast]
    rw [progress_walked] at ih
    exact .cons hitem hlayer (ih hnext)

/-- From a state on the way to the end the rest of the way leads to the same end. -/
theorem Leads.leads_of_end (hleads : Leads around pass mid) (hlast : Leads around pass last)
    (hend : last.next? = none) : Leads around mid last := by
  have hunique : Relator.RightUnique fun pass next : Pass => pass.step? around = some next :=
    fun _ _ _ hfirst hsecond => Option.some.inj (hfirst.symm.trans hsecond)
  rcases hleads.total_of_right_unique hunique hlast with hrest | hback
  · exact hrest
  · rcases hback.cases_head with rfl | ⟨next, hstep, _⟩
    · exact .refl
    · simp [step?_eq_none.mpr hend] at hstep

/-! ### Writing to the layer above -/

/-- While a layer walks the layer above it is in its record, and what is written to it arrives. -/
theorem Walking.write_arrives (hpass : pass.Walking slot) {parent : Nat}
    (hattached : pass.hierarchy.isAttached slot = true)
    (hparent : pass.hierarchy.parent? slot = some parent) (label value : String) :
    ∃ layer, pass.hierarchy.layer? parent = some layer ∧
      (around.handle slot id (.write label value) pass).2.hierarchy.layer? parent =
        some { layer with frames := layer.frames.write label value } := by
  have hlt := hpass.ordered.parent_lt hparent
  have hslot := hpass.slot_lt
  have hsome : pass.hierarchy.layer? parent ≠ none := by
    rw [Ne, hpass.layer?_eq_none parent (by omega)]
    omega
  obtain ⟨layer, hlayer⟩ := Option.ne_none_iff_exists'.mp hsome
  refine ⟨layer, hlayer, ?_⟩
  simp only [Surroundings.handle, hattached, hparent, if_true, Hierarchy.layer?_modifyLayer, hlayer,
    Option.map_some]

end LayeredMachines.Pass
