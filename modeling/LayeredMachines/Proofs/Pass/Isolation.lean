import LayeredMachines.Proofs.Pass.WorkList

/-!
# The reach of a walk

A layer that walks acts on the hierarchy through its calls, and these reach no further than its
place in it: up to the variables of the layer above, down to the work of the layers below. This
file states what a walk leaves alone, shows that every effect of a call does, and carries it
through the walk of a work item.
-/

namespace LayeredMachines

/-- What the layer in a slot leaves of a hierarchy that it acts on. The records of all other layers
stay as they are, except that the innermost frame of the layer above may change, and new records
come after the old ones, below the slot. -/
structure Hierarchy.KeepsOthers (slot : Nat) (before after : Hierarchy) : Prop where
  size_le : before.size ≤ after.size
  parent?_eq : ∀ other < before.size, after.parent? other = before.parent? other
  isAttached_eq : ∀ other < before.size, other ≠ slot →
    after.isAttached other = before.isAttached other
  layer?_eq : ∀ other < before.size, other ≠ slot → before.parent? slot ≠ some other →
    after.layer? other = before.layer? other
  layer?_parent : ∀ parent layer, before.parent? slot = some parent →
    before.layer? parent = some layer → ∃ frame,
      after.layer? parent = some { layer with frames := { layer.frames with innermost := frame } }
  parent?_new : ∀ other, before.size ≤ other → other < after.size →
    after.parent? other = some slot

/-- Some timers have been added, all of them for the same layer. -/
def TimerQueue.AddsFor (id : LayerId) (before after : TimerQueue) : Prop :=
  ∃ added : List Timer, (∀ timer ∈ added, timer.target = id) ∧
    after = added.foldl TimerQueue.schedule before

namespace Hierarchy

variable {slot : Nat} {hierarchy before middle after : Hierarchy}

theorem KeepsOthers.refl (slot : Nat) (hierarchy : Hierarchy) :
    hierarchy.KeepsOthers slot hierarchy where
  size_le := Nat.le_refl _
  parent?_eq _ _ := rfl
  isAttached_eq _ _ _ := rfl
  layer?_eq _ _ _ _ := rfl
  layer?_parent _ layer _ hlayer := ⟨layer.frames.innermost, hlayer⟩
  parent?_new other hold hnew := by omega

/-- What is left twice is left alone altogether, since the slot keeps its parent. -/
theorem KeepsOthers.trans (hslot : slot < before.size) (hfirst : before.KeepsOthers slot middle)
    (hnext : middle.KeepsOthers slot after) : before.KeepsOthers slot after := by
  have hsize := hfirst.size_le
  have hparent := hfirst.parent?_eq slot hslot
  constructor
  · exact Nat.le_trans hsize hnext.size_le
  · intro other hother
    rw [hnext.parent?_eq other (by omega), hfirst.parent?_eq other hother]
  · intro other hother hne
    rw [hnext.isAttached_eq other (by omega) hne, hfirst.isAttached_eq other hother hne]
  · intro other hother hne habove
    rw [hnext.layer?_eq other (by omega) hne (hparent ▸ habove),
      hfirst.layer?_eq other hother hne habove]
  · intro parent layer habove hlayer
    obtain ⟨frame, hframe⟩ := hfirst.layer?_parent parent layer habove hlayer
    obtain ⟨last, hlast⟩ := hnext.layer?_parent parent _ (hparent.trans habove) hframe
    exact ⟨last, hlast⟩
  · intro other hold hnew
    by_cases hmiddle : other < middle.size
    · rw [hnext.parent?_eq other hmiddle]
      exact hfirst.parent?_new other hold hmiddle
    · exact hnext.parent?_new other (Nat.not_lt.mp hmiddle) hnew

/-! ### Operations on the slot -/

/-- A new layer below the slot changes no record that is there. -/
theorem keepsOthers_attach (hierarchy : Hierarchy) (slot : Nat) (layer : Layer) :
    hierarchy.KeepsOthers slot (hierarchy.attach (some slot) layer) where
  size_le := by simp
  parent?_eq other hother := by rw [parent?_attach, if_neg (Nat.ne_of_lt hother)]
  isAttached_eq other hother _ := by rw [isAttached_attach, if_neg (Nat.ne_of_lt hother)]
  layer?_eq other hother _ _ := by rw [layer?_attach, if_neg (Nat.ne_of_lt hother)]
  layer?_parent parent above _ habove := by
    have hlt := lt_size_of_layer? habove
    exact ⟨above.frames.innermost, by rw [layer?_attach, if_neg (Nat.ne_of_lt hlt), habove]⟩
  parent?_new other hold hnew := by
    rw [size_attach] at hnew
    rw [parent?_attach, if_pos (by omega)]

/-- Writing to the layer above changes its innermost frame only. -/
theorem keepsOthers_write {parent : Nat} (hparent : hierarchy.parent? slot = some parent)
    (label value : String) :
    hierarchy.KeepsOthers slot (hierarchy.modifyLayer parent fun layer =>
      { layer with frames := layer.frames.write label value }) where
  size_le := by simp
  parent?_eq other _ := by simp
  isAttached_eq other _ _ := by simp
  layer?_eq other _ _ habove := by
    have hne : other ≠ parent := fun heq => habove (heq ▸ hparent)
    rw [layer?_modifyLayer, if_neg hne]
  layer?_parent above layer habove hlayer := by
    obtain rfl : parent = above := Option.some.inj (hparent.symm.trans habove)
    exact ⟨layer.frames.innermost.set label value, by
      rw [layer?_modifyLayer, if_pos rfl, hlayer]; rfl⟩
  parent?_new other hold hnew := by
    rw [size_modifyLayer] at hnew
    omega

/-- Detaching the slot changes no other record. -/
theorem keepsOthers_detach (hierarchy : Hierarchy) (slot : Nat) :
    hierarchy.KeepsOthers slot (hierarchy.detach slot) where
  size_le := by simp
  parent?_eq other _ := by simp
  isAttached_eq other _ hne := by rw [isAttached_detach, if_neg fun h => hne h.1]
  layer?_eq other _ _ _ := layer?_detach
  layer?_parent parent layer _ hlayer := ⟨layer.frames.innermost, layer?_detach.trans hlayer⟩
  parent?_new other hold hnew := by
    rw [size_detach] at hnew
    omega

/-- Taking out the layer of the slot changes no other record. -/
theorem Ordered.keepsOthers_take (hordered : hierarchy.Ordered) (slot : Nat) :
    hierarchy.KeepsOthers slot (hierarchy.take slot) where
  size_le := by simp
  parent?_eq other _ := by simp
  isAttached_eq other _ _ := by simp
  layer?_eq other _ hne _ := by rw [layer?_take, if_neg hne]
  layer?_parent parent layer habove hlayer := by
    have hne : parent ≠ slot := Nat.ne_of_lt (hordered.parent_lt habove)
    exact ⟨layer.frames.innermost, by rw [layer?_take, if_neg hne, hlayer]⟩
  parent?_new other hold hnew := by
    rw [size_take] at hnew
    omega

/-- Putting a layer into the slot changes no other record. -/
theorem Ordered.keepsOthers_restore (hordered : hierarchy.Ordered) (slot : Nat) (layer : Layer) :
    hierarchy.KeepsOthers slot (hierarchy.restore slot layer) where
  size_le := by simp
  parent?_eq other _ := by simp
  isAttached_eq other _ _ := by simp
  layer?_eq other _ hne _ := by rw [layer?_restore, if_neg fun h => hne h.1]
  layer?_parent parent above habove hlayer := by
    have hne : parent ≠ slot := Nat.ne_of_lt (hordered.parent_lt habove)
    exact ⟨above.frames.innermost, by rw [layer?_restore, if_neg fun h => hne h.1, hlayer]⟩
  parent?_new other hold hnew := by
    rw [size_restore] at hnew
    omega

end Hierarchy

namespace TimerQueue

variable {id : LayerId} {before middle after : TimerQueue}

theorem AddsFor.refl (id : LayerId) (queue : TimerQueue) : queue.AddsFor id queue :=
  ⟨[], fun _ htimer => absurd htimer List.not_mem_nil, rfl⟩

theorem AddsFor.trans (hfirst : before.AddsFor id middle) (hnext : middle.AddsFor id after) :
    before.AddsFor id after := by
  obtain ⟨first, hfirstTarget, rfl⟩ := hfirst
  obtain ⟨rest, hrestTarget, rfl⟩ := hnext
  refine ⟨first ++ rest, fun timer htimer => ?_, List.foldl_append.symm⟩
  rcases List.mem_append.mp htimer with hmem | hmem
  · exact hfirstTarget timer hmem
  · exact hrestTarget timer hmem

end TimerQueue

namespace Pass

variable {around : Surroundings} {slot : Nat} {id : LayerId} {pass next mid : Pass}
  {item sent : WorkItem} {layer : Layer} {n : Nat}

/-- The calls of the layer of the next work item while it walks, each with the pass that it is made
in. -/
def walkCalls (around : Surroundings) (pass : Pass) : List (Pass × Call) :=
  match pass.next? with
  | none => []
  | some item =>
    match pass.hierarchy.layer? item.slot with
    | none => []
    | some layer =>
      (around.walk item layer).calls (around.handle item.slot layer.id)
        (pass.beginWalk item layer)

/-- While a layer walks its calls are those of its program. -/
theorem walkCalls_of_layer? (hitem : pass.next? = some item)
    (hlayer : pass.hierarchy.layer? item.slot = some layer) :
    pass.walkCalls around =
      (around.walk item layer).calls (around.handle item.slot layer.id)
        (pass.beginWalk item layer) := by
  simp [walkCalls, hitem, hlayer]

/-- A call is made in one of the states of the walk, and leads to another one. -/
theorem mem_walkStates_of_mem_walkCalls {call : Call} (hitem : pass.next? = some item)
    (hlayer : pass.hierarchy.layer? item.slot = some layer)
    (hcall : (mid, call) ∈ pass.walkCalls around) :
    mid ∈ pass.walkStates around ∧
      (around.handle item.slot layer.id call mid).2 ∈ pass.walkStates around := by
  rw [walkCalls_of_layer? hitem hlayer] at hcall
  rw [walkStates_of_layer? hitem hlayer]
  exact Program.mem_states_of_mem_calls hcall

/-! ### One call -/

/-- No effect reaches further than the slot's place in the hierarchy. -/
theorem Effect.keepsOthers (heffect : Effect around slot id pass next) :
    pass.hierarchy.KeepsOthers slot next.hierarchy := by
  cases heffect with
  | started =>
    rw [startLayer_eq]
    exact pass.hierarchy.keepsOthers_attach slot _
  | blasted =>
    rw [enqueueAll_eq]
    exact .refl slot pass.hierarchy
  | wrote label value _ hparent => exact Hierarchy.keepsOthers_write hparent label value
  | popped => exact pass.hierarchy.keepsOthers_detach slot
  | _ => exact .refl slot pass.hierarchy

/-- Timers are only added for the layer itself. -/
theorem Effect.addsFor (heffect : Effect around slot id pass next) :
    pass.timers.AddsFor id next.timers := by
  cases heffect with
  | scheduled event deadline =>
    exact ⟨[⟨id, event, deadline⟩], fun timer htimer => by simp [List.mem_singleton.mp htimer], rfl⟩
  | started =>
    rw [startLayer_eq]
    exact .refl id pass.timers
  | blasted =>
    rw [enqueueAll_eq]
    exact .refl id pass.timers
  | _ => exact .refl id pass.timers

/-- Work is only added for the layer above, for an attached layer below, or for a layer that is
started with it. -/
theorem Effect.sent_cases (heffect : Effect around slot id pass next) (hold : pass.queue.size ≤ n)
    (hsent : next.queue[n]? = some sent) :
    pass.hierarchy.parent? slot = some sent.slot ∨
      sent.slot ∈ pass.hierarchy.descendants slot ∨
      sent.slot = pass.hierarchy.size ∧ sent.slot < next.hierarchy.size := by
  cases heffect with
  | started =>
    rw [startLayer_eq] at hsent ⊢
    simp only [Array.getElem?_push] at hsent
    split at hsent
    · obtain rfl := Option.some.inj hsent
      exact .inr (.inr ⟨rfl, by simp⟩)
    · rw [Array.getElem?_eq_none hold] at hsent
      simp at hsent
  | raised _ hparent =>
    simp only [enqueue, Array.getElem?_push] at hsent
    split at hsent
    · obtain rfl := Option.some.inj hsent
      exact .inl hparent
    · rw [Array.getElem?_eq_none hold] at hsent
      simp at hsent
  | blasted =>
    rw [enqueueAll_eq] at hsent
    simp only [Array.getElem?_append_right hold, List.getElem?_toArray] at hsent
    obtain ⟨below, hbelow, rfl⟩ := List.mem_map.mp (List.mem_of_getElem? hsent)
    exact .inr (.inl hbelow)
  | _ =>
    have hnone : pass.queue[n]? = none := Array.getElem?_eq_none hold
    exact absurd (hnone.symm.trans hsent) (by simp)

/-! ### The walk of a work item -/

/-- In every state of a walk all but the layer's place in the hierarchy is left alone, and timers
have been added for the layer only. -/
theorem Resting.keepsOthers_of_mem_states (hpass : pass.Resting) (hitem : pass.next? = some item)
    (hmid : mid ∈ (around.walk item layer).states (around.handle item.slot layer.id)
      (pass.beginWalk item layer)) :
    pass.hierarchy.KeepsOthers item.slot mid.hierarchy ∧
      pass.timers.AddsFor layer.id mid.timers := by
  have hslot := (hpass.isQueued item (Array.mem_of_getElem? hitem)).2
  have htaken : pass.hierarchy.KeepsOthers item.slot (pass.beginWalk item layer).hierarchy :=
    hpass.ordered.keepsOthers_take item.slot
  have hkept {before after : Pass} (heffect : Effect around item.slot layer.id before after)
      (hbefore : pass.hierarchy.KeepsOthers item.slot before.hierarchy ∧
        pass.timers.AddsFor layer.id before.timers) :
      pass.hierarchy.KeepsOthers item.slot after.hierarchy ∧
        pass.timers.AddsFor layer.id after.timers :=
    ⟨hbefore.1.trans hslot heffect.keepsOthers, hbefore.2.trans heffect.addsFor⟩
  exact forall_mem_states_of_effect hkept (around.walk item layer) ⟨htaken, .refl _ _⟩ mid hmid

/-- The walk of a work item leaves all but the layer's place in the hierarchy alone, and adds timers
for the layer only. -/
theorem Resting.keepsOthers_walked (hpass : pass.Resting) (hitem : pass.next? = some item)
    (layer : Layer) :
    pass.hierarchy.KeepsOthers item.slot (pass.walked around item layer).hierarchy ∧
      pass.timers.AddsFor layer.id (pass.walked around item layer).timers := by
  have hslot := (hpass.isQueued item (Array.mem_of_getElem? hitem)).2
  have hend := Program.run_mem_states (around.handle item.slot layer.id) (around.walk item layer)
    (pass.beginWalk item layer)
  obtain ⟨hwalk, htimers⟩ := hpass.keepsOthers_of_mem_states hitem hend
  have hwalking : (pass.runWalk around item layer).2.Walking item.slot := hpass.runWalk hitem layer
  exact ⟨hwalk.trans hslot (hwalking.ordered.keepsOthers_restore item.slot _), htimers⟩

/-- The records that are there in some state of a walk are there after it. -/
theorem size_le_walked (hmid : mid ∈ (around.walk item layer).states
    (around.handle item.slot layer.id) (pass.beginWalk item layer)) :
    mid.hierarchy.size ≤ (pass.walked around item layer).hierarchy.size := by
  have hgrows := Program.run_above_of_mem_states
    (fun pass later : Pass => pass.hierarchy.size ≤ later.hierarchy.size)
    (fun pass => Nat.le_refl pass.hierarchy.size) Nat.le_trans
    (fun call pass => (effect_handle around item.slot layer.id call pass).size_le) _ hmid
  rw [walked, endWalk, Hierarchy.size_restore]
  exact hgrows

/-- Work that a walk has added was added by one of its calls: for the layer above, for a layer that
was attached below when the call was made, or for a layer that was started by the walk. -/
theorem Resting.sent_cases (hpass : pass.Resting) (hitem : pass.next? = some item)
    (hlayer : pass.hierarchy.layer? item.slot = some layer) (hold : pass.queue.size ≤ n)
    (hsent : (pass.walked around item layer).queue[n]? = some sent) :
    ∃ mid call, (mid, call) ∈ pass.walkCalls around ∧ mid.queue.size ≤ n ∧
      (around.handle item.slot layer.id call mid).2.queue[n]? = some sent ∧
      (pass.hierarchy.parent? item.slot = some sent.slot ∨
        mid.hierarchy.isAttached sent.slot = true ∧
          mid.hierarchy.IsBelow sent.slot item.slot ∨
        pass.hierarchy.size ≤ sent.slot ∧
          sent.slot < (pass.walked around item layer).hierarchy.size) := by
  obtain ⟨hlt, _⟩ := Array.getElem?_eq_some_iff.mp hsent
  obtain ⟨mid, call, hcall, hstart, hpassed⟩ :=
    Program.exists_call_passing (fun pass : Pass => pass.queue.size)
      (around.handle item.slot layer.id) (around.walk item layer) (pass.beginWalk item layer) hold hlt
  obtain ⟨hmid, hafter⟩ := Program.mem_states_of_mem_calls hcall
  -- What the call has added stays in its place until the end of the walk.
  have hadded : (around.handle item.slot layer.id call mid).2.queue[n]? = some sent :=
    (getElem?_queue_eq (queue_grows_to_run _ hafter) hpassed).symm.trans hsent
  refine ⟨mid, call, walkCalls_of_layer? hitem hlayer ▸ hcall, hstart, hadded, ?_⟩
  obtain ⟨hothers, _⟩ := hpass.keepsOthers_of_mem_states hitem hmid
  rcases (effect_handle around item.slot layer.id call mid).sent_cases hstart hadded with
    hparent | hbelow | ⟨hslot, hnew⟩
  · have hitemSlot := (hpass.isQueued item (Array.mem_of_getElem? hitem)).2
    exact .inl ((hothers.parent?_eq item.slot hitemSlot).symm.trans hparent)
  · obtain ⟨hattached, habove⟩ := Hierarchy.mem_descendants.mp hbelow
    exact .inr (.inl ⟨hattached, Hierarchy.isBelow_of_mem_ancestors habove⟩)
  · have hsize := hothers.size_le
    have hgrows := size_le_walked hafter
    exact .inr (.inr ⟨by omega, by omega⟩)

end Pass

end LayeredMachines
