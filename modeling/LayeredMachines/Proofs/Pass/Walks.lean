import LayeredMachines.Proofs.Hierarchy.Compaction
import LayeredMachines.Proofs.Pass.Effects

/-!
# Walks of a pass

A pass processes its work items one by one: the layer of an item is taken out, walks, and is put
back. This file states what holds of the pass between two items and what holds during a walk, and
carries both along a whole pass. Between items every layer is in its record; during a walk only
the layer that walks is missing. No work refers to a slot that is not there.
-/

namespace LayeredMachines

/-- Two results that are related are both missing, or both there with related values. -/
theorem rel_cases {α β : Type} {related : α → β → Prop} {a : Option α} {b : Option β}
    (hrel : Option.Rel related a b) :
    a = none ∧ b = none ∨ ∃ x y, a = some x ∧ b = some y ∧ related x y := by
  cases hrel with
  | none => exact .inl ⟨rfl, rfl⟩
  | some hvalues => exact .inr ⟨_, _, rfl, rfl, hvalues⟩

/-- The walk of a layer for a work item. -/
def Surroundings.walk (around : Surroundings) (item : WorkItem) (layer : Layer) : Program Layer :=
  layer.follow item.event (Instant.ofMillis around.now) around.config.maxFollowOn

namespace Pass

variable {around : Surroundings} {slot : Nat} {id : LayerId} {pass next last : Pass}
  {item : WorkItem} {layer : Layer}

/-- The work item to be processed next. -/
def next? (pass : Pass) : Option WorkItem :=
  pass.queue[pass.progress]?

/-- The pass when the layer of its next work item begins to walk. -/
def beginWalk (pass : Pass) (item : WorkItem) (layer : Layer) : Pass :=
  { pass with progress := pass.progress + 1, hierarchy := pass.hierarchy.take item.slot }.notify
    (.line (.following layer.id layer.machine.name item.event))

/-- The pass when a layer is put back after its walk. -/
def endWalk (pass : Pass) (slot : Nat) (layer : Layer) : Pass :=
  { pass with hierarchy := pass.hierarchy.restore slot layer }

/-- The walk of the layer of the next work item: what becomes of the layer, and of the pass before
the layer is put back. -/
def runWalk (around : Surroundings) (pass : Pass) (item : WorkItem) (layer : Layer) :
    Layer × Pass :=
  (around.walk item layer).run (around.handle item.slot layer.id) (pass.beginWalk item layer)

/-- The pass after the layer of its next work item has walked. -/
def walked (around : Surroundings) (pass : Pass) (item : WorkItem) (layer : Layer) : Pass :=
  (pass.runWalk around item layer).2.endWalk item.slot (pass.runWalk around item layer).1

/-- The states of a pass while the layer of its next work item walks, the last of them before the
layer is put back. -/
def walkStates (around : Surroundings) (pass : Pass) : List Pass :=
  match pass.next? with
  | none => []
  | some item =>
    match pass.hierarchy.layer? item.slot with
    | none => []
    | some layer =>
      (around.walk item layer).states (around.handle item.slot layer.id)
        (pass.beginWalk item layer)

/-- One pass comes from another by processing work items. -/
def Leads (around : Surroundings) : Pass → Pass → Prop :=
  Relation.ReflTransGen fun pass next => pass.step? around = some next

/-! ### One work item -/

/-- When a walk begins the layer that is to walk is missing. -/
theorem layer?_beginWalk (pass : Pass) (item : WorkItem) (layer : Layer) (slot : Nat) :
    (pass.beginWalk item layer).hierarchy.layer? slot =
      if slot = item.slot then none else pass.hierarchy.layer? slot :=
  Hierarchy.layer?_take

/-- When a walk ends the layer is put into a record that is there. -/
theorem layer?_endWalk (hslot : slot < pass.hierarchy.size) (layer : Layer) (other : Nat) :
    (pass.endWalk slot layer).hierarchy.layer? other =
      if other = slot then some layer else pass.hierarchy.layer? other := by
  simp only [endWalk, Hierarchy.layer?_restore, hslot, and_true]

/-- A pass goes on as long as it has a next work item. -/
@[simp] theorem step?_eq_none : pass.step? around = none ↔ pass.next? = none := by
  unfold step? next?
  cases pass.queue[pass.progress]? <;> simp

/-- The next work item is processed by the walk of its layer. -/
theorem step?_of_layer? (hitem : pass.next? = some item)
    (hlayer : pass.hierarchy.layer? item.slot = some layer) :
    pass.step? around = some (pass.walked around item layer) := by
  unfold next? at hitem
  simp only [step?, hitem, process, hlayer]
  rfl

/-- A work item whose layer is taken out is passed over. -/
theorem step?_of_layer?_eq_none (hitem : pass.next? = some item)
    (hlayer : pass.hierarchy.layer? item.slot = none) :
    pass.step? around = some { pass with progress := pass.progress + 1 } := by
  unfold next? at hitem
  simp only [step?, hitem, process, hlayer]

/-- While a layer walks its states are those of its program. -/
theorem walkStates_of_layer? (hitem : pass.next? = some item)
    (hlayer : pass.hierarchy.layer? item.slot = some layer) :
    pass.walkStates around =
      (around.walk item layer).states (around.handle item.slot layer.id)
        (pass.beginWalk item layer) := by
  simp [walkStates, hitem, hlayer]

/-- A pass that returns has processed work items until none was left. -/
theorem leads_of_drain? {items : Nat} (hdrain : pass.drain? around items = some last) :
    Leads around pass last ∧ last.next? = none := by
  induction items generalizing pass with
  | zero =>
    unfold drain? at hdrain
    split at hdrain
    · next hnone =>
      obtain rfl := Option.some.inj hdrain
      exact ⟨.refl, step?_eq_none.mp (Option.isNone_iff_eq_none.mp hnone)⟩
    · simp at hdrain
  | succ items ih =>
    unfold drain? at hdrain
    cases hstep : pass.step? around with
    | none =>
      rw [hstep] at hdrain
      obtain rfl := Option.some.inj hdrain
      exact ⟨.refl, step?_eq_none.mp hstep⟩
    | some next =>
      rw [hstep] at hdrain
      obtain ⟨hleads, hnone⟩ := ih hdrain
      exact ⟨.head hstep hleads, hnone⟩

/-- Two passes that go on together, or come to their ends together, return together. -/
theorem rel_drain? {later : Surroundings} {related : Pass → Pass → Prop}
    (hstep : ∀ left right, related left right →
      Option.Rel related (left.step? around) (right.step? later)) (items : Nat)
    {left right : Pass} (h : related left right) :
    Option.Rel related (left.drain? around items) (right.drain? later items) := by
  induction items generalizing left right with
  | zero =>
    unfold drain?
    rcases rel_cases (hstep left right h) with ⟨hleft, hright⟩ | ⟨next, other, hleft, hright, _⟩
    · rw [hleft, hright]
      exact .some h
    · rw [hleft, hright]
      exact .none
  | succ items ih =>
    unfold drain?
    rcases rel_cases (hstep left right h) with
      ⟨hleft, hright⟩ | ⟨next, other, hleft, hright, hnext⟩
    · rw [hleft, hright]
      exact .some h
    · rw [hleft, hright]
      exact ih hnext

/-! ### Between work items and during a walk -/

/-- All work is some event for a slot that is there. -/
def IsQueued (pass : Pass) : Prop :=
  ∀ item ∈ pass.queue, item.event ≠ "" ∧ item.slot < pass.hierarchy.size

/-- What holds between two work items. -/
structure Resting (pass : Pass) : Prop where
  ordered : pass.hierarchy.Ordered
  isFull : pass.hierarchy.IsFull
  isQueued : pass.IsQueued
  progress_le : pass.progress ≤ pass.queue.size

/-- What holds while the layer in a slot walks. -/
structure Walking (slot : Nat) (pass : Pass) : Prop where
  ordered : pass.hierarchy.Ordered
  slot_lt : slot < pass.hierarchy.size
  layer?_eq_none : ∀ other < pass.hierarchy.size, pass.hierarchy.layer? other = none ↔ other = slot
  isQueued : pass.IsQueued
  progress_le : pass.progress ≤ pass.queue.size

/-- The layer of a work item can always be taken out. -/
theorem Resting.exists_layer (hpass : pass.Resting) (hitem : pass.next? = some item) :
    ∃ layer, pass.hierarchy.layer? item.slot = some layer := by
  have hslot := (hpass.isQueued item (Array.mem_of_getElem? hitem)).2
  exact Option.isSome_iff_exists.mp (hpass.isFull item.slot hslot)

/-- Taking out the layer of a work item begins a walk. -/
theorem Resting.beginWalk (hpass : pass.Resting) (hitem : pass.next? = some item)
    (layer : Layer) : (pass.beginWalk item layer).Walking item.slot where
  ordered := hpass.ordered.take item.slot
  slot_lt := by
    simpa [Pass.beginWalk, notify] using
      (hpass.isQueued item (Array.mem_of_getElem? hitem)).2
  layer?_eq_none other hother := by
    have hfull : (pass.hierarchy.layer? other).isSome := by
      refine hpass.isFull other ?_
      simpa [Pass.beginWalk, notify] using hother
    rw [layer?_beginWalk]
    split
    · next heq => simp [heq]
    · next hne => simp [hne, Option.isSome_iff_ne_none.mp hfull]
  isQueued other hother := by
    simpa [Pass.beginWalk, notify] using hpass.isQueued other hother
  progress_le := by
    obtain ⟨hlt, _⟩ := Array.getElem?_eq_some_iff.mp hitem
    exact hlt

/-- Putting the layer back ends a walk. -/
theorem Walking.endWalk (hpass : pass.Walking slot) (layer : Layer) :
    (pass.endWalk slot layer).Resting where
  ordered := hpass.ordered.restore slot layer
  isFull other hother := by
    have hsize : other < pass.hierarchy.size := by simpa [Pass.endWalk] using hother
    rw [layer?_endWalk hpass.slot_lt]
    split
    · rfl
    · next hne =>
      rw [Option.isSome_iff_ne_none]
      exact fun hnone => hne ((hpass.layer?_eq_none other hsize).mp hnone)
  isQueued item hitem := by simpa [Pass.endWalk] using hpass.isQueued item hitem
  progress_le := hpass.progress_le

/-! ### Every effect keeps what holds during a walk -/

/-- More work for slots that are there is still work for such slots. -/
private theorem IsQueued.append (hqueued : pass.IsQueued) (items : List WorkItem)
    (hqueue : next.queue = pass.queue ++ items.toArray)
    (hsize : pass.hierarchy.size ≤ next.hierarchy.size)
    (hitems : ∀ item ∈ items, item.event ≠ "" ∧ item.slot < next.hierarchy.size) :
    next.IsQueued := by
  intro item hitem
  rw [hqueue, Array.mem_append] at hitem
  rcases hitem with hold | hnew
  · obtain ⟨hevent, hslot⟩ := hqueued item hold
    exact ⟨hevent, Nat.lt_of_lt_of_le hslot hsize⟩
  · exact hitems item (by simpa using hnew)

/-- An effect of the layer that walks adds work for slots that are there only. -/
theorem Walking.isQueued_of_effect (hpass : pass.Walking slot)
    (heffect : Effect around slot id pass next) : next.IsQueued := by
  have hqueued := hpass.isQueued
  cases heffect with
  | nothing => exact hqueued
  | notified => exact hqueued
  | scheduled => exact hqueued
  | started seed =>
    refine hqueued.append [⟨startedEvent, pass.hierarchy.size⟩] ?_ ?_ ?_
    · simp [startLayer_eq]
    · simp [startLayer_eq]
    · simpa [startLayer_eq] using (by decide : startedEvent ≠ "")
  | @raised event parent _ hparent hevent =>
    refine hqueued.append [⟨event, parent⟩] ?_ (Nat.le_refl _) ?_
    · simp [enqueue]
    · have hlt := hpass.ordered.parent_lt hparent
      have hslot := hpass.slot_lt
      simp only [List.mem_singleton, forall_eq, enqueue]
      exact ⟨hevent, by omega⟩
  | @blasted event hevent =>
    rw [enqueueAll_eq]
    refine hqueued.append _ rfl (Nat.le_refl _) fun item hitem => ?_
    obtain ⟨below, hbelow, rfl⟩ := List.mem_map.mp hitem
    have hattached := (Hierarchy.mem_descendants.mp hbelow).1
    exact ⟨hevent, Hierarchy.lt_size_of_isAttached hattached⟩
  | wrote => exact hqueued.append [] (by simp) (by simp) (by simp)
  | popped => exact hqueued.append [] (by simp) (by simp) (by simp)

/-- An effect of the layer that walks keeps the order of the records. -/
theorem Walking.ordered_of_effect (hpass : pass.Walking slot)
    (heffect : Effect around slot id pass next) : next.hierarchy.Ordered := by
  cases heffect with
  | started => exact hpass.ordered.attach hpass.slot_lt _
  | blasted =>
    rw [enqueueAll_eq]
    exact hpass.ordered
  | wrote => exact hpass.ordered.modifyLayer _ _
  | popped => exact hpass.ordered.detach slot
  | _ => exact hpass.ordered

/-- An effect of the layer that walks takes no other layer away. -/
theorem Walking.layer?_eq_none_of_effect (hpass : pass.Walking slot)
    (heffect : Effect around slot id pass next) {other : Nat}
    (hother : other < next.hierarchy.size) :
    next.hierarchy.layer? other = none ↔ other = slot := by
  cases heffect with
  | started =>
    simp only [startLayer_eq, Hierarchy.size_attach] at hother
    simp only [startLayer_eq, Hierarchy.layer?_attach]
    have hslot := hpass.slot_lt
    split
    · simp only [reduceCtorEq, false_iff]
      omega
    · have hlt : other < pass.hierarchy.size := by omega
      exact hpass.layer?_eq_none other hlt
  | blasted =>
    rw [enqueueAll_eq] at hother ⊢
    exact hpass.layer?_eq_none other hother
  | wrote =>
    rw [Hierarchy.size_modifyLayer] at hother
    rw [Hierarchy.layer?_modifyLayer]
    split
    · next heq => rw [Option.map_eq_none_iff, heq, hpass.layer?_eq_none _ (heq ▸ hother)]
    · exact hpass.layer?_eq_none other hother
  | popped =>
    rw [Hierarchy.size_detach] at hother
    rw [Hierarchy.layer?_detach]
    exact hpass.layer?_eq_none other hother
  | _ => exact hpass.layer?_eq_none other hother

/-- An effect of the layer that walks keeps what holds during a walk. -/
theorem Walking.effect (hpass : pass.Walking slot) (heffect : Effect around slot id pass next) :
    next.Walking slot where
  ordered := hpass.ordered_of_effect heffect
  slot_lt := Nat.lt_of_lt_of_le hpass.slot_lt heffect.size_le
  layer?_eq_none _ := hpass.layer?_eq_none_of_effect heffect
  isQueued := hpass.isQueued_of_effect heffect
  progress_le := by
    have hle := heffect.queue_grows.length_le
    have hpassLe := hpass.progress_le
    simp only [Array.length_toList] at hle
    rw [heffect.progress_eq]
    omega

/-! ### A whole pass -/

/-- In every state of a walk only the layer that walks is missing. -/
theorem Resting.walking_of_mem_walkStates (hpass : pass.Resting) (hitem : pass.next? = some item)
    {mid : Pass} (hmid : mid ∈ pass.walkStates around) : mid.Walking item.slot := by
  obtain ⟨layer, hlayer⟩ := hpass.exists_layer hitem
  rw [walkStates_of_layer? hitem hlayer] at hmid
  exact forall_mem_states_of_effect (fun heffect hwalking => hwalking.effect heffect) _
    (hpass.beginWalk hitem layer) mid hmid

/-- At the end of a walk only the layer that has walked is missing. -/
theorem Resting.runWalk (hpass : pass.Resting) (hitem : pass.next? = some item) (layer : Layer) :
    (pass.runWalk around item layer).2.Walking item.slot :=
  run_of_effect (fun heffect hwalking => hwalking.effect heffect) (around.walk item layer)
    (hpass.beginWalk hitem layer)

/-- A pass that goes on does so by the walk of the layer of its next work item. -/
theorem Resting.step?_cases (hpass : pass.Resting) (hstep : pass.step? around = some next) :
    ∃ item layer, pass.next? = some item ∧ pass.hierarchy.layer? item.slot = some layer ∧
      next = pass.walked around item layer := by
  cases hitem : pass.next? with
  | none => simp [step?_eq_none.mpr hitem] at hstep
  | some item =>
    obtain ⟨layer, hlayer⟩ := hpass.exists_layer hitem
    rw [step?_of_layer? hitem hlayer] at hstep
    exact ⟨item, layer, rfl, hlayer, (Option.some.inj hstep).symm⟩

/-- Processing a work item leads from one state between items to the next. -/
theorem Resting.step (hpass : pass.Resting) (hstep : pass.step? around = some next) :
    next.Resting := by
  obtain ⟨item, layer, hitem, _, rfl⟩ := hpass.step?_cases hstep
  exact (hpass.runWalk hitem layer).endWalk _

/-- What holds between two items holds between all items of a pass. -/
theorem Resting.leads (hpass : pass.Resting) (hleads : Leads around pass last) :
    last.Resting := by
  induction hleads with
  | refl => exact hpass
  | tail _ hstep ih => exact ih.step hstep

end Pass

end LayeredMachines
