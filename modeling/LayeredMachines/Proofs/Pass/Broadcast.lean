import LayeredMachines.Proofs.Pass.WorkList
import LayeredMachines.Proofs.Programs.Lines

/-!
# Passes in which layers only write lines

If the layers of a pass make no calls but lines, no work is added, and each layer of the work list
changes by itself. The pass is then over after one work item for each of them, in whatever state the
other layers are.
-/

namespace LayeredMachines

namespace Hierarchy

/-- The layer is below another one, and is finished once it has changed. -/
def leavesBy (change : Layer → Layer) (hierarchy : Hierarchy) (slot : Nat) : Bool :=
  (hierarchy.parent? slot).isSome &&
    (hierarchy.layer? slot).any fun layer => (change layer).isFinal

/-- The layers in some slots have changed, and those that are finished then are taken out. Nothing
else is different. -/
structure Changes (change : Layer → Layer) (done : List Nat) (before after : Hierarchy) : Prop where
  size_eq : after.size = before.size
  parent?_eq : ∀ slot, after.parent? slot = before.parent? slot
  layer?_eq : ∀ slot, after.layer? slot =
    if slot ∈ done then (before.layer? slot).map change else before.layer? slot
  isAttached_eq : ∀ slot, after.isAttached slot =
    if slot ∈ done ∧ before.leavesBy change slot = true then false else before.isAttached slot

variable {change : Layer → Layer} {done : List Nat} {before middle : Hierarchy} {slot : Nat}
  {layer : Layer}

theorem Changes.refl (change : Layer → Layer) (hierarchy : Hierarchy) :
    Changes change [] hierarchy hierarchy where
  size_eq := rfl
  parent?_eq _ := rfl
  layer?_eq _ := by rw [if_neg List.not_mem_nil]
  isAttached_eq _ := by rw [if_neg fun h => List.not_mem_nil h.1]

/-- One more layer changes. -/
theorem Changes.step (h : Changes change done before middle) (hslot : slot ∉ done)
    (hlayer : before.layer? slot = some layer) :
    let taken := middle.take slot
    let left := if (change layer).isFinal then taken.detach slot else taken
    Changes change (done ++ [slot]) before (left.restore slot (change layer)) := by
  intro taken left
  have hsize : left.size = before.size := by
    simp only [left]
    split <;> simp [taken, h.size_eq]
  have hparent (other : Nat) : left.parent? other = before.parent? other := by
    simp only [left]
    split <;> simp [taken, h.parent?_eq]
  have hothers (other : Nat) (hne : other ≠ slot) : left.layer? other = middle.layer? other := by
    simp only [left]
    split <;> simp [taken, layer?_take, hne]
  have hlt : slot < left.size := hsize ▸ lt_size_of_layer? hlayer
  have hleaves : before.leavesBy change slot =
      ((before.parent? slot).isSome && (change layer).isFinal) := by
    rw [leavesBy, hlayer, Option.any_some]
  refine ⟨by rw [size_restore, hsize], fun other => by rw [parent?_restore, hparent],
    fun other => ?_, fun other => ?_⟩
  · rw [layer?_restore]
    by_cases hother : other = slot
    · simp [hother, hlt, hlayer]
    · simp [hother, hothers other hother, h.layer?_eq]
  · have hmiddle := h.isAttached_eq other
    rw [isAttached_restore]
    by_cases hother : other = slot
    · subst hother
      simp only [hslot, false_and, if_false] at hmiddle
      cases hfinal : (change layer).isFinal <;>
        simp [left, taken, hfinal, hleaves, isAttached_detach, h.parent?_eq, hmiddle]
    · have hkept : left.isAttached other = middle.isAttached other := by
        simp only [left]
        split <;> simp [taken, isAttached_detach, hother]
      simp [hkept, hmiddle, hother]

end Hierarchy

namespace Program

variable {α : Type} {leaves : Bool} {value : α} {program : Program α}

/-- What a program that only writes lines does in a pass: it writes some lines, and takes its layer
out if it leaves. -/
theorem Writes.run_snd (h : Writes leaves value program) (around : Surroundings) (slot : Nat)
    (id : LayerId) {pass : Pass} (hattached : pass.hierarchy.isAttached slot = true) :
    ∃ lines : List Diagnostic, (program.run (around.handle slot id) pass).2 =
      { pass with
        hierarchy := if leaves then pass.hierarchy.detach slot else pass.hierarchy
        transcript := pass.transcript ++ (lines.map Notice.line).toArray } := by
  induction h generalizing pass with
  | done => exact ⟨[], by simp [run]⟩
  | pop hnext => exact ⟨[], by simp [run, hnext, Surroundings.handle, hattached]⟩
  | log line _ ih =>
    have hnotified : (pass.notify (.line line)).hierarchy.isAttached slot = true := hattached
    obtain ⟨lines, hlines⟩ := ih hnotified
    refine ⟨line :: lines, hlines.trans ?_⟩
    simp [Pass.notify]

end Program

namespace Pass

variable {around : Surroundings} {change : Layer → Layer} {before pass last : Pass}
  {work : List WorkItem} {event : String} {slot : Nat} {done : List Nat} {layer : Layer}

/-- A pass whose work is walked returns if it may have so many work items, and not otherwise. -/
theorem Walks.drain? (h : Walks around pass work last) (items : Nat) :
    pass.drain? around items = if work.length ≤ items then some last else none := by
  induction h generalizing items with
  | @nil pass hend =>
    have hstep : pass.step? around = none := step?_eq_none.mpr hend
    cases items <;> simp [Pass.drain?, hstep]
  | @cons pass last item layer _ hitem hlayer _ ih =>
    have hstep : pass.step? around = some (pass.walked around item layer) :=
      step?_of_layer? hitem hlayer
    cases items with
    | zero => simp [Pass.drain?, hstep]
    | succ items => simp [Pass.drain?, hstep, ih]

/-- The layers in some slots have changed, and lines were written. Nothing else is different but the
progress of the pass. -/
structure Changes (change : Layer → Layer) (done : List Nat) (before after : Pass) : Prop where
  hierarchy : before.hierarchy.Changes change done after.hierarchy
  timers_eq : after.timers = before.timers
  queue_eq : after.queue = before.queue
  transcript : ∃ lines : List Diagnostic,
    after.transcript = before.transcript ++ (lines.map Notice.line).toArray

/-- One more layer changes by its walk. -/
theorem Changes.walked (h : Changes change done before pass) (hslot : slot ∉ done)
    (hattached : before.hierarchy.isAttached slot = true)
    (hlayer : before.hierarchy.layer? slot = some layer)
    (hwrites : Program.Writes (change layer).isFinal (change layer)
      (around.walk ⟨event, slot⟩ layer)) :
    Changes change (done ++ [slot]) before (pass.walked around ⟨event, slot⟩ layer) := by
  have hbegin : (pass.beginWalk ⟨event, slot⟩ layer).hierarchy.isAttached slot = true := by
    simp [Pass.beginWalk, notify, h.hierarchy.isAttached_eq, hslot, hattached]
  obtain ⟨lines, hlines⟩ := hwrites.run_snd around slot layer.id hbegin
  have hlast := hwrites.run_fst (around.handle slot layer.id) (pass.beginWalk ⟨event, slot⟩ layer)
  obtain ⟨earlier, hearlier⟩ := h.transcript
  simp only [Pass.walked, runWalk, hlast, hlines]
  refine ⟨h.hierarchy.step hslot hlayer, h.timers_eq, h.queue_eq,
    earlier ++ .following layer.id layer.machine.name event :: lines, ?_⟩
  simp [endWalk, Pass.beginWalk, notify, hearlier]

/-- A pass over layers that only write lines walks them one by one, and each of them changes. -/
theorem Changes.exists_walks (slots : List Nat) (h : Changes change done before pass)
    (hqueue : pass.queue.toList.drop pass.progress = slots.map (WorkItem.mk event))
    (hslots : slots.Nodup) (hdone : ∀ slot ∈ slots, slot ∉ done)
    (hwrites : ∀ slot ∈ slots, before.hierarchy.isAttached slot = true ∧
      ∃ layer, before.hierarchy.layer? slot = some layer ∧
        Program.Writes (change layer).isFinal (change layer) (around.walk ⟨event, slot⟩ layer)) :
    ∃ last, Walks around pass (slots.map (WorkItem.mk event)) last ∧
      Changes change (done ++ slots) before last := by
  induction slots generalizing done pass with
  | nil =>
    have hend : pass.next? = none := by
      rw [next?, Array.getElem?_eq_none_iff, ← Array.length_toList]
      exact List.drop_eq_nil_iff.mp hqueue
    exact ⟨pass, .nil hend, by rwa [List.append_nil]⟩
  | cons slot rest ih =>
    obtain ⟨hslot, hrest⟩ := List.nodup_cons.mp hslots
    obtain ⟨hattached, layer, hlayer, hwalk⟩ := hwrites slot List.mem_cons_self
    have hnew := hdone slot List.mem_cons_self
    have hitem : pass.next? = some ⟨event, slot⟩ := by
      rw [next?, ← Array.getElem?_toList, ← List.head?_drop, hqueue, List.map_cons, List.head?_cons]
    have hwalked := h.walked hnew hattached hlayer hwalk
    have hfound : pass.hierarchy.layer? slot = some layer := by
      rw [h.hierarchy.layer?_eq, if_neg hnew, hlayer]
    have hleft : (pass.walked around ⟨event, slot⟩ layer).queue.toList.drop
        (pass.walked around ⟨event, slot⟩ layer).progress = rest.map (WorkItem.mk event) := by
      rw [hwalked.queue_eq, ← h.queue_eq, progress_walked, ← List.tail_drop, hqueue, List.map_cons,
        List.tail_cons]
    have hnext (other : Nat) (hother : other ∈ rest) : other ∉ done ++ [slot] := by
      have hne : other ≠ slot := fun heq => hslot (heq ▸ hother)
      simp [hdone other (List.mem_cons_of_mem slot hother), hne]
    obtain ⟨last, hwalks, hchanges⟩ := ih hwalked hleft hrest hnext fun other hother =>
      hwrites other (List.mem_cons_of_mem slot hother)
    rw [List.append_assoc, List.singleton_append] at hchanges
    exact ⟨last, .cons hitem hfound hwalks, hchanges⟩

end Pass

end LayeredMachines
