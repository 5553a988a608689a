import LayeredMachines.Proofs.Engine.Identities
import LayeredMachines.Proofs.Engine.Snapshots
import Mathlib.Data.List.Nodup

/-!
# The order of the layers

The layers of an engine are listed in the order in which they were started. Until the engine starts
afresh the listing loses layers anywhere and gains them at its end; those that stay are seen below
the same parents, even below one that is not listed any more.
-/

namespace LayeredMachines

/-- A root that starts a child, which starts one of its own. On the event "more" the child finishes
and leaves its own one behind, and the root starts another layer. -/
def Library.orphaning : Library :=
  ⟨[⟨"default",
      [(State.named "start").on "go" "spawn",
        ((State.named "spawn").onEntry "start:machine=child").on "success" "waiting",
        (State.named "waiting").on "more" "again",
        (State.named "again").onEntry "start:machine=leaf"]⟩,
    ⟨"child",
      [(State.named "start").on "started" "spawn",
        ((State.named "spawn").onEntry "start:machine=leaf").on "success" "waiting",
        (State.named "waiting").on "more" "final",
        State.named "final"]⟩,
    ⟨"leaf", [State.named "start"]⟩]⟩

/-- One layer as it is seen at two times. -/
structure Snapshot.IsSame (old new : Snapshot) : Prop where
  id_eq : new.id = old.id
  machine_eq : new.machine = old.machine
  parent_eq : new.parent = old.parent

/-- Entries that are looked up in two tables are related one by one, where a test of the entries in
the one agrees with a test of the places. -/
private theorem forall₂_filterMap {α β : Type} {related : β → β → Prop} {old new : α → Option β}
    {keeps : β → Bool} {stays : α → Bool} {places : List α}
    (h : ∀ place ∈ places, ∃ a b, old place = some a ∧ new place = some b ∧
      keeps a = stays place ∧ related a b) :
    List.Forall₂ related ((places.filterMap old).filter keeps)
      ((places.filter stays).filterMap new) := by
  induction places with
  | nil => exact .nil
  | cons place rest ih =>
    obtain ⟨a, b, hold, hnew, htest, hrelated⟩ := h place List.mem_cons_self
    have hrest := ih fun other hother => h other (List.mem_cons_of_mem place hother)
    rw [List.filterMap_cons_some hold, List.filter_cons, List.filter_cons, htest]
    split
    · rw [List.filterMap_cons_some hnew]
      exact .cons hrelated hrest
    · exact hrest

namespace Hierarchy

variable {hierarchy before after : Hierarchy} {slot first next : Nat} {id : LayerId}

/-- What is seen of a layer has its identity. -/
theorem map_id_snapshot? (hierarchy : Hierarchy) (slot : Nat) :
    (hierarchy.snapshot? slot).map Snapshot.id = hierarchy.id? slot := by
  rw [snapshot?, id?, Option.map_map]
  rfl

theorem id?_of_snapshot? {snapshot : Snapshot} (h : hierarchy.snapshot? slot = some snapshot) :
    hierarchy.id? slot = some snapshot.id := by
  rw [← map_id_snapshot?, h, Option.map_some]

/-- The parent that a layer is seen to have is the layer in the slot of its parent. -/
theorem exists_parent?_of_snapshot? {snapshot : Snapshot}
    (h : hierarchy.snapshot? slot = some snapshot) (hparent : snapshot.parent = some id) :
    ∃ above, hierarchy.parent? slot = some above ∧ hierarchy.id? above = some id := by
  obtain ⟨layer, _, rfl⟩ := Option.map_eq_some_iff.mp h
  obtain ⟨parent, hlayer, rfl⟩ := Option.map_eq_some_iff.mp hparent
  obtain ⟨above, habove, hlayer⟩ := Option.bind_eq_some_iff.mp hlayer
  exact ⟨above, habove, id?_eq_some_iff.mpr ⟨parent, hlayer, rfl⟩⟩

/-- A layer that stays in its slot is seen as the same layer. -/
theorem Grows.snapshot? (hgrows : before.Grows after) (hordered : before.Ordered)
    (hfull : before.IsFull) (hslot : slot < before.size) :
    ∃ old new, before.snapshot? slot = some old ∧ after.snapshot? slot = some new ∧
      old.IsSame new := by
  obtain ⟨layer, hlayer⟩ := Option.isSome_iff_exists.mp (hfull slot hslot)
  obtain ⟨later, hlater, hsame⟩ := hgrows.holds slot layer hlayer
  have hparent : after.parentId? slot = before.parentId? slot := by
    rw [parentId?, parentId?, hgrows.parent?_eq slot hslot]
    cases habove : before.parent? slot with
    | none => rfl
    | some above =>
      have hsize : above < before.size := Nat.lt_trans (hordered.parent_lt habove) hslot
      obtain ⟨parent, hparent⟩ := Option.isSome_iff_exists.mp (hfull above hsize)
      obtain ⟨kept, hkept, hkeptSame⟩ := hgrows.holds above parent hparent
      rw [Option.bind_some, Option.bind_some, hparent, hkept, Option.map_some, Option.map_some,
        hkeptSame.id_eq]
  exact ⟨_, _, snapshot?_of_layer? hlayer, snapshot?_of_layer? hlater, hsame.id_eq,
    congrArg Machine.name hsame.machine_eq, hparent⟩

/-- The attached slots are those that were attached and still are, and then new ones. -/
theorem Grows.attachedSlots_eq (hgrows : before.Grows after) :
    ∃ new, after.attachedSlots = before.attachedSlots.filter after.isAttached ++ new ∧
      ∀ slot ∈ new, before.size ≤ slot := by
  obtain ⟨added, hsize⟩ := Nat.exists_eq_add_of_le hgrows.size_le
  refine ⟨((List.range added).map (before.size + ·)).filter after.isAttached, ?_, ?_⟩
  · rw [attachedSlots, attachedSlots, hsize, List.range_add, List.filter_append, List.filter_filter]
    congr 1
    refine List.filter_congr fun slot hslot => ?_
    have hdetached := hgrows.isAttached_of slot (List.mem_range.mp hslot)
    cases hattached : after.isAttached slot with
    | false => rfl
    | true => rw [hdetached hattached, Bool.and_self]
  · intro slot hslot
    obtain ⟨n, _, rfl⟩ := List.mem_map.mp (List.mem_of_mem_filter hslot)
    exact Nat.le_add_right before.size n

end Hierarchy

namespace Engine

variable {engine last : Engine} {first : Nat} {id : LayerId}

/-- A layer with the identity is listed. -/
def lists (engine : Engine) (id : LayerId) : Bool :=
  engine.layers.any fun snapshot => snapshot.id == id

/-- The layers that are listed are those in the attached slots. -/
theorem lists_iff :
    engine.lists id = true ↔
      ∃ slot, engine.hierarchy.isAttached slot = true ∧ engine.hierarchy.id? slot = some id := by
  simp only [lists, layers, List.any_eq_true, List.mem_filterMap, Hierarchy.mem_attachedSlots,
    beq_iff_eq]
  constructor
  · rintro ⟨snapshot, ⟨slot, hattached, hsnapshot⟩, rfl⟩
    exact ⟨slot, hattached, Hierarchy.id?_of_snapshot? hsnapshot⟩
  · rintro ⟨slot, hattached, hid⟩
    rw [← Hierarchy.map_id_snapshot?] at hid
    obtain ⟨snapshot, hsnapshot, rfl⟩ := Option.map_eq_some_iff.mp hid
    exact ⟨snapshot, ⟨slot, hattached, hsnapshot⟩, rfl⟩

/-! ### One listing -/

/-- No two layers that are listed share an identity. -/
theorem IsNumbered.nodup_layers (h : engine.IsNumbered first) :
    (engine.layers.map Snapshot.id).Nodup := by
  have hids : engine.layers.map Snapshot.id =
      engine.hierarchy.attachedSlots.filterMap engine.hierarchy.id? := by
    rw [Engine.layers, List.map_filterMap]
    exact List.filterMap_congr fun slot _ => engine.hierarchy.map_id_snapshot? slot
  have hslots : engine.hierarchy.attachedSlots.Nodup := List.nodup_range.filter _
  rw [hids]
  exact hslots.filterMap fun _ _ _ hslot hother => h.layers.slot_eq hslot hother

/-- A layer that is listed stands before those that it is the parent of. -/
theorem Intact.parent_mem_before (h : engine.Intact first) {before after : List Snapshot}
    {child parent : Snapshot} (hlayers : engine.layers = before ++ child :: after)
    (hparent : parent ∈ engine.layers) (hbelow : child.parent = some parent.id) :
    parent ∈ before := by
  obtain ⟨slots, rest, hslots, hbefore, hrest⟩ := List.filterMap_eq_append_iff.mp hlayers
  obtain ⟨skipped, slot, later, rfl, hskipped, hchild, _⟩ := List.filterMap_eq_cons_iff.mp hrest
  obtain ⟨other, hother, hsnapshot⟩ := List.mem_filterMap.mp hparent
  obtain ⟨above, habove, hid⟩ := Hierarchy.exists_parent?_of_snapshot? hchild hbelow
  obtain rfl : other = above :=
    h.isNumbered.layers.slot_eq (Hierarchy.id?_of_snapshot? hsnapshot) hid
  have hlt : other < slot := h.ordered.parent_lt habove
  -- The slots are listed from the smallest on, so the parent's is not behind the child's.
  have hsorted := engine.hierarchy.pairwise_attachedSlots
  rw [hslots, ← List.append_assoc] at hsorted
  obtain ⟨_, hsorted, _⟩ := List.pairwise_append.mp hsorted
  obtain ⟨hlater, _⟩ := List.pairwise_cons.mp hsorted
  rw [hslots, List.mem_append, List.mem_append, List.mem_cons] at hother
  rcases hother with hslot | hslot | rfl | hslot
  · rw [← hbefore]
    exact List.mem_filterMap.mpr ⟨other, hslot, hsnapshot⟩
  · exact absurd (hskipped other hslot) (by simp [hsnapshot])
  · exact absurd hlt (Nat.lt_irrefl other)
  · exact absurd (Nat.lt_trans hlt (hlater other hslot)) (Nat.lt_irrefl other)

/-! ### Two listings -/

/-- A layer of an engine is listed later on if and only if its slot is attached then. -/
theorem Intact.lists_iff_isAttached (h : last.Intact first)
    (hgrows : engine.hierarchy.Grows last.hierarchy) {slot : Nat}
    (hid : engine.hierarchy.id? slot = some id) :
    last.lists id = true ↔ last.hierarchy.isAttached slot = true := by
  have hlater := hgrows.id? hid
  refine lists_iff.trans ⟨?_, fun hattached => ⟨slot, hattached, hlater⟩⟩
  rintro ⟨other, hattached, hother⟩
  exact h.isNumbered.layers.slot_eq hother hlater ▸ hattached

/-- Where layers stay in their slots, the layers that are still listed come first, in their order and
below their parents, and all others are new. -/
theorem Intact.layers_of_grows (hengine : engine.Intact first) (hlast : last.Intact first)
    (hgrows : engine.hierarchy.Grows last.hierarchy) :
    ∃ survivors new, last.layers = survivors ++ new ∧
      List.Forall₂ Snapshot.IsSame (engine.layers.filter fun old => last.lists old.id) survivors ∧
      ∀ snapshot ∈ new, engine.lists snapshot.id = false := by
  obtain ⟨added, hslots, hadded⟩ := hgrows.attachedSlots_eq
  refine ⟨_, _, by rw [layers, hslots, List.filterMap_append], forall₂_filterMap ?_, ?_⟩
  · intro slot hslot
    have hsize := Hierarchy.lt_size_of_isAttached (Hierarchy.mem_attachedSlots.mp hslot)
    obtain ⟨old, new, hold, hnew, hsame⟩ :=
      hgrows.snapshot? hengine.ordered hengine.isFull hsize
    have hlists := hlast.lists_iff_isAttached hgrows (Hierarchy.id?_of_snapshot? hold)
    exact ⟨old, new, hold, hnew, Bool.eq_iff_iff.mpr hlists, hsame⟩
  · intro snapshot hsnapshot
    obtain ⟨slot, hslot, hfound⟩ := List.mem_filterMap.mp hsnapshot
    rw [← Bool.not_eq_true]
    intro hlists
    obtain ⟨other, hattached, hid⟩ := lists_iff.mp hlists
    have hsame := hlast.isNumbered.layers.slot_eq (hgrows.id? hid)
      (Hierarchy.id?_of_snapshot? hfound)
    have hold := Hierarchy.lt_size_of_isAttached hattached
    have hnew := hadded slot hslot
    omega

/-- A layer that was listed and then was not is not listed later on. -/
theorem Intact.not_lists_of_grows {middle : Engine} (hmiddle : middle.Intact first)
    (hlast : last.Intact first)
    (hfirst : engine.hierarchy.Grows middle.hierarchy)
    (hnext : middle.hierarchy.Grows last.hierarchy) (hlisted : engine.lists id = true)
    (hgone : middle.lists id = false) : last.lists id = false := by
  obtain ⟨slot, hattached, hid⟩ := lists_iff.mp hlisted
  have hmid := hfirst.id? hid
  have hsize : slot < middle.hierarchy.size :=
    Nat.lt_of_lt_of_le (Hierarchy.lt_size_of_isAttached hattached) hfirst.size_le
  rw [← Bool.not_eq_true] at hgone ⊢
  intro hback
  have hagain := (hlast.lists_iff_isAttached hnext hmid).mp hback
  exact hgone ((hmiddle.lists_iff_isAttached hfirst hid).mpr (hnext.isAttached_of slot hsize hagain))

/-- Mirrored engines list the same layers. -/
theorem Mirrors.layers_eq {small large : Engine} (h : Mirrors small large) :
    large.layers = small.layers := by
  obtain ⟨_, place, hembeds⟩ := h
  exact congrArg View.layers hembeds.view_eq

theorem Mirrors.lists_eq {small large : Engine} (h : Mirrors small large) (id : LayerId) :
    large.lists id = small.lists id := by
  rw [lists, lists, h.layers_eq]

/-- Whatever an engine handles until it starts afresh, the layers that are listed before and after
keep their order, their machines and their parents, also below a parent that is not listed any more.
The others that are listed after are new, and stand behind them. A layer that was listed and then
was not does not come back. No two layers share an identity, and a layer that is listed with its
parent stands behind it. -/
theorem layers_keep_order (hengine : engine.Reachable) (hlast : engine.Continues last) :
    (∃ survivors new, last.layers = survivors ++ new ∧
      List.Forall₂ Snapshot.IsSame (engine.layers.filter fun old => last.lists old.id) survivors ∧
      ∀ snapshot ∈ new, engine.lists snapshot.id = false) ∧
    (∀ middle id, engine.Continues middle → middle.Continues last → engine.lists id = true →
      middle.lists id = false → last.lists id = false) ∧
    (last.layers.map Snapshot.id).Nodup ∧
    ∀ before child after parent, last.layers = before ++ child :: after → parent ∈ last.layers →
      child.parent = some parent.id → parent ∈ before := by
  have hintact : engine.Intact 0 := hengine.settled.intact hengine.isNumbered
  have hself := hengine.settled.mirrors_self
  obtain ⟨larger, hmirrors, hlarger, hgrows⟩ := hself.continues hintact hlast
  have hend : last.Intact 0 :=
    hmirrors.settled.intact (hmirrors.isNumbered hlarger.isNumbered)
  refine ⟨?_, fun middle id hmiddle hrest hlisted hgone => ?_, hend.isNumbered.nodup_layers,
    fun before child after parent => hend.parent_mem_before⟩
  · obtain ⟨survivors, new, hlayers, hsame, hnew⟩ := hintact.layers_of_grows hlarger hgrows
    simp only [hmirrors.lists_eq] at hsame
    exact ⟨survivors, new, hmirrors.layers_eq ▸ hlayers, hsame, hnew⟩
  · obtain ⟨large, hmid, hlarge, hfirst⟩ := hself.continues hintact hmiddle
    obtain ⟨largest, hfinal, hlargest, hnext⟩ := hmid.continues hlarge hrest
    rw [← hmid.lists_eq] at hgone
    rw [← hfinal.lists_eq]
    exact hlarge.not_lists_of_grows hlargest hfirst hnext hlisted hgone

/-- The engine that runs the orphaning library from its beginning. -/
def orphaning : Engine :=
  (create Config.default).restart Library.orphaning

/-- When the child of the orphaning library has finished, the layer below it is still seen below it,
and stands before the new layer. -/
theorem layers_keep_order_of_orphaning :
    ∃ (engine last : Engine) (survivors new : List Snapshot), engine.Reachable ∧
      engine.Continues last ∧
      engine.layers.map (fun seen => (seen.id, seen.parent)) =
        [(⟨0⟩, none), (⟨1⟩, some ⟨0⟩), (⟨2⟩, some ⟨1⟩)] ∧
      last.layers.map (fun seen => (seen.id, seen.parent)) =
        [(⟨0⟩, none), (⟨2⟩, some ⟨1⟩), (⟨3⟩, some ⟨0⟩)] ∧
      last.layers = survivors ++ new ∧
      List.Forall₂ Snapshot.IsSame (engine.layers.filter fun old => last.lists old.id) survivors ∧
      ∀ snapshot ∈ new, engine.lists snapshot.id = false := by
  have hrun : (orphaning.act? compact 10 (.handle "go" none 0)).any fun engine =>
      engine.layers.map (fun seen => (seen.id, seen.parent)) ==
        [(⟨0⟩, none), (⟨1⟩, some ⟨0⟩), (⟨2⟩, some ⟨1⟩)] &&
      (engine.act? compact 10 (.handle "more" none 0)).any fun last =>
        last.layers.map (fun seen => (seen.id, seen.parent)) ==
          [(⟨0⟩, none), (⟨2⟩, some ⟨1⟩), (⟨3⟩, some ⟨0⟩)] := by
    decide +kernel
  obtain ⟨engine, hgo, hrest⟩ := (Option.any_eq_true ..).mp hrun
  obtain ⟨hbefore, hmore⟩ := Bool.and_eq_true_iff.mp hrest
  obtain ⟨last, hlast, hafter⟩ := (Option.any_eq_true ..).mp hmore
  have hengine : engine.Reachable :=
    .act (reachable_restart Config.default Library.orphaning) hgo
  have hcontinues : engine.Continues last := .act (.refl engine) rfl hlast
  obtain ⟨⟨survivors, new, hlayers, hsame, hnew⟩, _⟩ := layers_keep_order hengine hcontinues
  exact ⟨engine, last, survivors, new, hengine, hcontinues, beq_iff_eq.mp hbefore,
    beq_iff_eq.mp hafter, hlayers, hsame, hnew⟩

end Engine

end LayeredMachines
