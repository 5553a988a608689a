import LayeredMachines.Proofs.Engine.Arena
import LayeredMachines.Proofs.Pass.Endings

/-!
# Which layers survive

From the start of an engine on, through all that it handles, its root stays the same layer, and
apart from the root no layer that rests in a final state is attached when a pass is over.
-/

namespace LayeredMachines

/-- The root is the given layer at that time or later, and no attached layer below it is
finished. -/
structure Hierarchy.IsTidy (hierarchy : Hierarchy) (first : Layer) : Prop where
  holds : hierarchy.Holds 0 first
  isUnfinished : ∀ slot, slot ≠ 0 → hierarchy.isAttached slot = true → hierarchy.IsUnfinished slot

/-- The records that are embedded in a tidy hierarchy are tidy. -/
theorem Hierarchy.IsTidy.of_embeds {place : Nat → Nat} {small large : Hierarchy} {first : Layer}
    (hlarge : large.IsTidy first) (hroot : large.isAttached 0 = true)
    (h : small.Embeds place large) : small.IsTidy first where
  holds := by
    obtain ⟨layer, hlayer, hsame⟩ := hlarge.holds
    refine ⟨layer, ?_, hsame⟩
    rw [← h.layer?_place, h.place_zero hroot]
    exact hlayer
  isUnfinished slot hzero hattached := by
    have hplace : place slot ≠ 0 := by
      rw [← h.place_zero hroot, Ne, h.place_eq_iff]
      exact hzero
    obtain ⟨layer, hlayer, hfinal⟩ :=
      hlarge.isUnfinished (place slot) hplace (by rwa [h.isAttached_place])
    exact ⟨layer, by rwa [← h.layer?_place], hfinal⟩

namespace Engine

variable {engine next last : Engine} {items : Nat} {action : Action} {first : Layer}

/-! ### The beginning -/

/-- The root that is started from a machine of a library. -/
def newRoot (engine : Engine) (machine : Machine) : Layer :=
  Layer.create ⟨engine.nextLayer⟩ machine engine.config.historyLimit

/-- An engine that starts afresh with a machine for its root has nothing but the root. -/
theorem hierarchy_restart (engine : Engine) {library : Library} {machine : Machine}
    (hmachine : library.find? rootMachine = some machine) :
    (engine.restart library).hierarchy = Hierarchy.empty.attach none (engine.newRoot machine) := by
  simp only [restart, hmachine]
  rfl

/-- A hierarchy of nothing but an unstarted root is tidy. -/
theorem isTidy_root (root : Layer) : (Hierarchy.empty.attach none root).IsTidy root where
  holds := ⟨root, rfl, .refl root⟩
  isUnfinished slot hzero hattached := by
    have hlt : slot < 1 := Hierarchy.lt_size_of_isAttached hattached
    omega

/-! ### One action -/

/-- Delivering an event leaves the hierarchy tidy. -/
theorem Settled.isTidy_of_deliver? {event : String} {target : Option LayerId} {now : Int}
    (hengine : engine.Settled) (htidy : engine.hierarchy.IsTidy first)
    (hdeliver : engine.deliver? items event target now = some next) :
    next.hierarchy.IsTidy first := by
  rcases deliver?_cases hdeliver with rfl | ⟨hevent, last, hdrain, rfl⟩
  · exact htidy
  · have hfirst := resting_beginPass hengine.ordered hengine.isFull hevent target
    obtain ⟨hleads, hend⟩ := Pass.leads_of_drain? hdrain
    have hattended : (engine.beginPass event target).IsAttended fun _ => False := by
      intro slot hzero _ hattached
      rw [hierarchy_beginPass] at hattached ⊢
      exact .inl (htidy.isUnfinished slot hzero hattached)
    constructor
    · refine hfirst.holds_leads ?_ hleads
      rw [hierarchy_beginPass]
      exact htidy.holds
    · intro slot hzero hattached
      exact hfirst.isUnfinished_of_end hattended hleads hend hzero hattached

/-- Every action but a start leaves the hierarchy tidy. -/
theorem Settled.isTidy_act? (hengine : engine.Settled) (htidy : engine.hierarchy.IsTidy first)
    (haction : action.isRestart = false)
    (hact : engine.act? compact items action = some next) : next.hierarchy.IsTidy first := by
  rcases act?_cases hact with ⟨library, rfl, _⟩ | ⟨resolver, rfl⟩ | ⟨timers, rfl⟩ |
    ⟨timers, event, target, now, delivered, hdeliver, rfl⟩
  · simp [Action.isRestart] at haction
  · exact htidy
  · exact htidy
  · have hbefore : { engine with timers := timers }.Settled := hengine.of_hierarchy_eq rfl
    have hdelivered := hbefore.isTidy_of_deliver? htidy hdeliver
    obtain ⟨hordered, _⟩ := hbefore.of_deliver? hdeliver
    obtain ⟨root, hroot, _⟩ := hdelivered.holds
    have hattached := hordered.root_attached (Hierarchy.lt_size_of_layer? hroot)
    exact hdelivered.of_embeds hattached hordered.embeds_compact

/-- An engine that goes on from a settled and tidy one is settled and tidy. -/
theorem Continues.isTidy (hlast : engine.Continues last) (hengine : engine.Settled)
    (htidy : engine.hierarchy.IsTidy first) : last.Settled ∧ last.hierarchy.IsTidy first := by
  induction hlast with
  | refl => exact ⟨hengine, htidy⟩
  | act _ haction hact ih =>
    obtain ⟨hsettled, htidy⟩ := ih
    exact ⟨hsettled.act? hact, hsettled.isTidy_act? htidy haction hact⟩

/-! ### What is seen of it -/

/-- The root of a settled engine comes first among its attached layers. -/
theorem Settled.attachedSlots_eq (hengine : engine.Settled) (hsize : 0 < engine.hierarchy.size) :
    ∃ rest, engine.hierarchy.attachedSlots = 0 :: rest ∧ ∀ slot ∈ rest, slot ≠ 0 := by
  have hroot : 0 ∈ engine.hierarchy.attachedSlots :=
    Hierarchy.mem_attachedSlots.mpr (hengine.ordered.root_attached hsize)
  have hsorted := engine.hierarchy.pairwise_attachedSlots
  cases hslots : engine.hierarchy.attachedSlots with
  | nil => simp [hslots] at hroot
  | cons slot rest =>
    rw [hslots] at hroot hsorted
    obtain ⟨hlt, _⟩ := List.pairwise_cons.mp hsorted
    have hzero : slot = 0 := by
      rcases List.mem_cons.mp hroot with hzero | hmem
      · exact hzero.symm
      · have := hlt 0 hmem
        omega
    refine ⟨rest, by rw [hzero], fun other hother => ?_⟩
    have := hlt other hother
    omega

/-- The first layer of a tidy engine is its root, and no other one is in a final state. -/
theorem Settled.layers_of_isTidy (hengine : engine.Settled)
    (htidy : engine.hierarchy.IsTidy first) :
    ∃ root rest, engine.layers = root :: rest ∧ root.id = first.id ∧
      root.machine = first.machine.name ∧ root.parent = none ∧
      ∀ snapshot ∈ rest, caselessEq snapshot.state finalLabel = false := by
  obtain ⟨layer, hlayer, hsame⟩ := htidy.holds
  have hsize := Hierarchy.lt_size_of_layer? hlayer
  obtain ⟨rest, hslots, hrest⟩ := hengine.attachedSlots_eq hsize
  have hparent := (hengine.ordered.parent?_eq_none hsize).mpr rfl
  have hroot : engine.hierarchy.snapshot? 0 = some (Snapshot.ofLayer layer none) := by
    rw [Hierarchy.snapshot?, hlayer, hparent]
    rfl
  refine ⟨Snapshot.ofLayer layer none, rest.filterMap engine.hierarchy.snapshot?, ?_, hsame.id_eq,
    congrArg Machine.name hsame.machine_eq, rfl, ?_⟩
  · rw [layers, hslots, List.filterMap_cons_some hroot]
  · intro snapshot hmem
    obtain ⟨slot, hslot, hsnapshot⟩ := List.mem_filterMap.mp hmem
    have hattached : engine.hierarchy.isAttached slot = true := by
      rw [← Hierarchy.mem_attachedSlots, hslots]
      exact List.mem_cons_of_mem 0 hslot
    obtain ⟨other, hother, hfinal⟩ := htidy.isUnfinished slot (hrest slot hslot) hattached
    rw [Hierarchy.snapshot?, hother, Option.map_some] at hsnapshot
    obtain rfl := Option.some.inj hsnapshot
    exact other.isFinal_eq.symm.trans hfinal

/-- After an engine has started with a machine for its root, and whatever it has handled since, the
first of its layers is the root that it started with, without a parent, and no other layer rests in
a state whose label is "final" up to case. -/
theorem root_survives (engine : Engine) {library : Library} {machine : Machine}
    (hmachine : library.find? rootMachine = some machine)
    (hlast : (engine.restart library).Continues last) :
    ∃ first root rest, (engine.restart library).layers = [first] ∧ last.layers = root :: rest ∧
      root.id = first.id ∧ root.machine = first.machine ∧
      first.parent = none ∧ root.parent = none ∧
      ∀ snapshot ∈ rest, caselessEq snapshot.state finalLabel = false := by
  have hhierarchy := engine.hierarchy_restart hmachine
  have htidy : (engine.restart library).hierarchy.IsTidy (engine.newRoot machine) := by
    rw [hhierarchy]
    exact isTidy_root _
  obtain ⟨hsettled, hlastTidy⟩ := hlast.isTidy (settled_restart engine library) htidy
  obtain ⟨root, rest, hlayers, hid, hname, hparent, hrest⟩ := hsettled.layers_of_isTidy hlastTidy
  refine ⟨Snapshot.ofLayer (engine.newRoot machine) none, root, rest, ?_, hlayers, hid, hname, rfl,
    hparent, hrest⟩
  rw [layers, hhierarchy]
  rfl

/-- When the child of the sample has finished, the root alone is left. -/
theorem root_survives_of_sample :
    ∃ last, sample.Continues last ∧ last.size = 1 ∧
      ∃ first root rest, sample.layers = [first] ∧ last.layers = root :: rest ∧
        root.id = first.id ∧ root.parent = none := by
  have hgo : (sample.act? compact 10 (.handle "go" none 0)).any fun engine =>
      (engine.act? compact 10 (.handle "finish" none 0)).any fun last => last.size == 1 := by
    decide +kernel
  obtain ⟨engine, hengine, hfinish⟩ := (Option.any_eq_true ..).mp hgo
  obtain ⟨last, hlast, hsize⟩ := (Option.any_eq_true ..).mp hfinish
  have hcontinues : sample.Continues last := .act (.act (.refl sample) rfl hengine) rfl hlast
  obtain ⟨first, root, rest, hfirst, hlayers, hid, _, _, hparent, _⟩ :=
    root_survives (create Config.default) (rfl : Library.sample.find? rootMachine = some _)
      hcontinues
  exact ⟨last, hcontinues, beq_iff_eq.mp hsize, first, root, rest, hfirst, hlayers, hid, hparent⟩

end Engine

end LayeredMachines
