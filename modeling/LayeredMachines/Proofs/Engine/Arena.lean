import LayeredMachines.Proofs.Engine.Runs

/-!
# The records of a reachable engine

Between passes the records of an engine form a tree with the root in the first slot, every layer
is in its record, and no record is left that nothing attached depends on. During a pass the tree
stays a tree at every step, and only the layer that walks is missing from its record.
-/

namespace LayeredMachines

/-- Below the root every record has a parent with a smaller slot, the root is attached, and every
chain of parents ends at the root. -/
structure Hierarchy.IsTree (hierarchy : Hierarchy) : Prop extends hierarchy.Ordered where
  leads_to_root : ∀ slot < hierarchy.size, Relation.ReflTransGen hierarchy.IsParent slot 0

/-- An ordered hierarchy is a tree. -/
theorem Hierarchy.Ordered.isTree {hierarchy : Hierarchy} (hordered : hierarchy.Ordered) :
    hierarchy.IsTree :=
  ⟨hordered, fun _ => hordered.leads_to_root⟩

namespace Engine

variable {engine next : Engine} {items : Nat} {action : Action}

/-- What holds of the records of an engine between its passes. -/
structure Settled (engine : Engine) : Prop where
  ordered : engine.hierarchy.Ordered
  isFull : engine.hierarchy.IsFull
  isCompact : engine.hierarchy.IsCompact

/-- Whether an engine is settled is a matter of its records alone. -/
theorem Settled.of_hierarchy_eq (hengine : engine.Settled)
    (hsame : next.hierarchy = engine.hierarchy) : next.Settled where
  ordered := hsame ▸ hengine.ordered
  isFull := hsame ▸ hengine.isFull
  isCompact := hsame ▸ hengine.isCompact

/-- An engine without layers is settled. -/
theorem settled_of_empty (hempty : engine.hierarchy = Hierarchy.empty) : engine.Settled where
  ordered := hempty ▸ Hierarchy.ordered_empty
  isFull slot hslot := by
    rw [hempty] at hslot
    exact absurd hslot (Nat.not_lt_zero slot)
  isCompact slot hslot := by
    rw [hempty] at hslot
    exact absurd hslot (Nat.not_lt_zero slot)

/-- An engine that starts afresh is settled, whatever it was before. -/
theorem settled_restart (engine : Engine) (library : Library) :
    (engine.restart library).Settled := by
  unfold restart
  split
  · next machine _ =>
    have hsize (layer : Layer) : (Hierarchy.empty.attach none layer).size = 1 := by
      simp [Hierarchy.size, Hierarchy.empty, Hierarchy.attach]
    refine ⟨Hierarchy.ordered_root _, fun slot hslot => ?_, fun slot hslot => ?_⟩
    · rw [hsize, Nat.lt_one_iff] at hslot
      simp [hslot, Hierarchy.layer?_attach, Hierarchy.size, Hierarchy.empty]
    · rw [hsize, Nat.lt_one_iff] at hslot
      have hroot := (Hierarchy.ordered_root
        (Layer.create ⟨engine.nextLayer⟩ machine engine.config.historyLimit)).root_attached
      exact Hierarchy.isKept_iff.mpr (.inl (hslot ▸ hroot (by simp [hsize])))
  · exact settled_of_empty rfl

/-- A pass that returns keeps the order of the records and returns all layers. -/
theorem Settled.of_drain? {event : String} {target : Option LayerId} {now : Int} {last : Pass}
    (hengine : engine.Settled) (hevent : event ≠ "")
    (hdrain : (engine.beginPass event target).drain? (engine.surroundings now) items = some last) :
    last.Resting :=
  (resting_beginPass hengine.ordered hengine.isFull hevent target).leads
    (Pass.leads_of_drain? hdrain).1

/-- Delivering an event keeps the order of the records and returns all layers, and leaves dropping
records to the compaction. -/
theorem Settled.of_deliver? {event : String} {target : Option LayerId} {now : Int}
    (hengine : engine.Settled) (hdeliver : engine.deliver? items event target now = some next) :
    next.hierarchy.Ordered ∧ next.hierarchy.IsFull := by
  rcases deliver?_cases hdeliver with rfl | ⟨hevent, last, hdrain, rfl⟩
  · exact ⟨hengine.ordered, hengine.isFull⟩
  · have hlast := hengine.of_drain? hevent hdrain
    exact ⟨hlast.ordered, hlast.isFull⟩

/-- Every action leaves a settled engine settled. -/
theorem Settled.act? (hengine : engine.Settled)
    (hact : engine.act? compact items action = some next) : next.Settled := by
  rcases act?_cases hact with ⟨library, _, rfl⟩ | ⟨resolver, rfl⟩ | ⟨timers, rfl⟩ |
    ⟨timers, event, target, now, delivered, hdeliver, rfl⟩
  · exact settled_restart engine library
  · exact hengine.of_hierarchy_eq rfl
  · exact hengine.of_hierarchy_eq rfl
  · have hbefore : { engine with timers := timers }.Settled := hengine.of_hierarchy_eq rfl
    obtain ⟨hordered, hfull⟩ := hbefore.of_deliver? hdeliver
    exact ⟨hordered.compact, hfull.compact hordered, hordered.isCompact_compact⟩

/-- The compaction of a settled engine changes nothing. -/
theorem Settled.compact_eq_self (hengine : engine.Settled) : engine.compact = engine := by
  rw [compact, hengine.ordered.compact_eq_self hengine.isCompact]

/-- An event for a layer that is not there is handled without any change to the records. -/
theorem Settled.handle?_of_find?_eq_none (hengine : engine.Settled) {id : LayerId}
    (hid : engine.hierarchy.find? id = none) (items : Nat) (event : String) (now : Int) :
    engine.handle? items event (some id) now =
      some { engine with transcript := engine.transcript ++ Notice.mention event } := by
  have hsettled : { engine with
      transcript := engine.transcript ++ Notice.mention event }.Settled :=
    hengine.of_hierarchy_eq rfl
  rw [handle?, deliver?_of_find?_eq_none hid, Option.map_some, hsettled.compact_eq_self]

/-- Every reachable engine is settled. -/
theorem Reachable.settled (hengine : engine.Reachable) : engine.Settled := by
  induction hengine with
  | create => exact settled_of_empty rfl
  | act _ hact ih => exact ih.act? hact

/-- In every state of every pass the records of a reachable engine are in order and hold their
layers. -/
theorem Reachable.resting {event : String} {target : Option LayerId} {now : Int} {pass : Pass}
    (hengine : engine.Reachable) (hevent : event ≠ "")
    (hleads : Pass.Leads (engine.surroundings now) (engine.beginPass event target) pass) :
    pass.Resting :=
  (resting_beginPass hengine.settled.ordered hengine.settled.isFull hevent target).leads hleads

/-- The records of a reachable engine form a tree, hold their layers, and are all attached or above
an attached one. They form a tree in every state of every pass, whether or not it returns, and
while the layer of a work item walks its own record is the only one without its layer. -/
theorem records_form_tree (hengine : engine.Reachable) :
    (engine.hierarchy.IsTree ∧
      (∀ slot < engine.hierarchy.size, ∃ layer, engine.hierarchy.layer? slot = some layer) ∧
      ∀ slot < engine.hierarchy.size, engine.hierarchy.isAttached slot = true ∨
        ∃ below, engine.hierarchy.isAttached below = true ∧
          engine.hierarchy.IsBelow below slot) ∧
    ∀ event target now pass, event ≠ "" →
      Pass.Leads (engine.surroundings now) (engine.beginPass event target) pass →
      pass.hierarchy.IsTree ∧
      (∀ slot < pass.hierarchy.size, ∃ layer, pass.hierarchy.layer? slot = some layer) ∧
      ∀ item, pass.next? = some item → ∀ mid ∈ pass.walkStates (engine.surroundings now),
        mid.hierarchy.IsTree ∧ item.slot < mid.hierarchy.size ∧
        ∀ slot < mid.hierarchy.size, mid.hierarchy.layer? slot = none ↔ slot = item.slot := by
  have hsettled := hengine.settled
  refine ⟨⟨hsettled.ordered.isTree, ?_, ?_⟩, ?_⟩
  · intro slot hslot
    exact Option.isSome_iff_exists.mp (hsettled.isFull slot hslot)
  · intro slot hslot
    rcases Hierarchy.isKept_iff.mp (hsettled.isCompact slot hslot) with
      hattached | ⟨below, hbelow, habove⟩
    · exact .inl hattached
    · exact .inr ⟨below, hbelow, Hierarchy.isBelow_of_mem_ancestors habove⟩
  · intro event target now pass hevent hleads
    have hresting :=
      (resting_beginPass hsettled.ordered hsettled.isFull hevent target).leads hleads
    refine ⟨hresting.ordered.isTree, ?_, ?_⟩
    · intro slot hslot
      exact Option.isSome_iff_exists.mp (hresting.isFull slot hslot)
    · intro item hitem mid hmid
      have hwalking := hresting.walking_of_mem_walkStates hitem hmid
      exact ⟨hwalking.ordered.isTree, hwalking.slot_lt, hwalking.layer?_eq_none⟩

/-- A root and the child that it has started form a tree. In the pass that lets the child finish,
the root is the first to walk, and then its record alone is without its layer. -/
theorem records_form_tree_of_sample :
    ∃ engine : Engine, engine.Reachable ∧ engine.size = 2 ∧ engine.hierarchy.IsTree ∧
      ∃ mid ∈ (engine.beginPass "finish" none).walkStates (engine.surroundings 0),
        ∀ slot < mid.hierarchy.size, mid.hierarchy.layer? slot = none ↔ slot = 0 := by
  have hgo : (sample.act? compact 10 (.handle "go" none 0)).any fun engine =>
      engine.size == 2 && (engine.beginPass "finish" none).next? == some ⟨"finish", 0⟩ &&
        !((engine.beginPass "finish" none).walkStates (engine.surroundings 0)).isEmpty := by
    decide +kernel
  obtain ⟨engine, hact, hengine⟩ := (Option.any_eq_true ..).mp hgo
  simp only [Bool.and_eq_true, beq_iff_eq, Bool.not_eq_true', List.isEmpty_eq_false_iff_exists_mem]
    at hengine
  obtain ⟨⟨hsize, hitem⟩, mid, hmid⟩ := hengine
  obtain ⟨⟨htree, _⟩, hpass⟩ := records_form_tree (.act reachable_sample hact)
  obtain ⟨_, _, hwalk⟩ := hpass "finish" none 0 _ (by decide) .refl
  exact ⟨engine, .act reachable_sample hact, hsize, htree, mid, hmid, (hwalk _ hitem mid hmid).2.2⟩

end Engine

end LayeredMachines
