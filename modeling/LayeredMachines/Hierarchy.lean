import LayeredMachines.Layer.Basic

/-!
# The hierarchy of layers

The layers of an engine are kept in records in the order of their creation, each with the slot of
its parent's record, so that a child comes after its parent. A layer that leaves the hierarchy
keeps its record: work that is already queued may refer to it, and its children reach their
ancestors through it. Records that nothing can reach any more are dropped when the hierarchy is
compacted.
-/

namespace LayeredMachines

/-- The place of a layer in the hierarchy. The layer is taken out of its record while it walks. -/
structure Record where
  layer : Option Layer
  parent : Option Nat
  attached : Bool
  deriving DecidableEq

/-- The records of all layers. The place of a record among them is its slot. -/
structure Hierarchy where
  records : Array Record
  deriving DecidableEq

namespace Hierarchy

/-- The hierarchy without layers. -/
def empty : Hierarchy :=
  ⟨#[]⟩

/-- The number of records. -/
def size (hierarchy : Hierarchy) : Nat :=
  hierarchy.records.size

/-- Add an attached layer below the layer in the given slot, or as a root. -/
def attach (hierarchy : Hierarchy) (parent : Option Nat) (layer : Layer) : Hierarchy :=
  ⟨hierarchy.records.push ⟨some layer, parent, true⟩⟩

/-- The record in `slot` holds an attached layer. -/
def isAttached (hierarchy : Hierarchy) (slot : Nat) : Bool :=
  hierarchy.records[slot]?.any Record.attached

/-- The slot of the parent of the layer in `slot`. -/
def parent? (hierarchy : Hierarchy) (slot : Nat) : Option Nat :=
  hierarchy.records[slot]?.bind Record.parent

/-- The layer in `slot`, unless it is taken out. -/
def layer? (hierarchy : Hierarchy) (slot : Nat) : Option Layer :=
  hierarchy.records[slot]?.bind Record.layer

/-- Change the record in `slot`. -/
def modify (hierarchy : Hierarchy) (slot : Nat) (change : Record → Record) : Hierarchy :=
  ⟨hierarchy.records.modify slot change⟩

/-- Detach the layer in `slot`. A layer without a parent stays attached. -/
def detach (hierarchy : Hierarchy) (slot : Nat) : Hierarchy :=
  hierarchy.modify slot fun record =>
    if record.parent.isSome then { record with attached := false } else record

/-- Take the layer out of `slot`. -/
def take (hierarchy : Hierarchy) (slot : Nat) : Hierarchy :=
  hierarchy.modify slot fun record => { record with layer := none }

/-- Put a layer into `slot`. -/
def restore (hierarchy : Hierarchy) (slot : Nat) (layer : Layer) : Hierarchy :=
  hierarchy.modify slot fun record => { record with layer := some layer }

/-- Change the layer in `slot`, unless it is taken out. -/
def modifyLayer (hierarchy : Hierarchy) (slot : Nat) (change : Layer → Layer) : Hierarchy :=
  hierarchy.modify slot fun record => { record with layer := record.layer.map change }

/-- The slots of the attached layers, in the order of their creation. -/
def attachedSlots (hierarchy : Hierarchy) : List Nat :=
  (List.range hierarchy.size).filter hierarchy.isAttached

/-- The number of attached layers. -/
def attachedCount (hierarchy : Hierarchy) : Nat :=
  hierarchy.attachedSlots.length

/-- The slot of the attached layer with an identity. -/
def find? (hierarchy : Hierarchy) (id : LayerId) : Option Nat :=
  hierarchy.attachedSlots.find? fun slot => (hierarchy.layer? slot).any fun layer => layer.id == id

/-- The slots above `slot`, the nearest first. A parent always has a smaller slot than its
child. -/
def ancestors (hierarchy : Hierarchy) (slot : Nat) : List Nat :=
  match hierarchy.parent? slot with
  | some parent => if parent < slot then parent :: hierarchy.ancestors parent else []
  | none => []
termination_by slot

/-- The slots of the attached layers below `slot`. -/
def descendants (hierarchy : Hierarchy) (slot : Nat) : List Nat :=
  hierarchy.attachedSlots.filter fun below => (hierarchy.ancestors below).contains slot

/-- A record is kept if its layer is attached or has an attached layer below it. -/
def isKept (hierarchy : Hierarchy) (slot : Nat) : Bool :=
  hierarchy.isAttached slot || !(hierarchy.descendants slot).isEmpty

/-- The slots of the records that are kept. -/
def keptSlots (hierarchy : Hierarchy) : List Nat :=
  (List.range hierarchy.size).filter hierarchy.isKept

/-- The hierarchy of the records that are kept, whose slots close up. -/
def compact (hierarchy : Hierarchy) : Hierarchy :=
  let kept := hierarchy.keptSlots
  let records := kept.filterMap fun slot => hierarchy.records[slot]?
  ⟨(records.map fun record =>
    { record with parent := record.parent.bind fun slot => kept.idxOf? slot }).toArray⟩

/-- A new layer takes one more slot. -/
@[simp] theorem size_attach (hierarchy : Hierarchy) (parent : Option Nat) (layer : Layer) :
    (hierarchy.attach parent layer).size = hierarchy.size + 1 := by
  simp [attach, size]

/-- Changing a record keeps the number of records. -/
@[simp] theorem size_modify (hierarchy : Hierarchy) (slot : Nat) (change : Record → Record) :
    (hierarchy.modify slot change).size = hierarchy.size := by
  simp [modify, size]

/-- A change that keeps the parents keeps everyone's parent. -/
theorem parent?_modify (hierarchy : Hierarchy) (slot other : Nat) {change : Record → Record}
    (hchange : ∀ record, (change record).parent = record.parent) :
    (hierarchy.modify slot change).parent? other = hierarchy.parent? other := by
  simp only [parent?, modify, Array.getElem?_modify]
  split
  · cases hierarchy.records[other]? <;> simp [hchange]
  · rfl

/-- A change that keeps what is attached keeps it everywhere. -/
theorem isAttached_modify (hierarchy : Hierarchy) (slot other : Nat) {change : Record → Record}
    (hchange : ∀ record, (change record).attached = record.attached) :
    (hierarchy.modify slot change).isAttached other = hierarchy.isAttached other := by
  simp only [isAttached, modify, Array.getElem?_modify]
  split
  · cases hierarchy.records[other]? <;> simp [hchange]
  · rfl

/-- Ancestors have smaller slots. -/
theorem lt_of_mem_ancestors {hierarchy : Hierarchy} {slot above : Nat}
    (habove : above ∈ hierarchy.ancestors slot) : above < slot := by
  fun_induction ancestors hierarchy slot with
  | case1 slot parent hparent hlt ih =>
    rcases List.mem_cons.1 habove with rfl | hmem
    · exact hlt
    · exact Nat.lt_trans (ih hmem) hlt
  | case2 => simp at habove
  | case3 => simp at habove

end Hierarchy

end LayeredMachines
