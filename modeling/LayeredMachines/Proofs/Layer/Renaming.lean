import LayeredMachines.Proofs.Layer.Likeness

/-!
# The same walk under another name and at another time

A layer shows its identity in lines, and the time in its history, but neither decides anything. Two
layers that differ in these only follow an event in step: they make the same calls and the same
moves, and each writes its lines under its own name.
-/

namespace LayeredMachines

/-- How two runs correspond. The identities that the one gives out from the number `left` on stand
for those that the other gives out from the number `right` on, in their order. -/
structure Renaming where
  left : Nat
  right : Nat
  /-- Which instants stand for each other. -/
  instant : Instant → Instant → Prop
  /-- Which deadlines stand for each other, in milliseconds since the beginning of 1970. -/
  deadline : Int → Int → Prop

namespace Renaming

/-- The identities stand for each other. -/
def id (ρ : Renaming) (id other : LayerId) : Prop :=
  ∃ n, id = ⟨ρ.left + n⟩ ∧ other = ⟨ρ.right + n⟩

/-- No identity that was given out before stands for another. -/
theorem le_of_id {ρ : Renaming} {id other : LayerId} (h : ρ.id id other) :
    ρ.left ≤ id.number ∧ ρ.right ≤ other.number := by
  obtain ⟨n, rfl, rfl⟩ := h
  exact ⟨Nat.le_add_right _ _, Nat.le_add_right _ _⟩

/-- The next identities stand for each other if these do. -/
theorem id_succ {ρ : Renaming} {number other : Nat} (h : ρ.id ⟨number⟩ ⟨other⟩) :
    ρ.id ⟨number + 1⟩ ⟨other + 1⟩ := by
  obtain ⟨n, hnumber, hother⟩ := h
  have hleft : number = ρ.left + n := congrArg LayerId.number hnumber
  have hright : other = ρ.right + n := congrArg LayerId.number hother
  exact ⟨n + 1, by rw [hleft, Nat.add_assoc], by rw [hright, Nat.add_assoc]⟩

/-- Every identity stands for one at most. -/
theorem biUnique_id (ρ : Renaming) : Relator.BiUnique ρ.id := by
  constructor
  · rintro _ _ _ ⟨n, rfl, rfl⟩ ⟨k, rfl, heq⟩
    have hnumber : ρ.right + n = ρ.right + k := congrArg LayerId.number heq
    rw [Nat.add_left_cancel hnumber]
  · rintro _ _ _ ⟨n, rfl, rfl⟩ ⟨k, heq, rfl⟩
    have hnumber : ρ.left + n = ρ.left + k := congrArg LayerId.number heq
    rw [Nat.add_left_cancel hnumber]

end Renaming

variable {ρ : Renaming}

/-- The same line about layers with corresponding identities. -/
inductive Diagnostic.Renames (ρ : Renaming) : Diagnostic → Diagnostic → Prop
  | handling (event : String) : Renames ρ (.handling event) (.handling event)
  | following {id other : LayerId} (hid : ρ.id id other) (machine event : String) :
      Renames ρ (.following id machine event) (.following other machine event)
  | moving {id other : LayerId} (hid : ρ.id id other) (state event target : String) :
      Renames ρ (.moving id state event target) (.moving other state event target)
  | notFound {id other : LayerId} (hid : ρ.id id other) (state event target : String) :
      Renames ρ (.notFound id state event target) (.notFound other state event target)
  | stopped {id other : LayerId} (hid : ρ.id id other) (state event target : String)
      (limit : Nat) :
      Renames ρ (.stopped id state event target limit) (.stopped other state event target limit)
  | compared {id other : LayerId} (hid : ρ.id id other) (value : String) (outcome : Outcome) :
      Renames ρ (.compared id value outcome) (.compared other value outcome)
  | traced {id other : LayerId} (hid : ρ.id id other) (text : String) :
      Renames ρ (.traced id text) (.traced other text)

/-- The same move at corresponding times. -/
structure Move.Renames (ρ : Renaming) (move other : Move) : Prop where
  source_eq : other.source = move.source
  target_eq : other.target = move.target
  event_eq : other.event = move.event
  time : ρ.instant move.time other.time

/-- The same moves at corresponding times. -/
structure History.Renames (ρ : Renaming) (history other : History) : Prop where
  limit_eq : other.limit = history.limit
  moves : List.Forall₂ (Move.Renames ρ) history.moves other.moves

/-- The same layer with a corresponding identity, and with moves at corresponding times. -/
structure Layer.Renames (ρ : Renaming) (layer other : Layer) : Prop where
  id : ρ.id layer.id other.id
  machine_eq : other.machine = layer.machine
  current_eq : other.current = layer.current
  frames_eq : other.frames = layer.frames
  history : layer.history.Renames ρ other.history

/-! ### Walks -/

/-- A renaming as a sense in which two runs correspond. -/
def Likeness.ofRenaming (ρ : Renaming) : Likeness where
  id := ρ.id
  text := Eq
  instant := ρ.instant
  line := Diagnostic.Renames ρ

/-- Identities and times that stand for each other cannot be told apart by a walk. -/
theorem Likeness.isRespected_ofRenaming (ρ : Renaming) : (ofRenaming ρ).IsRespected where
  refl _ := rfl
  caselessEq := by
    rintro text _ rfl
    exact caselessEq_refl text
  compared hid value outcome := .compared hid value outcome
  moving := by
    rintro id name hid event _ rfl state target
    exact .moving hid state event target
  notFound := by
    rintro id name hid event _ rfl state target
    exact .notFound hid state event target
  stopped := by
    rintro id name hid event _ rfl state target limit
    exact .stopped hid state event target limit

/-- The moves that correspond in this sense are the same at corresponding times. -/
theorem Move.alike_ofRenaming : Alike (.ofRenaming ρ) = Renames ρ := by
  ext move other
  exact ⟨fun h => ⟨h.source_eq, h.target_eq, h.event.symm, h.time⟩,
    fun h => ⟨h.source_eq, h.target_eq, h.event_eq.symm, h.time⟩⟩

/-- The layers that correspond in this sense are the same under corresponding identities, with moves
at corresponding times. -/
theorem Layer.alike_ofRenaming : Alike (.ofRenaming ρ) = Renames ρ := by
  ext layer other
  constructor
  · rintro ⟨hid, hmachine, hcurrent, hframes, hhistory⟩
    exact ⟨hid, hmachine, hcurrent, hframes, hhistory.limit_eq,
      Move.alike_ofRenaming ▸ hhistory.moves⟩
  · rintro ⟨hid, hmachine, hcurrent, hframes, hhistory⟩
    exact ⟨hid, hmachine, hcurrent, hframes, hhistory.limit_eq,
      Move.alike_ofRenaming ▸ hhistory.moves⟩

namespace Layer.Renames

variable {layer other : Layer}

theorem state?_eq (h : layer.Renames ρ other) : other.state? = layer.state? := by
  rw [state?, state?, h.machine_eq, h.current_eq]

/-- New layers of a machine differ in their names only. -/
theorem create {id name : LayerId} (hid : ρ.id id name) (machine : Machine) (historyLimit : Nat) :
    (Layer.create id machine historyLimit).Renames ρ (Layer.create name machine historyLimit) :=
  ⟨hid, rfl, rfl, rfl, rfl, .nil⟩

/-- Two layers that are the same follow an event in step. -/
theorem follow (h : layer.Renames ρ other) (event : String) {now later : Instant}
    (htime : ρ.instant now later) (limit : Nat) :
    Program.InStep (Diagnostic.Renames ρ) (Layer.Renames ρ)
      (layer.follow event now limit) (other.follow event later limit) := by
  rw [← Layer.alike_ofRenaming] at h ⊢
  exact h.follow (Likeness.isRespected_ofRenaming ρ) rfl htime limit

end Layer.Renames

/-! ### The same names -/

/-- The relation between two runs of the same layers at any times. -/
def Renaming.timeless : Renaming where
  left := 0
  right := 0
  instant _ _ := True
  deadline _ _ := True

theorem Renaming.timeless_id (id : LayerId) : Renaming.timeless.id id id :=
  ⟨id.number, by rw [timeless, Nat.zero_add], by rw [timeless, Nat.zero_add]⟩

theorem Layer.Renames.timeless (layer : Layer) : layer.Renames Renaming.timeless layer where
  id := Renaming.timeless_id layer.id
  machine_eq := rfl
  current_eq := rfl
  frames_eq := rfl
  history := ⟨rfl, List.forall₂_same.mpr fun _ _ => ⟨rfl, rfl, rfl, trivial⟩⟩

theorem Layer.Renames.id_eq_of_timeless {layer other : Layer}
    (h : layer.Renames Renaming.timeless other) : other.id = layer.id := by
  obtain ⟨n, hid, hother⟩ := h.id
  rw [hid, hother, Renaming.timeless]

/-- Lines do not show the time. -/
theorem Diagnostic.Renames.eq_of_timeless {line other : Diagnostic}
    (h : line.Renames Renaming.timeless other) : line = other := by
  cases h with
  | handling event => rfl
  | following hid => obtain ⟨n, rfl, rfl⟩ := hid; rfl
  | moving hid => obtain ⟨n, rfl, rfl⟩ := hid; rfl
  | notFound hid => obtain ⟨n, rfl, rfl⟩ := hid; rfl
  | stopped hid => obtain ⟨n, rfl, rfl⟩ := hid; rfl
  | compared hid => obtain ⟨n, rfl, rfl⟩ := hid; rfl
  | traced hid => obtain ⟨n, rfl, rfl⟩ := hid; rfl

end LayeredMachines
