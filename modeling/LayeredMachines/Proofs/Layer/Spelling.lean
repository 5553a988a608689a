import LayeredMachines.Proofs.Layer.Likeness

/-!
# The same walk for two spellings of an event

The text of an event passes through a walk: it may become the result of an entry, and results select
the moves. Since every comparison on the way ignores case, a layer that follows an event in another
spelling makes the same calls and the same moves. What differs is how the event is spelled in the
lines that are written and in the moves that are recorded.
-/

namespace LayeredMachines

variable {first second : String}

/-- The same line, except that it may show the event in its second spelling instead of its first. -/
inductive Diagnostic.Respells (first second : String) : Diagnostic → Diagnostic → Prop
  | same (line : Diagnostic) : Respells first second line line
  | handling : Respells first second (.handling first) (.handling second)
  | following (layer : LayerId) (machine : String) :
      Respells first second (.following layer machine first) (.following layer machine second)
  | moving (layer : LayerId) (state target : String) :
      Respells first second (.moving layer state first target) (.moving layer state second target)
  | notFound (layer : LayerId) (state target : String) :
      Respells first second (.notFound layer state first target)
        (.notFound layer state second target)
  | stopped (layer : LayerId) (state target : String) (limit : Nat) :
      Respells first second (.stopped layer state first target limit)
        (.stopped layer state second target limit)

/-- The same move, except that its event may be in its second spelling instead of its first. -/
structure Move.Respells (first second : String) (move other : Move) : Prop where
  source_eq : other.source = move.source
  target_eq : other.target = move.target
  event : Spelled first second move.event other.event
  time_eq : other.time = move.time

/-- The same moves, except for the spelling of the event. -/
structure History.Respells (first second : String) (history other : History) : Prop where
  limit_eq : other.limit = history.limit
  moves : List.Forall₂ (Move.Respells first second) history.moves other.moves

/-- The same layer, except for the spelling of the event in its history. -/
def Layer.Respells (first second : String) (layer other : Layer) : Prop :=
  ∃ history, other = { layer with history := history } ∧
    layer.history.Respells first second history

theorem Move.Respells.refl (move : Move) : move.Respells first second move :=
  ⟨rfl, rfl, .refl _, rfl⟩

theorem Layer.Respells.refl (layer : Layer) : layer.Respells first second layer :=
  ⟨layer.history, rfl, rfl, List.forall₂_same.mpr fun move _ => .refl move⟩

namespace Layer.Respells

variable {layer other : Layer}

theorem id_eq (hlayer : layer.Respells first second other) : other.id = layer.id := by
  obtain ⟨history, rfl, _⟩ := hlayer
  rfl

end Layer.Respells

/-! ### Lines about a move -/

namespace Diagnostic.Respells

variable {event other : String}

theorem of_moving (hevent : Spelled first second event other) (layer : LayerId)
    (state target : String) :
    Respells first second (.moving layer state event target) (.moving layer state other target) := by
  rcases hevent with rfl | ⟨rfl, rfl⟩
  · exact .same _
  · exact .moving layer state target

theorem of_notFound (hevent : Spelled first second event other) (layer : LayerId)
    (state target : String) :
    Respells first second (.notFound layer state event target)
      (.notFound layer state other target) := by
  rcases hevent with rfl | ⟨rfl, rfl⟩
  · exact .same _
  · exact .notFound layer state target

theorem of_stopped (hevent : Spelled first second event other) (layer : LayerId)
    (state target : String) (limit : Nat) :
    Respells first second (.stopped layer state event target limit)
      (.stopped layer state other target limit) := by
  rcases hevent with rfl | ⟨rfl, rfl⟩
  · exact .same _
  · exact .stopped layer state target limit

theorem of_following (hevent : Spelled first second event other) (layer : LayerId)
    (machine : String) :
    Respells first second (.following layer machine event) (.following layer machine other) := by
  rcases hevent with rfl | ⟨rfl, rfl⟩
  · exact .same _
  · exact .following layer machine

end Diagnostic.Respells

/-! ### Walks -/

/-- The sense in which two runs correspond that are given an event in two spellings. -/
def Likeness.ofSpellings (first second : String) : Likeness where
  id := Eq
  text := Spelled first second
  instant := Eq
  line := Diagnostic.Respells first second

/-- Spellings of an event that are equal up to case cannot be told apart by a walk. -/
theorem Likeness.isRespected_ofSpellings (hsame : caselessEq first second = true) :
    (ofSpellings first second).IsRespected where
  refl text := .refl text
  caselessEq htext := htext.caselessEq hsame
  compared := by
    rintro id _ rfl value outcome
    exact .same _
  moving := by
    rintro id _ rfl event other hevent state target
    exact .of_moving hevent id state target
  notFound := by
    rintro id _ rfl event other hevent state target
    exact .of_notFound hevent id state target
  stopped := by
    rintro id _ rfl event other hevent state target limit
    exact .of_stopped hevent id state target limit

/-- The moves that correspond in this sense are the same except for the spelling. -/
theorem Move.alike_ofSpellings : Alike (.ofSpellings first second) = Respells first second := by
  ext move other
  exact ⟨fun h => ⟨h.source_eq, h.target_eq, h.event, h.time.symm⟩,
    fun h => ⟨h.source_eq, h.target_eq, h.event, h.time_eq.symm⟩⟩

/-- The layers that correspond in this sense are the same except for the spelling. -/
theorem Layer.alike_ofSpellings : Alike (.ofSpellings first second) = Respells first second := by
  ext layer other
  constructor
  · intro h
    obtain ⟨id, machine, current, frames, history⟩ := other
    obtain ⟨rfl, rfl, rfl, rfl, hhistory⟩ := h
    exact ⟨history, rfl, hhistory.limit_eq, Move.alike_ofSpellings ▸ hhistory.moves⟩
  · rintro ⟨history, rfl, hhistory⟩
    exact ⟨rfl, rfl, rfl, rfl, hhistory.limit_eq, Move.alike_ofSpellings ▸ hhistory.moves⟩

end LayeredMachines
