import LayeredMachines.Proofs.Document.RoundTrip
import LayeredMachines.Proofs.History.Retention
import Mathlib.Data.List.Induction

/-!
# Histories beyond their limit

A new history is within its limit, and records keep it so. A document, however, may list more moves
than its own limit. The history that is read from it keeps them all, and since a history only drops
a move when it has exactly as many as its limit, it then grows with every record.
-/

namespace LayeredMachines

namespace History

/-- The history has no more moves than its limit. -/
def IsWithinLimit (history : History) : Prop :=
  history.moves.length ≤ history.limit

instance (history : History) : Decidable history.IsWithinLimit :=
  inferInstanceAs (Decidable (history.moves.length ≤ history.limit))

/-- What can be done with a history. -/
inductive Step where
  /-- A new history takes its place. -/
  | create (limit : Nat)
  /-- The history in a document takes its place, if there is one in it. -/
  | read (text : String)
  /-- One more move is recorded. -/
  | record (move : Move)

/-- The history after a step. -/
def perform (history : History) : Step → History
  | .create limit => empty limit
  | .read text => (read? text).getD history
  | .record move => history.record move

/-- The history after some steps, which was new before and had the limit for which none is chosen.
-/
def after (steps : List Step) : History :=
  steps.foldl perform (empty defaultLimit)

/-- The history is in one of the documents that were read. -/
def IsRead (steps : List Step) (history : History) : Prop :=
  ∃ text, .read text ∈ steps ∧ read? text = some history

variable {history document : History} {steps : List Step}

theorem IsRead.append (h : IsRead steps document) (step : Step) :
    IsRead (steps ++ [step]) document := by
  obtain ⟨text, hmem, hread⟩ := h
  exact ⟨text, List.mem_append_left _ hmem, hread⟩

/-- A new history is within its limit. -/
theorem isWithinLimit_empty (limit : Nat) : (empty limit).IsWithinLimit :=
  Nat.zero_le limit

/-! ### Records -/

/-- A history beyond its limit drops nothing when a move is recorded. -/
theorem moves_record_of_not_isWithinLimit (h : ¬history.IsWithinLimit) (move : Move) :
    (history.record move).moves =
      if history.limit = 0 then history.moves else history.moves ++ [move] := by
  rw [IsWithinLimit] at h
  unfold record
  split
  · rfl
  · rw [if_neg (by omega)]

/-- A record neither takes a history beyond its limit nor brings it back. -/
theorem isWithinLimit_record (history : History) (move : Move) :
    (history.record move).IsWithinLimit ↔ history.IsWithinLimit := by
  constructor
  · intro hnext
    by_contra h
    have hmoves := moves_record_of_not_isWithinLimit h move
    rw [IsWithinLimit, limit_record, hmoves] at hnext
    rw [IsWithinLimit] at h
    split at hnext
    · omega
    · rw [List.length_append] at hnext
      omega
  · intro h
    rw [IsWithinLimit, limit_record]
    exact length_record_le move h

/-- Neither do any number of records. -/
theorem isWithinLimit_foldl_record (history : History) (moves : List Move) :
    (moves.foldl record history).IsWithinLimit ↔ history.IsWithinLimit := by
  induction moves generalizing history with
  | nil => exact Iff.rfl
  | cons move rest ih => rw [List.foldl_cons, ih, isWithinLimit_record]

/-! ### Any steps -/

/-- A history has been new, or has been read, and has recorded moves since. -/
theorem exists_after_eq (steps : List Step) :
    ∃ (start : History) (moves : List Move), after steps = moves.foldl record start ∧
      (start.IsWithinLimit ∨ IsRead steps start) := by
  induction steps using List.reverseRecOn with
  | nil => exact ⟨empty defaultLimit, [], rfl, .inl (isWithinLimit_empty _)⟩
  | append_singleton steps step ih =>
    obtain ⟨start, moves, heq, hstart⟩ := ih
    have hlater := hstart.imp_right fun h => h.append step
    rw [after, List.foldl_append, ← after]
    cases step with
    | create limit => exact ⟨empty limit, [], rfl, .inl (isWithinLimit_empty _)⟩
    | read text =>
      cases hread : read? text with
      | none =>
        refine ⟨start, moves, ?_, hlater⟩
        simp [perform, hread, heq]
      | some document =>
        refine ⟨document, [], ?_, .inr ⟨text, List.mem_append_right _ (by simp), hread⟩⟩
        simp [perform, hread]
    | record move =>
      refine ⟨start, moves ++ [move], ?_, hlater⟩
      simp [perform, heq]

/-- A history has outgrown its limit exactly if it is what records have made of a document with more
moves than its own limit. Recording one more move drops the oldest one beyond the limit if the
history is within it; otherwise nothing is dropped ever again, and only a limit of zero keeps the
move out. -/
theorem outgrows_limit_iff (steps : List Step) :
    (¬(after steps).IsWithinLimit ↔
        ∃ (document : History) (moves : List Move), IsRead steps document ∧
          ¬document.IsWithinLimit ∧ after steps = moves.foldl record document) ∧
      ∀ move, ((after steps).record move).moves =
        if (after steps).IsWithinLimit then
          ((after steps).moves ++ [move]).rtake (after steps).limit
        else if (after steps).limit = 0 then (after steps).moves
        else (after steps).moves ++ [move] := by
  constructor
  · constructor
    · intro hbeyond
      obtain ⟨start, moves, heq, hstart⟩ := exists_after_eq steps
      rw [heq, isWithinLimit_foldl_record] at hbeyond
      exact ⟨start, moves, hstart.resolve_left hbeyond, hbeyond, heq⟩
    · rintro ⟨document, moves, -, hbeyond, heq⟩
      rwa [heq, isWithinLimit_foldl_record]
  · intro move
    split
    · next hwithin => exact moves_record hwithin move
    · next hbeyond => exact moves_record_of_not_isWithinLimit hbeyond move

/-- Every history is read from its own document, if the calendar has the times of its moves, however
far beyond its limit it is. -/
theorem after_read_render (hlimit : history.limit < Nat.pow 2 64)
    (htimes : ∀ move ∈ history.moves, move.time.IsRepresentable) :
    after [.read history.render] = history := by
  rw [after, List.foldl_cons, List.foldl_nil, perform, read?_render hlimit htimes]
  rfl

/-- A history of two moves with a limit of one is read from its document, so not all histories keep
within their limits. -/
theorem not_forall_isWithinLimit : ¬∀ steps, (after steps).IsWithinLimit := by
  intro hall
  let newYear := Instant.ofMillis 1704067200000
  let history := History.mk [⟨"a", "b", "go", newYear⟩, ⟨"b", "c", "go", newYear⟩] 1
  have htimes : ∀ move ∈ history.moves, move.time.IsRepresentable := by
    have hnewYear : newYear.IsRepresentable := Instant.isRepresentable_ofMillis (by decide)
    simp [history, hnewYear]
  have hwithin := hall [.read history.render]
  rw [after_read_render (by decide) htimes] at hwithin
  exact absurd hwithin (by decide)

end History

end LayeredMachines
