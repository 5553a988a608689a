import LayeredMachines.History
import Mathlib.Data.List.DropRight
import Mathlib.Data.List.Forall2

/-!
# What a history retains

A history drops its oldest move for a new one when it is full. After any number of records it
therefore holds the last moves that were recorded, as many of them as its limit allows. If those
moves follow one another, its path is the end of the path that was visited.
-/

namespace LayeredMachines

/-- Entries that a later cut drops may as well be dropped before more entries come. -/
theorem rtake_append_rtake {α : Type} (n : Nat) (old new : List α) :
    (old.rtake n ++ new).rtake n = (old ++ new).rtake n := by
  have hle : old.length - n ≤ old.length := Nat.sub_le _ _
  have hcut : old.rtake n ++ new = (old ++ new).drop (old.length - n) :=
    (List.drop_append_of_le_length hle).symm
  rw [hcut]
  simp only [List.rtake, List.drop_drop, List.length_drop, List.length_append]
  congr 1
  omega

/-- The last entry is never cut off, unless all are. -/
theorem getLast?_rtake {α : Type} {n : Nat} (hn : 0 < n) (entries : List α) :
    (entries.rtake n).getLast? = entries.getLast? := by
  rw [List.rtake, List.getLast?_drop]
  split
  · next hlength =>
    have hnone : entries = [] := List.length_eq_zero_iff.mp (by omega)
    rw [hnone, List.getLast?_nil]
  · rfl

/-- The last entries of a list are as many as are asked for, or all. -/
theorem length_rtake {α : Type} (n : Nat) (entries : List α) :
    (entries.rtake n).length = min n entries.length := by
  rw [List.rtake, List.length_drop]
  omega

/-- No more entries can be the last ones than there are. -/
theorem rtake_min_length {α : Type} (n : Nat) (entries : List α) :
    entries.rtake (min n entries.length) = entries.rtake n := by
  rw [List.rtake, List.rtake]
  congr 1
  omega

namespace History

variable {history : History}

/-- A history within its limit goes on to hold the last moves, the new one among them. -/
theorem moves_record (hlength : history.moves.length ≤ history.limit) (move : Move) :
    (history.record move).moves = (history.moves ++ [move]).rtake history.limit := by
  unfold record
  split
  · next hzero =>
    have hnone : history.moves = [] := List.length_eq_zero_iff.mp (by omega)
    simp [hnone, hzero, List.rtake]
  · next hpositive =>
    split
    · next hfull =>
      have hone : (history.moves ++ [move]).length - history.limit = 1 := by
        rw [List.length_append, List.length_singleton]
        omega
      have hle : 1 ≤ history.moves.length := by omega
      rw [List.rtake, hone, List.drop_append_of_le_length hle]
    · next hspace =>
      have hzero : (history.moves ++ [move]).length - history.limit = 0 := by
        rw [List.length_append, List.length_singleton]
        omega
      rw [List.rtake, hzero, List.drop_zero]

/-- Records do not change the limit. -/
@[simp] theorem limit_foldl_record (history : History) (moves : List Move) :
    (moves.foldl record history).limit = history.limit := by
  induction moves generalizing history with
  | nil => rfl
  | cons move rest ih => rw [List.foldl_cons, ih, limit_record]

/-- After any number of records a history within its limit holds the last moves. -/
theorem moves_foldl_record (hlength : history.moves.length ≤ history.limit) (moves : List Move) :
    (moves.foldl record history).moves = (history.moves ++ moves).rtake history.limit := by
  induction moves generalizing history with
  | nil =>
    have hzero : history.moves.length - history.limit = 0 := by omega
    rw [List.foldl_nil, List.append_nil, List.rtake, hzero, List.drop_zero]
  | cons move rest ih =>
    have hkept : (history.record move).moves.length ≤ (history.record move).limit := by
      rw [limit_record]
      exact length_record_le move hlength
    rw [List.foldl_cons, ih hkept, limit_record, moves_record hlength, rtake_append_rtake,
      List.append_assoc, List.singleton_append]

/-- Two histories that correspond move by move still do so when they record corresponding moves. -/
theorem forall₂_record {related : Move → Move → Prop} {other : History} {move like : Move}
    (hlimit : other.limit = history.limit)
    (hmoves : List.Forall₂ related history.moves other.moves) (hmove : related move like) :
    List.Forall₂ related (history.record move).moves (other.record like).moves := by
  have hlength := hmoves.length_eq
  have hnew : List.Forall₂ related [move] [like] := .cons hmove .nil
  unfold record
  rw [hlimit, ← hlength]
  split
  · exact hmoves
  · split
    · exact List.rel_append (List.forall₂_drop 1 hmoves) hnew
    · exact List.rel_append hmoves hnew

/-! ### Paths -/

/-- Every move leaves the state that the one before it has entered. -/
def IsRoute (moves : List Move) : Prop :=
  moves.IsChain fun move next => next.source = move.target

/-- The labels of the states visited: the one that the first move leaves, and those that the moves
enter. -/
def visited (moves : List Move) : List String :=
  (moves.head?.map Move.source).toList ++ moves.map Move.target

/-- A route visits one state more than it has moves. -/
theorem length_visited {moves : List Move} (hmoves : moves ≠ []) :
    (visited moves).length = moves.length + 1 := by
  obtain ⟨first, rest, rfl⟩ := List.exists_cons_of_ne_nil hmoves
  simp [visited]

/-- Before its second state a route has visited one more. -/
theorem visited_cons {move : Move} {rest : List Move} (hroute : IsRoute (move :: rest))
    (hrest : rest ≠ []) : visited (move :: rest) = move.source :: visited rest := by
  obtain ⟨next, others, rfl⟩ := List.exists_cons_of_ne_nil hrest
  have hnext : next.source = move.target := (List.isChain_cons_cons.mp hroute).1
  simp [visited, hnext]

/-- A route without its first moves visits what the route does, without as many states. -/
theorem visited_drop {moves : List Move} {n : Nat} (hroute : IsRoute moves)
    (hn : n < moves.length) : visited (moves.drop n) = (visited moves).drop n := by
  induction n generalizing moves with
  | zero => rfl
  | succ n ih =>
    obtain ⟨move, rest, rfl⟩ := List.exists_cons_of_length_pos (Nat.zero_lt_of_lt hn)
    have hlt : n < rest.length := Nat.lt_of_succ_lt_succ hn
    have hrest : rest ≠ [] := List.ne_nil_of_length_pos (Nat.zero_lt_of_lt hlt)
    rw [List.drop_succ_cons, ih hroute.of_cons hlt, visited_cons hroute hrest,
      List.drop_succ_cons]

/-- The path of a history is what its moves visit. -/
theorem path_eq_visited (history : History) : history.path = visited history.moves := by
  unfold path visited
  cases history.moves <;> rfl

/-- The last moves of a route visit the last states of the route. -/
theorem visited_rtake {moves : List Move} {n : Nat} (hroute : IsRoute moves)
    (hn : 0 < (moves.rtake n).length) :
    visited (moves.rtake n) = (visited moves).rtake ((moves.rtake n).length + 1) := by
  rw [length_rtake] at hn ⊢
  have hmoves : moves ≠ [] := List.ne_nil_of_length_pos (by omega)
  have hlt : moves.length - n < moves.length := by omega
  rw [List.rtake, visited_drop hroute hlt, List.rtake, length_visited hmoves]
  congr 1
  omega

/-- A new history that records moves retains exactly the last of them, as many as its limit allows,
in their order. Unless its limit is zero, its last move is the last one recorded. Its path is empty
when it retains nothing. Otherwise, if every move leaves the state that the one before it has entered,
the path consists of the last states visited, one more than there are moves retained. -/
theorem retains_last_moves (limit : Nat) (moves : List Move) :
    let history := moves.foldl record (empty limit)
    let retained := min limit moves.length
    history.moves = moves.rtake retained ∧ history.moves.length = retained ∧
      history.last? = (if limit = 0 then none else moves.getLast?) ∧
      (retained = 0 → history.path = []) ∧
      (0 < retained → IsRoute moves → history.path = (visited moves).rtake (retained + 1)) := by
  intro history retained
  have hempty : (empty limit).moves.length ≤ (empty limit).limit := Nat.zero_le limit
  have hmoves : history.moves = moves.rtake limit := moves_foldl_record hempty moves
  have hlength : history.moves.length = retained := by rw [hmoves, length_rtake]
  refine ⟨by rw [hmoves, rtake_min_length], hlength, ?_, fun hnone => ?_, fun hsome hroute => ?_⟩
  · rw [last?, hmoves]
    split
    · next hzero => rw [hzero, List.rtake_zero, List.getLast?_nil]
    · next hzero => exact getLast?_rtake (Nat.pos_of_ne_zero hzero) moves
  · rw [path_eq_visited, List.eq_nil_of_length_eq_zero (hlength.trans hnone)]
    rfl
  · rw [path_eq_visited, hmoves, visited_rtake hroute (by rw [← hmoves, hlength]; exact hsome),
      ← hmoves, hlength]

/-- Of three moves in a row a history with a limit of two retains the last two, and three of the four
states. -/
theorem retains_last_moves_of_round :
    let moves := [("a", "b"), ("b", "c"), ("c", "a")].map fun (source, target) =>
      Move.mk source target "go" (Instant.ofMillis 0)
    IsRoute moves ∧ visited moves = ["a", "b", "c", "a"] ∧
      (moves.foldl record (empty 2)).path = ["b", "c", "a"] := by
  intro moves
  have hroute : IsRoute moves := by simp [IsRoute, moves]
  refine ⟨hroute, rfl, ?_⟩
  exact (retains_last_moves 2 moves).2.2.2.2 (by decide) hroute

end History

end LayeredMachines
