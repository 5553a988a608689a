import LayeredMachines.Text.Blank
import LayeredMachines.Text.Pieces
import Mathlib.Data.List.DropRight

/-!
# Pieces and trimmed texts

A text is cut at its first separator, and into pieces at all of them, so that no piece has one. Texts
without separators are the pieces of the text that they are joined to. A text is trimmed if no blank
character stands at either end of it.
-/

namespace LayeredMachines

variable {separator : Char} {text : List Char}

/-! ### Cutting -/

/-- A text is cut at its first separator. -/
theorem cut?_eq_some_iff {before after : List Char} :
    cut? separator text = some (before, after) ↔
      text = before ++ separator :: after ∧ separator ∉ before := by
  induction text generalizing before with
  | nil => simp [cut?]
  | cons c rest ih =>
    by_cases hc : c = separator
    · subst hc
      rw [cut?, if_pos rfl]
      cases before with
      | nil => simp
      | cons d before =>
        refine iff_of_false (by simp) ?_
        rintro ⟨heq, hbefore⟩
        obtain ⟨rfl, -⟩ := List.cons.inj heq
        exact hbefore List.mem_cons_self
    · rw [cut?, if_neg hc, Option.map_eq_some_iff]
      constructor
      · rintro ⟨⟨front, tail⟩, hrest, heq⟩
        obtain ⟨rfl, rfl⟩ := Prod.mk.inj heq
        obtain ⟨rfl, hfront⟩ := ih.mp hrest
        exact ⟨rfl, List.not_mem_cons_of_ne_of_not_mem (Ne.symm hc) hfront⟩
      · rintro ⟨heq, hbefore⟩
        cases before with
        | nil => exact absurd (List.cons.inj heq).1 hc
        | cons d front =>
          obtain ⟨rfl, hrest⟩ := List.cons.inj heq
          have hfront := List.not_mem_of_not_mem_cons hbefore
          exact ⟨(front, after), ih.mpr ⟨hrest, hfront⟩, rfl⟩

/-- A text without a separator is not cut. -/
theorem cut?_eq_none_iff : cut? separator text = none ↔ separator ∉ text := by
  induction text with
  | nil => simp [cut?]
  | cons c rest ih =>
    rw [cut?, List.mem_cons, not_or]
    split
    · next hc => simp [hc]
    · next hc => simp [ih, Ne.symm hc]

/-- The pieces of a text are those of the core library. -/
theorem pieces_eq_splitOn (separator : Char) (text : List Char) :
    pieces separator text = text.splitOn separator := by
  induction text with
  | nil => rfl
  | cons c rest ih =>
    rw [pieces, ih, List.splitOn_cons_eq_if_modifyHead]
    simp only [beq_iff_eq]
    split
    · rfl
    · cases hrest : rest.splitOn separator with
      | nil => exact absurd hrest (List.splitOn_ne_nil _ _)
      | cons piece others => rfl

/-- Texts are joined as in the core library. -/
theorem joinWith_eq_intercalate (separator : Char) (texts : List (List Char)) :
    joinWith separator texts = [separator].intercalate texts := by
  fun_induction joinWith separator texts with
  | case1 => rfl
  | case2 piece => simp
  | case3 piece others hne ih =>
    rw [ih, List.intercalate_cons_of_ne_nil hne, List.append_assoc, List.singleton_append]

/-- Texts without separators are the pieces of the text that they are joined to. -/
theorem pieces_joinWith {texts : List (List Char)} (hne : texts ≠ [])
    (htexts : ∀ text ∈ texts, separator ∉ text) :
    pieces separator (joinWith separator texts) = texts := by
  rw [pieces_eq_splitOn, joinWith_eq_intercalate]
  exact List.splitOn_intercalate separator htexts hne

/-- No piece of a text has a separator. -/
theorem not_mem_of_mem_pieces {piece : List Char} (hpiece : piece ∈ pieces separator text) :
    separator ∉ piece := by
  fun_induction pieces separator text generalizing piece with
  | case1 => simp_all
  | case2 rest ih =>
    rcases List.mem_cons.mp hpiece with rfl | hrest
    · exact List.not_mem_nil
    · exact ih hrest
  | case3 c rest hc hrest => exact absurd hrest (pieces_ne_nil separator rest)
  | case4 c rest hc first others hrest ih =>
    rcases List.mem_cons.mp hpiece with rfl | hothers
    · have hfirst := ih (hrest ▸ List.mem_cons_self)
      exact List.not_mem_cons_of_ne_of_not_mem (Ne.symm hc) hfirst
    · exact ih (hrest ▸ List.mem_cons_of_mem first hothers)

/-! ### Trimming -/

/-- No blank character stands at either end of the text. -/
structure IsTrimmed (text : List Char) : Prop where
  head : ∀ c ∈ text.head?, isBlank c = false
  last : ∀ c ∈ text.getLast?, isBlank c = false

/-- To see whether a text is trimmed it is enough to look at its first and its last character. -/
theorem isTrimmed_iff {text : List Char} : IsTrimmed text ↔
    text.head?.all (!isBlank ·) = true ∧ text.getLast?.all (!isBlank ·) = true := by
  simp only [Option.all_eq_true, Bool.not_eq_true']
  exact ⟨fun htext => ⟨htext.head, htext.last⟩, fun ⟨hhead, hlast⟩ => ⟨hhead, hlast⟩⟩

instance (text : List Char) : Decidable (IsTrimmed text) :=
  decidable_of_iff' _ isTrimmed_iff

/-- A text is trimmed by dropping the blank characters at its start and then those at its end. -/
theorem trim_eq (text : List Char) : trim text = (text.dropWhile isBlank).rdropWhile isBlank := rfl

/-- Trimming makes a text trimmed. -/
theorem isTrimmed_trim (text : List Char) : IsTrimmed (trim text) where
  head c hc := by
    rw [trim_eq, Option.mem_def] at hc
    obtain ⟨tail, htail⟩ := List.rdropWhile_prefix isBlank (text.dropWhile isBlank)
    have hhead : (text.dropWhile isBlank).head? = some c := by
      rw [← htail, List.head?_append, hc, Option.some_or]
    have hstart := List.head?_dropWhile_not isBlank text
    rwa [hhead] at hstart
  last c hc := by
    rw [trim_eq] at hc
    obtain ⟨hne, rfl⟩ := List.mem_getLast?_eq_getLast hc
    exact Bool.eq_false_iff.mpr (List.rdropWhile_last_not isBlank _ hne)

/-- A trimmed text stays as it is. -/
theorem IsTrimmed.trim_eq_self (htext : IsTrimmed text) : trim text = text := by
  have hstart : text.dropWhile isBlank = text := by
    cases text with
    | nil => rfl
    | cons c rest => exact List.dropWhile_cons_of_neg (by simp [htext.head c rfl])
  rw [trim_eq, hstart, List.rdropWhile_eq_self_iff]
  intro hne
  simp [htext.last _ (List.getLast?_eq_some_getLast hne)]

/-- Trimming adds no characters. -/
theorem mem_of_mem_trim {c : Char} (hc : c ∈ trim text) : c ∈ text := by
  rw [trim_eq] at hc
  exact (List.dropWhile_suffix isBlank).subset ((List.rdropWhile_prefix isBlank _).subset hc)

end LayeredMachines
