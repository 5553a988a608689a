import LayeredMachines.Proofs.Text.Caseless
import Mathlib.Data.Finset.Card
import Mathlib.Data.Finset.Dedup

/-!
# Repeated names

Names that are equal up to case form a class. A list of names is checked for repetitions by comparing
each name with the ones before it. All names but one of each class are found to be repetitions in
this way.
-/

namespace LayeredMachines

/-- The relation of texts that are equal up to case. -/
def caseless : Setoid String where
  r a b := caselessEq a b = true
  iseqv :=
    { refl := caselessEq_refl
      symm := fun {a b} hsame => (caselessEq_comm b a).trans hsame
      trans := fun {_ _ c} hsame hother => (caselessEq_congr_left hsame c).trans hother }

/-- The class of a name: all the texts that are equal to it up to case. -/
def nameClass (name : String) : Quotient caseless :=
  Quotient.mk caseless name

instance : DecidableEq (Quotient caseless) :=
  @Quotient.decidableEq _ caseless fun a b =>
    inferInstanceAs (Decidable (caselessEq a b = true))

theorem nameClass_eq {a b : String} : nameClass a = nameClass b ↔ caselessEq a b = true :=
  Quotient.eq

/-- The number of classes that some names fall into. -/
def classCount (names : List String) : Nat :=
  (names.map nameClass).toFinset.card

/-- The names that are not empty. -/
def givenNames (names : List String) : List String :=
  names.filter (!·.isEmpty)

/-- The name at a position is not empty and is equal up to case to one before it. -/
def isRepeat (names : List String) (entry : String × Nat) : Bool :=
  !entry.1.isEmpty && (names.take entry.2).any (caselessEq · entry.1)

/-- One more name forms a class of its own unless it is equal up to case to another one. -/
theorem classCount_concat (names : List String) (name : String) :
    classCount (names ++ [name]) =
      classCount names + if names.any (caselessEq · name) then 0 else 1 := by
  have hmember : nameClass name ∈ (names.map nameClass).toFinset ↔
      names.any (caselessEq · name) = true := by
    simp only [List.mem_toFinset, List.mem_map, nameClass_eq, List.any_eq_true]
  have hinsert : ((names ++ [name]).map nameClass).toFinset =
      insert (nameClass name) (names.map nameClass).toFinset := by
    rw [List.map_append, List.toFinset_append, Finset.union_comm]
    rfl
  rw [classCount, hinsert]
  by_cases hknown : names.any (caselessEq · name) = true
  · rw [if_pos hknown, Finset.insert_eq_of_mem (hmember.mpr hknown)]
    rfl
  · rw [if_neg hknown, Finset.card_insert_of_notMem (hmember.not.mpr hknown)]
    rfl

/-- Only a name that is not empty can be equal up to case to one that is not. -/
theorem any_givenNames (names : List String) {name : String} (hname : name.isEmpty = false) :
    (givenNames names).any (caselessEq · name) = names.any (caselessEq · name) := by
  rw [givenNames, List.any_filter]
  refine List.any_congr rfl fun other => ?_
  cases hsame : caselessEq other name with
  | false => rw [Bool.and_false]
  | true => rw [isEmpty_eq_of_caselessEq hsame, hname, Bool.not_false, Bool.and_true]

/-- A name that follows does not make one before it a repetition. -/
theorem isRepeat_concat_of_mem {names : List String} (name : String) {entry : String × Nat}
    (hentry : entry ∈ names.zipIdx) : isRepeat (names ++ [name]) entry = isRepeat names entry := by
  have hlt := List.snd_lt_of_mem_zipIdx hentry
  rw [isRepeat, isRepeat, List.take_append_of_le_length (by omega)]

/-- The last name is a repetition if it is equal up to case to another one. -/
theorem isRepeat_concat_last (names : List String) (name : String) :
    isRepeat (names ++ [name]) (name, names.length) =
      (!name.isEmpty && names.any (caselessEq · name)) := by
  rw [isRepeat, List.take_left]

/-- Of the names that are not empty, all but one of each class are repetitions. -/
theorem countP_isRepeat (names : List String) :
    names.zipIdx.countP (isRepeat names) + classCount (givenNames names) =
      (givenNames names).length := by
  induction names using List.reverseRecOn with
  | nil => rfl
  | append_singleton names name ih =>
    have hearlier : names.zipIdx.countP (isRepeat (names ++ [name])) =
        names.zipIdx.countP (isRepeat names) :=
      List.countP_congr fun entry hentry => by rw [isRepeat_concat_of_mem name hentry]
    have hgiven : givenNames (names ++ [name]) =
        givenNames names ++ if name.isEmpty then [] else [name] := by
      cases hname : name.isEmpty <;> simp [givenNames, hname]
    rw [List.zipIdx_append, List.countP_append, hearlier, List.zipIdx_singleton, Nat.zero_add,
      List.countP_singleton, isRepeat_concat_last, hgiven]
    cases hname : name.isEmpty with
    | true =>
      rw [if_pos rfl, List.append_nil]
      simpa using ih
    | false =>
      rw [if_neg Bool.false_ne_true, classCount_concat, any_givenNames names hname,
        List.length_append, List.length_singleton, Bool.not_false, Bool.true_and]
      split <;> omega

/-- The names without the repetitions: of each class the first one, in its place. -/
def firstSpellings (names : List String) : List String :=
  (names.zipIdx.filter fun entry => !isRepeat names entry).map Prod.fst

/-- One more name is kept unless it is a repetition. -/
theorem firstSpellings_concat (names : List String) (name : String) :
    firstSpellings (names ++ [name]) = firstSpellings names ++
      if !name.isEmpty && names.any (caselessEq · name) then [] else [name] := by
  have hearlier : (names.zipIdx.filter fun entry => !isRepeat (names ++ [name]) entry) =
      names.zipIdx.filter fun entry => !isRepeat names entry :=
    List.filter_congr fun entry hentry => by rw [isRepeat_concat_of_mem name hentry]
  rw [firstSpellings, List.zipIdx_append, List.filter_append, hearlier, List.zipIdx_singleton,
    Nat.zero_add, List.filter_singleton, isRepeat_concat_last, List.map_append, firstSpellings]
  cases !name.isEmpty && names.any (caselessEq · name) <;> rfl

/-- The names that are kept are of the same classes. -/
theorem any_firstSpellings (names : List String) (name : String) :
    (firstSpellings names).any (caselessEq · name) = names.any (caselessEq · name) := by
  induction names using List.reverseRecOn with
  | nil => rfl
  | append_singleton names last ih =>
    rw [firstSpellings_concat, List.any_append, List.any_append, ih]
    cases hrepeat : !last.isEmpty && names.any (caselessEq · last) with
    | false => rfl
    | true =>
      rw [if_pos rfl, List.any_nil, Bool.or_false, List.any_cons, List.any_nil, Bool.or_false]
      cases hsame : caselessEq last name with
      | false => rw [Bool.or_false]
      | true =>
        have hknown : names.any (caselessEq · last) = true := (Bool.and_eq_true_iff.mp hrepeat).2
        simp only [caselessEq_congr_right hsame] at hknown
        rw [hknown, Bool.true_or]

/-- Names are all different up to case exactly if no name is equal up to case to two of them. -/
theorem pairwise_iff_countP_le_one (names : List String) :
    names.Pairwise (fun first next => caselessEq first next = false) ↔
      ∀ name, names.countP (caselessEq · name) ≤ 1 := by
  have hdistinct : names.Pairwise (fun first next => caselessEq first next = false) ↔
      (names.map nameClass).Nodup := by
    rw [List.Nodup, List.pairwise_map]
    simp only [ne_eq, nameClass_eq, Bool.not_eq_true]
  have hcount (name : String) :
      (names.map nameClass).count (nameClass name) = names.countP (caselessEq · name) := by
    rw [List.count, List.countP_map]
    refine List.countP_congr fun other _ => ?_
    rw [Function.comp_apply, beq_iff_eq, nameClass_eq]
  rw [hdistinct, List.nodup_iff_count_le_one]
  exact ⟨fun hclasses name => hcount name ▸ hclasses (nameClass name),
    fun hnames => Quotient.ind fun name => (hcount name).trans_le (hnames name)⟩

end LayeredMachines
