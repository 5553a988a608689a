import LayeredMachines.Layer.Execution
import LayeredMachines.Proofs.Frames.Binding
import LayeredMachines.Proofs.Text.Decimal
import Mathlib.Algebra.BigOperators.Group.List.Basic
import Mathlib.Algebra.Order.Ring.Int

/-!
# Adjustments of numbers

The number that a label is bound to can be increased and decreased by amounts that are given as
texts. As long as all numbers can be read and fit, the result is exact. Otherwise the number is set
to zero. So the visible number is always the exact total of what was added and taken away since it
was last set to zero in this way.
-/

namespace LayeredMachines

open Decimal (IsSigned64)

/-- An increase or a decrease by an amount. -/
inductive Adjustment where
  | inc (amount : String)
  | dec (amount : String)
  deriving DecidableEq

namespace Adjustment

/-- The verb that makes the adjustment to the number of a label. -/
def verb (label : String) : Adjustment → Verb
  | .inc amount => .inc label amount
  | .dec amount => .dec label amount

/-- The amount as it is given. -/
def amount : Adjustment → String
  | .inc amount | .dec amount => amount

/-- What an amount makes of a number. -/
def change : Adjustment → Int → Int → Int
  | .inc _ => (· + ·)
  | .dec _ => (· - ·)

/-- What the adjustment adds to a number, with a sign. -/
def signed : Adjustment → Int → Int
  | .inc _, n => n
  | .dec _, n => -n

/-- The outcome of the adjustment and the variables then. -/
def perform (stack : FrameStack) (label : String) (adjustment : Adjustment) :
    Outcome × FrameStack :=
  stack.adjust adjustment.change label adjustment.amount

/-- The variables after some adjustments to the number of a label. -/
def performAll (stack : FrameStack) (label : String) (adjustments : List Adjustment) : FrameStack :=
  adjustments.foldl (fun stack adjustment => (adjustment.perform stack label).2) stack

/-- The outcomes of some adjustments to the number of a label. -/
def outcomes (stack : FrameStack) (label : String) : List Adjustment → List Outcome
  | [] => []
  | adjustment :: rest =>
    let (outcome, stack) := adjustment.perform stack label
    outcome :: outcomes stack label rest

/-- The adjustment leads to the number: the visible value of the label, which is zero if there is
none, and the amount denote signed 64-bit integers, and so does the exact result. -/
structure Reaches (stack : FrameStack) (label : String) (adjustment : Adjustment) (number : Int) :
    Prop where
  exact : ∃ current amount, IsSigned64 (stack.lookupOr label "0") current ∧
    IsSigned64 adjustment.amount amount ∧ adjustment.change current amount = number
  least_le : Signed64.least ≤ number
  le_greatest : number ≤ Signed64.greatest

/-- The label has a value, under all its spellings, and all other labels have what they had. -/
def Sets (stack : FrameStack) (label value : String) (changed : FrameStack) : Prop :=
  ∀ other, changed.lookup other =
    if caselessEq label other then some value else stack.lookup other

/-- The adjustment has added a number to what was there. -/
def Adds (adjustment : Adjustment) (added : Int) : Prop :=
  ∃ amount, IsSigned64 adjustment.amount amount ∧ added = adjustment.signed amount

/-- The adjustments that count after some have been made, and what they start from. If one has
failed those after the last one that did count, from zero. If none has, all count, from the number
that was visible before, which is zero if there was none. -/
inductive Counts (stack : FrameStack) (label : String) :
    List Adjustment → Int → List Adjustment → Prop where
  | all {adjustments : List Adjustment} {start : Int}
    (hstart : IsSigned64 (stack.lookupOr label "0") start)
    (hnone : .failure ∉ outcomes stack label adjustments) :
    Counts stack label adjustments start adjustments
  | since {earlier counted : List Adjustment} {failed : Adjustment}
    (hfailed : (failed.perform (performAll stack label earlier) label).1 = .failure)
    (hnone : .failure ∉ outcomes (performAll stack label (earlier ++ [failed])) label counted) :
    Counts stack label (earlier ++ failed :: counted) 0 counted

variable {stack : FrameStack} {label : String} {adjustment : Adjustment} {number start : Int}
  {adjustments counted : List Adjustment}

/-! ### One adjustment -/

/-- A verb that makes an adjustment makes no calls, and its result is the outcome. -/
theorem execute_verb (adjustment : Adjustment) (phase : Phase) (context : WalkContext)
    (layer : LayerId) (stack : FrameStack) (label : String) :
    (adjustment.verb label).execute phase context layer stack =
      pure ((adjustment.perform stack label).1.text, (adjustment.perform stack label).2) := by
  cases adjustment <;> rfl

/-- What an adjustment makes of a number is the number with a signed amount added. -/
theorem change_eq (adjustment : Adjustment) (current amount : Int) :
    adjustment.change current amount = current + adjustment.signed amount := by
  cases adjustment with
  | inc => rfl
  | dec => exact Int.sub_eq_add_neg

/-- The number is read, changed and checked exactly if the adjustment leads to it. -/
theorem reaches_iff :
    (do
      let current ← Decimal.signed64? (stack.lookupOr label "0")
      let amount ← Decimal.signed64? adjustment.amount
      Signed64.checked (adjustment.change current amount)) = some number ↔
      adjustment.Reaches stack label number := by
  simp only [Option.bind_eq_bind, Option.bind_eq_some_iff, Decimal.signed64?_eq_some_iff,
    Decimal.checked_eq_some_iff]
  constructor
  · rintro ⟨current, hcurrent, amount, hamount, hnumber, hleast, hgreatest⟩
    exact ⟨⟨current, amount, hcurrent, hamount, hnumber⟩, hleast, hgreatest⟩
  · rintro ⟨⟨current, amount, hcurrent, hamount, hnumber⟩, hleast, hgreatest⟩
    exact ⟨current, hcurrent, amount, hamount, hnumber, hleast, hgreatest⟩

/-- An adjustment that leads to a number succeeds, and the number is bound. -/
theorem Reaches.perform_eq (h : adjustment.Reaches stack label number) :
    adjustment.perform stack label = (.success, stack.apply label (Decimal.ofInt number)) := by
  rw [perform, FrameStack.adjust, reaches_iff.mpr h]

/-- An adjustment that leads to no number fails, and zero is bound. -/
theorem perform_of_not_reaches (h : ∀ number, ¬adjustment.Reaches stack label number) :
    adjustment.perform stack label = (.failure, stack.apply label "0") := by
  have hnone := Option.eq_none_iff_forall_ne_some.mpr fun number hsome =>
    h number (reaches_iff.mp hsome)
  rw [perform, FrameStack.adjust, hnone]

/-- Binding a label that is not empty sets it. -/
theorem sets_apply (stack : FrameStack) (hlabel : label ≠ "") (value : String) :
    Sets stack label value (stack.apply label value) := by
  intro other
  have hempty : label.isEmpty = false := by simpa using hlabel
  rw [FrameStack.lookup_apply, hempty, Bool.not_false, Bool.true_and]

/-- The label that is set has the value. -/
theorem Sets.lookup_eq {value : String} {changed : FrameStack}
    (h : Sets stack label value changed) : changed.lookup label = some value := by
  rw [h, caselessEq_refl, if_pos rfl]

/-! ### Many adjustments -/

theorem performAll_concat (stack : FrameStack) (label : String) (adjustments : List Adjustment)
    (adjustment : Adjustment) :
    performAll stack label (adjustments ++ [adjustment]) =
      (adjustment.perform (performAll stack label adjustments) label).2 := by
  simp [performAll]

theorem outcomes_concat (stack : FrameStack) (label : String) (adjustments : List Adjustment)
    (adjustment : Adjustment) :
    outcomes stack label (adjustments ++ [adjustment]) =
      outcomes stack label adjustments ++
        [(adjustment.perform (performAll stack label adjustments) label).1] := by
  induction adjustments generalizing stack with
  | nil => rfl
  | cons first rest ih => exact congrArg (_ :: ·) (ih _)

/-- One more adjustment counts if it succeeds. -/
theorem Counts.concat (h : Counts stack label adjustments start counted)
    (hsuccess : (adjustment.perform (performAll stack label adjustments) label).1 = .success) :
    Counts stack label (adjustments ++ [adjustment]) start (counted ++ [adjustment]) := by
  cases h with
  | all hstart hnone =>
    refine .all hstart ?_
    rw [outcomes_concat, hsuccess]
    simpa using hnone
  | @since earlier _ failed hfailed hnone =>
    have hall : performAll stack label (earlier ++ failed :: counted) =
        performAll (performAll stack label (earlier ++ [failed])) label counted := by
      simp [performAll]
    rw [hall] at hsuccess
    rw [List.append_assoc, List.cons_append]
    refine .since hfailed ?_
    rw [outcomes_concat, hsuccess]
    simpa using hnone

/-- After an adjustment the label is bound to the canonical numeral of a number that fits. -/
theorem exists_lookup_perform (stack : FrameStack) (hlabel : label ≠ "") (adjustment : Adjustment) :
    ∃ number, (adjustment.perform stack label).2.lookup label = some (Decimal.ofInt number) ∧
      IsSigned64 (Decimal.ofInt number) number := by
  by_cases h : ∃ number, adjustment.Reaches stack label number
  · obtain ⟨number, hreaches⟩ := h
    refine ⟨number, ?_, Decimal.isSigned64_ofInt hreaches.least_le hreaches.le_greatest⟩
    rw [hreaches.perform_eq]
    exact (sets_apply stack hlabel _).lookup_eq
  · refine ⟨0, ?_, Decimal.isSigned64_ofInt (by decide) (by decide)⟩
    rw [perform_of_not_reaches (not_exists.mp h), Decimal.ofInt_zero]
    exact (sets_apply stack hlabel _).lookup_eq

/-- The number that is visible after some adjustments is the exact total of those that count. -/
theorem exists_counts (stack : FrameStack) (hlabel : label ≠ "") (adjustments : List Adjustment)
    (hnumber : IsSigned64 ((performAll stack label adjustments).lookupOr label "0") number) :
    ∃ start counted added, Counts stack label adjustments start counted ∧
      List.Forall₂ Adds counted added ∧ number = start + added.sum := by
  induction adjustments using List.reverseRecOn generalizing number with
  | nil => exact ⟨number, [], [], .all hnumber List.not_mem_nil, .nil, (add_zero number).symm⟩
  | append_singleton adjustments adjustment ih =>
    rw [performAll_concat] at hnumber
    by_cases h : ∃ reached, adjustment.Reaches (performAll stack label adjustments) label reached
    · obtain ⟨reached, hreaches⟩ := h
      have hvisible := (sets_apply (performAll stack label adjustments) hlabel
        (Decimal.ofInt reached)).lookup_eq
      rw [hreaches.perform_eq, FrameStack.lookupOr, hvisible, Option.getD_some] at hnumber
      have hreached : number = reached := hnumber.isInteger.unique
        (Decimal.isSigned64_ofInt hreaches.least_le hreaches.le_greatest).isInteger
      obtain ⟨current, amount, hcurrent, hamount, hexact⟩ := hreaches.exact
      obtain ⟨start, counted, added, hcounts, hadds, hsum⟩ := ih hcurrent
      refine ⟨start, counted ++ [adjustment], added ++ [adjustment.signed amount],
        hcounts.concat (congrArg Prod.fst hreaches.perform_eq),
        List.rel_append hadds (.cons ⟨amount, hamount, rfl⟩ .nil), ?_⟩
      rw [hreached, ← hexact, change_eq, hsum, List.sum_append, List.sum_singleton, add_assoc]
    · have hperform := perform_of_not_reaches (not_exists.mp h)
      have hvisible := (sets_apply (performAll stack label adjustments) hlabel "0").lookup_eq
      rw [hperform, FrameStack.lookupOr, hvisible, Option.getD_some,
        ← Decimal.ofInt_zero] at hnumber
      have hzero : number = 0 := hnumber.isInteger.unique
        (Decimal.isSigned64_ofInt (by decide) (by decide)).isInteger
      exact ⟨0, [], [], .since (congrArg Prod.fst hperform) List.not_mem_nil, .nil, hzero⟩

/-- Numbers are increased and decreased exactly. If the visible value of a label and the amount
denote signed 64-bit integers, and the exact result is one, the verb succeeds and the label is bound
to the canonical numeral of the result. In all other cases it fails and the label is bound to zero.
No other label changes its value. So after one or more adjustments of a label its value is always
the canonical numeral of the exact total of those that have been made since the last one that
failed, or of all of them and the number before if none has. -/
theorem adjustments_are_exact (stack : FrameStack) {label : String} (hlabel : label ≠ "") :
    (∀ adjustment : Adjustment,
      let result := adjustment.perform stack label
      (∀ phase context layer, (adjustment.verb label).execute phase context layer stack =
        pure (result.1.text, result.2)) ∧
      (∀ number, adjustment.Reaches stack label number →
        result.1 = .success ∧ Sets stack label (Decimal.ofInt number) result.2) ∧
      ((∀ number, ¬adjustment.Reaches stack label number) →
        result.1 = .failure ∧ Sets stack label "0" result.2)) ∧
    ∀ adjustments, adjustments ≠ [] → ∃ start counted added,
      Counts stack label adjustments start counted ∧ List.Forall₂ Adds counted added ∧
      (performAll stack label adjustments).lookup label =
        some (Decimal.ofInt (start + added.sum)) := by
  refine ⟨fun adjustment => ?_, fun adjustments hne => ?_⟩
  · intro result
    refine ⟨fun phase context layer => adjustment.execute_verb phase context layer stack label,
      fun number hreaches => ?_, fun hnone => ?_⟩
    · rw [show result = _ from hreaches.perform_eq]
      exact ⟨rfl, sets_apply stack hlabel _⟩
    · rw [show result = _ from perform_of_not_reaches hnone]
      exact ⟨rfl, sets_apply stack hlabel _⟩
  · obtain ⟨earlier, last, rfl⟩ := (List.eq_nil_or_concat' adjustments).resolve_left hne
    obtain ⟨number, hlookup, hnumber⟩ :=
      exists_lookup_perform (performAll stack label earlier) hlabel last
    rw [← performAll_concat] at hlookup
    have hvisible : (performAll stack label (earlier ++ [last])).lookupOr label "0" =
        Decimal.ofInt number := by rw [FrameStack.lookupOr, hlookup, Option.getD_some]
    obtain ⟨start, counted, added, hcounts, hadds, rfl⟩ :=
      exists_counts stack hlabel (earlier ++ [last]) (hvisible ▸ hnumber)
    exact ⟨start, counted, added, hcounts, hadds, hlookup⟩

/-- The greatest integer is reached, and what would go beyond it fails. -/
theorem adjustments_are_exact_of_greatest :
    let stack := FrameStack.empty.write "N" "9223372036854775806"
    "n" ≠ "" ∧ (Adjustment.inc "+001").Reaches stack "n" Signed64.greatest ∧
      Sets stack "n" "9223372036854775807" ((Adjustment.inc "+001").perform stack "n").2 ∧
      [Adjustment.inc "+001", .inc "1", .dec "-5"] ≠ [] ∧
      ∃ start counted added,
        Counts stack "n" [.inc "+001", .inc "1", .dec "-5"] start counted ∧
        List.Forall₂ Adds counted added ∧
        (performAll stack "n" [.inc "+001", .inc "1", .dec "-5"]).lookup "n" =
          some (Decimal.ofInt (start + added.sum)) := by
  intro stack
  have hlabel : "n" ≠ "" := by decide
  have hcurrent : IsSigned64 (stack.lookupOr "n" "0") 9223372036854775806 :=
    Decimal.signed64?_eq_some_iff.mp (by decide +kernel)
  have hamount : IsSigned64 "+001" 1 := Decimal.signed64?_eq_some_iff.mp (by decide +kernel)
  have hreaches : (Adjustment.inc "+001").Reaches stack "n" Signed64.greatest :=
    ⟨⟨_, _, hcurrent, hamount, by decide⟩, by decide, by decide⟩
  obtain ⟨hone, hmany⟩ := adjustments_are_exact stack hlabel
  have hsets := ((hone (.inc "+001")).2.1 _ hreaches).2
  have htext : Decimal.ofInt Signed64.greatest = "9223372036854775807" := by decide +kernel
  rw [htext] at hsets
  exact ⟨hlabel, hreaches, hsets, by simp, hmany _ (by simp)⟩

end Adjustment

end LayeredMachines
