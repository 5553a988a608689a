import LayeredMachines.Proofs.Engine.Detached
import LayeredMachines.Proofs.Hierarchy.Subtrees

/-!
# What a layer sees below it

A layer counts the layers below it that match, and sends events to all layers below it. Both go over
all attached layers and up from each of them. What they find is the subtree: the children, and what
is below them, also where a child is detached. No layer of it is missing when it is asked for.
-/

namespace LayeredMachines

/-- Every labelled pair is matched: a variable with the label is visible, and has the value up to
case. -/
def FrameStack.Matches (stack : FrameStack) (tuple : List Parameter) : Prop :=
  ∀ pair ∈ tuple, pair.label ≠ "" →
    ∃ value, stack.lookup pair.label = some value ∧ caselessEq value pair.value = true

theorem FrameStack.matchesAll_iff {stack : FrameStack} {tuple : List Parameter} :
    stack.matchesAll tuple = true ↔ stack.Matches tuple := by
  simp only [matchesAll, Matches, matchesValue, List.all_filter, List.all_eq_true,
    Bool.or_eq_true, Bool.not_not, String.isEmpty_iff, Option.any_eq_true]
  refine forall₂_congr fun pair _ => ?_
  exact or_iff_not_imp_left

namespace Hierarchy

variable {hierarchy : Hierarchy} {slot : Nat} {tuple : List Parameter}

/-- An attached layer is in the slot, and its visible variables match every labelled pair. -/
def Shows (hierarchy : Hierarchy) (tuple : List Parameter) (slot : Nat) : Prop :=
  hierarchy.isAttached slot = true ∧
    ∃ layer, hierarchy.layer? slot = some layer ∧ layer.frames.Matches tuple

theorem shows_iff :
    hierarchy.Shows tuple slot ↔ hierarchy.isAttached slot = true ∧
      ((hierarchy.layer? slot).any fun layer => layer.frames.matchesAll tuple) = true := by
  simp only [Shows, Option.any_eq_true, FrameStack.matchesAll_iff]

instance : Decidable (hierarchy.Shows tuple slot) :=
  decidable_of_iff' _ shows_iff

end Hierarchy

namespace Pass

variable {pass : Pass}

/-- What a layer counts are the matching layers among those below it. -/
theorem countMatches_eq (pass : Pass) (slot : Nat) (tuple : List Parameter) :
    pass.countMatches slot tuple =
      (pass.hierarchy.descendants slot).countP fun below => pass.hierarchy.Shows tuple below := by
  refine List.countP_congr fun below hbelow => ?_
  have hattached := (Hierarchy.mem_descendants.mp hbelow).1
  rw [decide_eq_true_eq, Hierarchy.shows_iff, and_iff_right hattached]

/-- What a layer counts is, for each of its children, one if it matches, and what that child
counts. -/
theorem countMatches_eq_sum (hordered : pass.hierarchy.Ordered) (slot : Nat)
    (tuple : List Parameter) :
    pass.countMatches slot tuple =
      ((pass.hierarchy.children slot).map fun child =>
        (if pass.hierarchy.Shows tuple child then 1 else 0) +
          pass.countMatches child tuple).sum := by
  rw [countMatches, hordered.countP_descendants]
  simp only [← Hierarchy.shows_iff]
  rfl

/-- Where the layers below a slot are in their records, a tuple without labelled pairs counts them
all. -/
theorem shows_of_unlabelled {slot : Nat} {tuple : List Parameter}
    (hothers : ∀ other < pass.hierarchy.size, other ≠ slot →
      ∃ layer, pass.hierarchy.layer? other = some layer)
    (htuple : ∀ pair ∈ tuple, pair.label = "") {below : Nat}
    (hbelow : below ∈ pass.hierarchy.descendants slot) : pass.hierarchy.Shows tuple below := by
  have hattached := (Hierarchy.mem_descendants.mp hbelow).1
  have hne : below ≠ slot := by
    rintro rfl
    exact pass.hierarchy.not_mem_descendants_self below hbelow
  obtain ⟨layer, hlayer⟩ := hothers below (Hierarchy.lt_size_of_isAttached hattached) hne
  exact ⟨hattached, layer, hlayer, fun pair hpair hlabel => absurd (htuple pair hpair) hlabel⟩

end Pass

namespace Engine

variable {engine : Engine} {slot : Nat} {pass : Pass}

/-- A moment at which it may be asked what is below a slot: between two passes, between two work
items of a pass, or while the layer in this slot walks. -/
inductive Moment (engine : Engine) (slot : Nat) : Pass → Prop
  | idle {pass : Pass} (hsame : pass.hierarchy = engine.hierarchy) : Moment engine slot pass
  | between {event : String} {target : Option LayerId} {now : Int} {pass : Pass}
      (hevent : event ≠ "")
      (hleads : Pass.Leads (engine.surroundings now) (engine.beginPass event target) pass) :
      Moment engine slot pass
  | walking {event : String} {target : Option LayerId} {now : Int} {start mid : Pass}
      {item : WorkItem} (hevent : event ≠ "")
      (hleads : Pass.Leads (engine.surroundings now) (engine.beginPass event target) start)
      (hitem : start.next? = some item) (hslot : item.slot = slot)
      (hmid : mid ∈ start.walkStates (engine.surroundings now)) : Moment engine slot mid

/-- At such a moment the records are in order, and no layer is missing but the one that asks. -/
theorem Reachable.of_moment (hengine : engine.Reachable) (hmoment : engine.Moment slot pass) :
    pass.hierarchy.Ordered ∧ ∀ other < pass.hierarchy.size, other ≠ slot →
      ∃ layer, pass.hierarchy.layer? other = some layer := by
  cases hmoment with
  | idle hsame =>
    have hsettled := hengine.settled
    rw [hsame]
    exact ⟨hsettled.ordered, fun other hother _ =>
      Option.isSome_iff_exists.mp (hsettled.isFull other hother)⟩
  | between hevent hleads =>
    have hresting := hengine.resting hevent hleads
    exact ⟨hresting.ordered, fun other hother _ =>
      Option.isSome_iff_exists.mp (hresting.isFull other hother)⟩
  | walking hevent hleads hitem hslot hmid =>
    have hwalking := (hengine.resting hevent hleads).walking_of_mem_walkStates hitem hmid
    refine ⟨hwalking.ordered, fun other hother hne => Option.ne_none_iff_exists'.mp ?_⟩
    intro hnone
    exact hne (((hwalking.layer?_eq_none other hother).mp hnone).trans hslot)

/-- Whenever a layer may count, or send an event downwards, it sees its subtree. What it counts is,
for each of its children, attached or not, one if the child is attached and matches, and what the
child would count. The subtrees of its children have no slot in common. An event that it sends is
added for each attached slot below it once, in the order of their creation, and not for itself.
These are the slots that it counts from, and all of them if no pair has a label. -/
theorem count_and_blast_see_subtree (hengine : engine.Reachable)
    (hmoment : engine.Moment slot pass) (around : Surroundings) (id : LayerId) :
    let hierarchy := pass.hierarchy
    let count (top : Nat) (tuple : List Parameter) : Nat :=
      (around.handle top id (.count tuple) pass).1
    (∀ tuple, count slot tuple =
      ((hierarchy.children slot).map fun child =>
        (if hierarchy.Shows tuple child then 1 else 0) + count child tuple).sum) ∧
    (∀ child ∈ hierarchy.children slot, ∀ other ∈ hierarchy.children slot, child ≠ other →
      ∀ below, hierarchy.IsWithin below child → ¬ hierarchy.IsWithin below other) ∧
    ∃ slots : List Nat, slots.Pairwise (· < ·) ∧ slot ∉ slots ∧
      (∀ below, below ∈ slots ↔
        hierarchy.isAttached below = true ∧ hierarchy.IsBelow below slot) ∧
      (∀ event, event ≠ "" → (around.handle slot id (.blast event) pass).2 =
        { pass with queue := pass.queue ++ (slots.map (WorkItem.mk event)).toArray }) ∧
      (∀ tuple, count slot tuple = slots.countP fun below => hierarchy.Shows tuple below) ∧
      ∀ tuple, (∀ pair ∈ tuple, pair.label = "") →
        (∀ below ∈ slots, hierarchy.Shows tuple below) ∧ count slot tuple = slots.length := by
  intro hierarchy count
  obtain ⟨hordered, hothers⟩ := hengine.of_moment hmoment
  refine ⟨Pass.countMatches_eq_sum hordered slot, ?_, hierarchy.descendants slot,
    hierarchy.pairwise_descendants slot, hierarchy.not_mem_descendants_self slot,
    fun below => hordered.mem_descendants_iff, fun event hevent => ?_, pass.countMatches_eq slot,
    fun tuple htuple => ?_⟩
  · intro child hchild other hother hne below hwithin hwithinOther
    exact hne (hordered.child_unique hchild hother hwithin hwithinOther)
  · have hnonempty : event.isEmpty = false := by simpa using hevent
    simp only [Surroundings.handle, hnonempty, if_false, Bool.false_eq_true, Pass.enqueueAll_eq]
    rfl
  · have hall (below : Nat) (hbelow : below ∈ hierarchy.descendants slot) :
        hierarchy.Shows tuple below := Pass.shows_of_unlabelled hothers htuple hbelow
    refine ⟨hall, (pass.countMatches_eq slot tuple).trans ?_⟩
    exact List.countP_eq_length.mpr fun below hbelow => decide_eq_true (hall below hbelow)

/-- When the child of the late library is detached, the root counts what this child counts: the
layer that has stayed below it. -/
theorem count_and_blast_see_subtree_of_late :
    ∃ pass : Pass, late.Reachable ∧ late.Moment 0 pass ∧ pass.hierarchy.children 0 = [1] ∧
      pass.hierarchy.isAttached 1 = false ∧ pass.countMatches 1 [] = 1 ∧
      ∀ tuple, pass.countMatches 0 tuple = pass.countMatches 1 tuple := by
  have hgo : ((late.beginPass "go" none).step? (late.surroundings 0)).any fun first =>
      (first.step? (late.surroundings 0)).any fun pass =>
        pass.hierarchy.children 0 == [1] && !pass.hierarchy.isAttached 1 &&
          pass.countMatches 1 [] == 1 := by
    decide +kernel
  obtain ⟨first, hfirst, hrest⟩ := (Option.any_eq_true ..).mp hgo
  obtain ⟨pass, hpass, hcounts⟩ := (Option.any_eq_true ..).mp hrest
  simp only [Bool.and_eq_true, beq_iff_eq, Bool.not_eq_true'] at hcounts
  obtain ⟨⟨hchildren, hdetached⟩, hone⟩ := hcounts
  have hevent : "go" ≠ "" := by decide
  have hmoment : late.Moment 0 pass := .between hevent (.tail (.single hfirst) hpass)
  obtain ⟨hsum, _⟩ :=
    count_and_blast_see_subtree reachable_late hmoment (late.surroundings 0) ⟨0⟩
  refine ⟨pass, reachable_late, hmoment, hchildren, hdetached, hone, fun tuple => ?_⟩
  have hhidden : ¬ pass.hierarchy.Shows tuple 1 := by simp [Hierarchy.Shows, hdetached]
  have hcount := hsum tuple
  rw [hchildren, List.map_singleton, List.sum_singleton, if_neg hhidden, Nat.zero_add] at hcount
  exact hcount

end Engine

end LayeredMachines
