import LayeredMachines.Proofs.Hierarchy.Order
import Mathlib.Algebra.Order.Ring.Nat
import Mathlib.Data.List.Nodup

/-!
# Subtrees

What is below a slot is its children and what is below them. The subtrees of two children have no
slot in common, although each slot is found there by going up from it. So whatever is counted below
a slot is counted once below one of its children, or is a child itself.
-/

namespace LayeredMachines.Hierarchy

variable {hierarchy : Hierarchy} {slot above below child other : Nat}

/-- The slots of the children of the layer in `slot`, in the order of their creation. -/
def children (hierarchy : Hierarchy) (slot : Nat) : List Nat :=
  (List.range hierarchy.size).filter fun child => hierarchy.parent? child == some slot

/-- One slot is in the subtree of another: it is that slot or below it. -/
def IsWithin (hierarchy : Hierarchy) : Nat → Nat → Prop :=
  Relation.ReflTransGen hierarchy.IsParent

/-- The attached slots in the subtree of `slot`, that slot first. -/
def branch (hierarchy : Hierarchy) (slot : Nat) : List Nat :=
  (if hierarchy.isAttached slot then [slot] else []) ++ hierarchy.descendants slot

/-- The children of a slot are those that have it for their parent. -/
theorem mem_children : child ∈ hierarchy.children slot ↔ hierarchy.IsParent child slot := by
  simp only [children, List.mem_filter, List.mem_range, beq_iff_eq, IsParent,
    and_iff_right_iff_imp]
  exact lt_size_of_parent?

/-- No child is listed twice. -/
theorem nodup_children (hierarchy : Hierarchy) (slot : Nat) : (hierarchy.children slot).Nodup :=
  List.nodup_range.filter _

/-! ### Above and below -/

/-- A slot has at most one parent. -/
theorem rightUnique_isParent (hierarchy : Hierarchy) : Relator.RightUnique hierarchy.IsParent :=
  fun _ _ _ hfirst hsecond => Option.some.inj (hfirst.symm.trans hsecond)

/-- What is below a slot has a greater one. -/
theorem Ordered.lt_of_isBelow (hordered : hierarchy.Ordered)
    (hbelow : hierarchy.IsBelow below above) : above < below :=
  lt_of_mem_ancestors (hordered.mem_ancestors_iff.mpr hbelow)

/-- What is below a slot is in the subtree of one of its children. -/
theorem isBelow_iff_exists_child :
    hierarchy.IsBelow below slot ↔
      ∃ child ∈ hierarchy.children slot, hierarchy.IsWithin below child := by
  simp only [mem_children, IsBelow, IsWithin, Relation.TransGen.tail'_iff, and_comm]

/-- The subtrees of two children of a slot have no slot in common. -/
theorem Ordered.child_unique (hordered : hierarchy.Ordered)
    (hchild : child ∈ hierarchy.children slot) (hother : other ∈ hierarchy.children slot)
    (hwithin : hierarchy.IsWithin below child) (hwithinOther : hierarchy.IsWithin below other) :
    child = other := by
  -- One of the two would be in the subtree of the other, and so would be their parent.
  have hnot {first second : Nat} (hfirst : first ∈ hierarchy.children slot)
      (hsecond : second ∈ hierarchy.children slot) : ¬ hierarchy.IsBelow first second := by
    intro hbelow
    obtain ⟨parent, hparent, hwithin⟩ := Relation.TransGen.head'_iff.mp hbelow
    obtain rfl := hierarchy.rightUnique_isParent hparent (mem_children.mp hfirst)
    have hloop : hierarchy.IsBelow parent parent :=
      Relation.TransGen.tail'_iff.mpr ⟨second, hwithin, mem_children.mp hsecond⟩
    exact Nat.lt_irrefl parent (hordered.lt_of_isBelow hloop)
  rcases Relation.ReflTransGen.total_of_right_unique hierarchy.rightUnique_isParent hwithin
    hwithinOther with hup | hup
  · rcases Relation.reflTransGen_iff_eq_or_transGen.mp hup with heq | hbelow
    · exact heq.symm
    · exact absurd hbelow (hnot hchild hother)
  · rcases Relation.reflTransGen_iff_eq_or_transGen.mp hup with heq | hbelow
    · exact heq
    · exact absurd hbelow (hnot hother hchild)

/-! ### The attached layers below a slot -/

/-- The attached slots below a slot are listed from the smallest on. -/
theorem pairwise_descendants (hierarchy : Hierarchy) (slot : Nat) :
    (hierarchy.descendants slot).Pairwise (· < ·) :=
  hierarchy.pairwise_attachedSlots.filter _

theorem nodup_descendants (hierarchy : Hierarchy) (slot : Nat) :
    (hierarchy.descendants slot).Nodup :=
  (hierarchy.pairwise_descendants slot).imp Nat.ne_of_lt

/-- A slot is not below itself. -/
theorem not_mem_descendants_self (hierarchy : Hierarchy) (slot : Nat) :
    slot ∉ hierarchy.descendants slot :=
  fun hmem => Nat.lt_irrefl slot (lt_of_mem_ancestors (mem_descendants.mp hmem).2)

/-- The descendants of a slot are the attached slots below it. -/
theorem Ordered.mem_descendants_iff (hordered : hierarchy.Ordered) :
    below ∈ hierarchy.descendants slot ↔
      hierarchy.isAttached below = true ∧ hierarchy.IsBelow below slot := by
  rw [mem_descendants, hordered.mem_ancestors_iff]

/-- The branch of a slot is what is attached in its subtree. -/
theorem Ordered.mem_branch_iff (hordered : hierarchy.Ordered) :
    below ∈ hierarchy.branch slot ↔
      hierarchy.isAttached below = true ∧ hierarchy.IsWithin below slot := by
  rw [branch, List.mem_append, hordered.mem_descendants_iff, IsWithin,
    Relation.reflTransGen_iff_eq_or_transGen]
  constructor
  · rintro (hself | ⟨hattached, hbelow⟩)
    · split at hself
      · next hattached =>
        obtain rfl := List.mem_singleton.mp hself
        exact ⟨hattached, .inl rfl⟩
      · exact absurd hself List.not_mem_nil
    · exact ⟨hattached, .inr hbelow⟩
  · rintro ⟨hattached, rfl | hbelow⟩
    · left
      rw [if_pos hattached]
      exact List.mem_singleton_self slot
    · exact .inr ⟨hattached, hbelow⟩

/-- No slot is twice in a branch. -/
theorem nodup_branch (hierarchy : Hierarchy) (slot : Nat) : (hierarchy.branch slot).Nodup := by
  unfold branch
  split
  · exact List.nodup_cons.mpr
      ⟨hierarchy.not_mem_descendants_self slot, hierarchy.nodup_descendants slot⟩
  · exact hierarchy.nodup_descendants slot

/-- What is attached below a slot are the branches of its children, one beside the other. -/
theorem Ordered.descendants_perm (hordered : hierarchy.Ordered) (slot : Nat) :
    (hierarchy.descendants slot).Perm ((hierarchy.children slot).flatMap hierarchy.branch) := by
  have hdisjoint : (hierarchy.children slot).Pairwise
      (Function.onFun List.Disjoint hierarchy.branch) := by
    refine (hierarchy.nodup_children slot).pairwise_of_forall_ne
      fun child hchild other hother hne below hfirst hsecond => ?_
    exact hne (hordered.child_unique hchild hother (hordered.mem_branch_iff.mp hfirst).2
      (hordered.mem_branch_iff.mp hsecond).2)
  have hbranches : ((hierarchy.children slot).flatMap hierarchy.branch).Nodup :=
    List.nodup_flatMap.mpr ⟨fun child _ => hierarchy.nodup_branch child, hdisjoint⟩
  have hnodup := hierarchy.nodup_descendants slot
  refine (List.perm_ext_iff_of_nodup hnodup hbranches).mpr fun below => ?_
  rw [hordered.mem_descendants_iff, isBelow_iff_exists_child, List.mem_flatMap]
  constructor
  · rintro ⟨hattached, child, hchild, hwithin⟩
    exact ⟨child, hchild, hordered.mem_branch_iff.mpr ⟨hattached, hwithin⟩⟩
  · rintro ⟨child, hchild, hbranch⟩
    obtain ⟨hattached, hwithin⟩ := hordered.mem_branch_iff.mp hbranch
    exact ⟨hattached, child, hchild, hwithin⟩

/-- What is counted below a slot is, for each child, the child itself if it counts, and what is
counted below it. -/
theorem Ordered.countP_descendants (hordered : hierarchy.Ordered) (counts : Nat → Bool)
    (slot : Nat) :
    (hierarchy.descendants slot).countP counts =
      ((hierarchy.children slot).map fun child =>
        (if hierarchy.isAttached child ∧ counts child then 1 else 0) +
          (hierarchy.descendants child).countP counts).sum := by
  rw [(hordered.descendants_perm slot).countP_eq, List.countP_flatMap]
  refine congrArg List.sum (List.map_congr_left fun child _ => ?_)
  rw [Function.comp_apply, branch, List.countP_append]
  by_cases hattached : hierarchy.isAttached child = true
  · by_cases hcounts : counts child = true
    · simp [hattached, hcounts]
    · simp [hattached, hcounts]
  · simp [hattached]

end LayeredMachines.Hierarchy
