import SymmetricTrees.Proofs.Packing

/-!
The order in which the trees of a forest are packed. It has every tree once, by
ascending depth, and trees that the order does not tell apart keep their places:
trees of one depth where they are packed as they come, trees with the same
features where they are sorted by them.
-/

set_option autoImplicit false

namespace SymmetricTrees

structure PackingOrder (order : GroupingOrder) (trees listed : List Tree) : Prop where
  perm : listed.Perm trees
  ascending : listed.Pairwise fun earlier later => earlier.depth ≤ later.depth
  encountered : order = .encounter → ∀ depth,
    (listed.filter fun tree => tree.depth == depth) = trees.filter fun tree => tree.depth == depth
  sorted : order = .sorted → listed.Pairwise fun earlier later =>
    earlier.depth = later.depth →
      earlier.splits.map Split.feature ≤ later.splits.map Split.feature
  stable : order = .sorted → ∀ features,
    (listed.filter fun tree => tree.splits.map Split.feature == features) =
      trees.filter fun tree => tree.splits.map Split.feature == features

theorem mem_iff_of_filter_key {Key : Type} [BEq Key] [LawfulBEq Key] {key : Tree → Key}
    {left right : List Tree}
    (same : ∀ value, (left.filter fun tree => key tree == value) =
      right.filter fun tree => key tree == value) (tree : Tree) :
    tree ∈ left ↔ tree ∈ right := by
  have part := congrArg (tree ∈ ·) (same (key tree))
  simp only [List.mem_filter, beq_self_eq_true, and_true, eq_iff_iff] at part
  exact part

/-- A list in the order of a key is determined by its parts of one key. -/
theorem eq_of_filter_key {Key : Type} [BEq Key] [LawfulBEq Key] {key : Tree → Key}
    {below : Key → Key → Prop}
    (antisymm : ∀ {first second}, below first second → below second first → first = second)
    {left right : List Tree}
    (leftSorted : left.Pairwise fun earlier later => below (key earlier) (key later))
    (rightSorted : right.Pairwise fun earlier later => below (key earlier) (key later))
    (same : ∀ value, (left.filter fun tree => key tree == value) =
      right.filter fun tree => key tree == value) :
    left = right := by
  induction left generalizing right with
  | nil =>
      cases right with
      | nil => rfl
      | cons tree rest =>
          have held := (mem_iff_of_filter_key same tree).mpr List.mem_cons_self
          exact absurd held List.not_mem_nil
  | cons first deeper induction =>
      cases right with
      | nil =>
          have held := (mem_iff_of_filter_key same first).mp List.mem_cons_self
          exact absurd held List.not_mem_nil
      | cons other rest =>
          -- The first trees may differ, but each comes behind the other one in
          -- the other list, so they have one key and lead the same part.
          have keys : key first = key other := by
            have otherHeld := (mem_iff_of_filter_key same other).mpr List.mem_cons_self
            have firstHeld := (mem_iff_of_filter_key same first).mp List.mem_cons_self
            rcases List.mem_cons.mp otherHeld with equal | later
            · rw [equal]
            · rcases List.mem_cons.mp firstHeld with equal | behind
              · rw [equal]
              · exact antisymm (List.rel_of_pairwise_cons leftSorted later)
                  (List.rel_of_pairwise_cons rightSorted behind)
          have led := same (key first)
          simp only [List.filter_cons, keys, beq_self_eq_true, if_true] at led
          obtain ⟨rfl, -⟩ := List.cons.inj led
          have sameRest : ∀ value, (deeper.filter fun tree => key tree == value) =
              rest.filter fun tree => key tree == value := by
            intro value
            have whole := same value
            simp only [List.filter_cons] at whole
            by_cases own : (key first == value) = true
            · rw [if_pos own, if_pos own] at whole
              exact (List.cons.inj whole).2
            · rw [if_neg own, if_neg own] at whole
              exact whole
          rw [induction leftSorted.of_cons rightSorted.of_cons sameRest]

/-- Features of fewer levels come first, then the order is level by level. -/
def levelwise (first second : List UInt32) : Prop :=
  first.length ≤ second.length ∧ (first.length = second.length → first ≤ second)

theorem levelwise_antisymm {first second : List UInt32} (below : levelwise first second)
    (above : levelwise second first) : first = second := by
  have length := Nat.le_antisymm below.1 above.1
  exact List.le_antisymm (below.2 length) (above.2 length.symm)

/-- There is only one packing order of the trees of a forest. -/
theorem PackingOrder.unique {order : GroupingOrder} {trees first second : List Tree}
    (firstListed : PackingOrder order trees first)
    (secondListed : PackingOrder order trees second) : first = second := by
  cases order with
  | encounter =>
      refine @eq_of_filter_key _ _ _ Tree.depth (· ≤ ·) Nat.le_antisymm first second
        firstListed.ascending secondListed.ascending ?_
      intro depth
      rw [firstListed.encountered rfl depth, secondListed.encountered rfl depth]
  | sorted =>
      have ascending : ∀ {listed}, PackingOrder .sorted trees listed →
          listed.Pairwise fun earlier later => levelwise earlier.features later.features := by
        intro listed ordered
        apply (ordered.ascending.and (ordered.sorted rfl)).imp
        rintro earlier later ⟨depths, features⟩
        simp only [levelwise, Tree.features, List.length_map]
        exact ⟨depths, features⟩
      refine @eq_of_filter_key _ _ _ Tree.features levelwise levelwise_antisymm first second
        (ascending firstListed) (ascending secondListed) ?_
      intro features
      exact (firstListed.stable rfl features).trans (secondListed.stable rfl features).symm

namespace Grouping

def byFeatures (left right : Tree) : Bool := decide (left.features ≤ right.features)

theorem by_features_trans (first second third : Tree) (below : byFeatures first second)
    (above : byFeatures second third) : byFeatures first third :=
  decide_eq_true (List.le_trans (of_decide_eq_true below) (of_decide_eq_true above))

theorem by_features_total (left right : Tree) :
    (byFeatures left right || byFeatures right left) = true := by
  rw [Bool.or_eq_true]
  rcases List.le_total left.features right.features with below | above
  · exact Or.inl (decide_eq_true below)
  · exact Or.inr (decide_eq_true above)

theorem arrange_perm (order : GroupingOrder) (trees : List Tree) :
    (arrange order trees).Perm trees := by
  cases order with
  | encounter => exact List.Perm.refl _
  | sorted => exact List.mergeSort_perm _ _

/-- Sorting keeps the order of trees with the same features. -/
theorem filter_merge_sort {trees : List Tree} {select : Tree → Bool} {features : List UInt32}
    (same : ∀ tree, select tree → tree.features = features) :
    (trees.mergeSort byFeatures).filter select = trees.filter select := by
  have tied : (trees.filter select).Pairwise fun left right => byFeatures left right := by
    apply List.pairwise_of_forall_mem_list
    intro left leftHeld right rightHeld
    have leftSame := same left (List.mem_filter.mp leftHeld).2
    have rightSame := same right (List.mem_filter.mp rightHeld).2
    exact decide_eq_true (by rw [leftSame, rightSame]; exact List.le_refl _)
  have kept : (trees.filter select).Sublist (trees.mergeSort byFeatures) :=
    List.sublist_mergeSort by_features_trans by_features_total tied List.filter_sublist
  have selected := kept.filter select
  simp only [List.filter_filter, Bool.and_self] at selected
  exact (selected.eq_of_length
    ((List.mergeSort_perm trees byFeatures).filter select).length_eq.symm).symm

/-- Where only one part has selected elements, the whole has no others. -/
theorem filter_flat_map_single {Value : Type} {keys : List Nat} (distinct : keys.Nodup)
    {part : Nat → List Value} {select : Value → Bool} {key : Nat} (present : key ∈ keys)
    (others : ∀ other, other ≠ key → (part other).filter select = []) :
    (keys.flatMap part).filter select = (part key).filter select := by
  induction keys with
  | nil => exact absurd present List.not_mem_nil
  | cons first rest induction =>
      obtain ⟨absent, distinctRest⟩ := List.nodup_cons.mp distinct
      rw [List.flatMap_cons, List.filter_append]
      rcases List.mem_cons.mp present with rfl | later
      · have none : (rest.flatMap part).filter select = [] := by
          rw [List.filter_flatMap]
          apply List.flatMap_eq_nil_iff.mpr
          intro other member
          apply others
          rintro rfl
          exact absent member
        rw [none, List.append_nil]
      · have different : first ≠ key := by
          rintro rfl
          exact absent later
        rw [others first different, List.nil_append]
        exact induction distinctRest later

variable {order : GroupingOrder} {trees : List Tree}

theorem filter_listing {select : Tree → Bool} {depth : Nat} (shallow : depth ≤ maxDepth)
    (same : ∀ tree, select tree → tree.depth = depth) :
    (listing order trees).filter select = (bucket order trees depth).filter select := by
  have present : depth ∈ depths := List.mem_range.mpr (Nat.lt_succ_of_le shallow)
  apply filter_flat_map_single List.nodup_range present
  intro other different
  apply List.filter_eq_nil_iff.mpr
  intro tree held selected
  exact different ((mem_bucket.mp held).2.symm.trans (same tree selected))

theorem filter_filter_depth {select : Tree → Bool} {depth : Nat}
    (same : ∀ tree, select tree → tree.depth = depth) (trees : List Tree) :
    (trees.filter fun tree => tree.depth == depth).filter select = trees.filter select := by
  rw [List.filter_filter]
  apply List.filter_congr
  intro tree _
  by_cases selected : select tree
  · rw [selected, same tree selected, beq_self_eq_true, Bool.and_self]
  · rw [Bool.eq_false_iff.mpr selected, Bool.false_and]

theorem filter_deep {select : Tree → Bool} {depth : Nat} (deep : ¬depth ≤ maxDepth)
    (same : ∀ tree, select tree → tree.depth = depth) (trees : List Tree) :
    trees.filter select = [] := by
  apply List.filter_eq_nil_iff.mpr
  intro tree _ selected
  apply deep
  rw [← same tree selected]
  exact tree.depth_le

theorem listing_perm : (listing order trees).Perm trees := by
  classical
  apply List.perm_iff_count.mpr
  intro tree
  have same : ∀ other, (other == tree) = true → other.depth = tree.depth :=
    fun other equal => congrArg Tree.depth (eq_of_beq equal)
  have arranged :=
    (arrange_perm order (trees.filter fun other => other.depth == tree.depth)).filter (· == tree)
  rw [filter_filter_depth same] at arranged
  rw [List.count_eq_length_filter, List.count_eq_length_filter, filter_listing tree.depth_le same]
  exact arranged.length_eq

theorem bucket_sorted (depth : Nat) :
    (bucket .sorted trees depth).Pairwise fun left right => left.features ≤ right.features := by
  have sorted := List.pairwise_mergeSort by_features_trans by_features_total
    (trees.filter fun tree => tree.depth == depth)
  apply sorted.imp
  intro left right below
  exact of_decide_eq_true below

theorem listing_packing_order (order : GroupingOrder) (trees : List Tree) :
    PackingOrder order trees (listing order trees) where
  perm := listing_perm
  ascending := by
    apply List.pairwise_flatMap.mpr
    constructor
    · intro depth _
      apply List.pairwise_of_forall_mem_list
      intro left leftHeld right rightHeld
      rw [(mem_bucket.mp leftHeld).2, (mem_bucket.mp rightHeld).2]
    · apply List.pairwise_lt_range.imp
      intro shallower deeper below left leftHeld right rightHeld
      rw [(mem_bucket.mp leftHeld).2, (mem_bucket.mp rightHeld).2]
      exact Nat.le_of_lt below
  encountered := by
    rintro rfl depth
    have same : ∀ tree : Tree, (tree.depth == depth) = true → tree.depth = depth :=
      fun tree equal => eq_of_beq equal
    by_cases shallow : depth ≤ maxDepth
    · rw [filter_listing shallow same]
      exact filter_filter_depth same trees
    · rw [filter_deep shallow same, filter_deep shallow same]
  sorted := by
    rintro rfl
    apply List.pairwise_flatMap.mpr
    constructor
    · intro depth _
      apply (bucket_sorted depth).imp
      intro earlier later below _
      exact below
    · apply List.pairwise_lt_range.imp
      intro shallower deeper below left leftHeld right rightHeld same
      rw [(mem_bucket.mp leftHeld).2, (mem_bucket.mp rightHeld).2] at same
      exact absurd same (Nat.ne_of_lt below)
  stable := by
    rintro rfl features
    have same : ∀ tree : Tree, (tree.splits.map Split.feature == features) = true →
        tree.depth = features.length := by
      intro tree tested
      rw [← eq_of_beq tested, List.length_map, Tree.depth]
    by_cases shallow : features.length ≤ maxDepth
    · rw [filter_listing shallow same, ← filter_filter_depth same trees]
      exact filter_merge_sort fun tree tested => eq_of_beq tested
    · rw [filter_deep shallow same, filter_deep shallow same]

end Grouping

end SymmetricTrees
