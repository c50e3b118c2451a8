import SymmetricTrees.Proofs.PackingOrder

/-!
What an encoded forest means. Its blocks read back as the trees of the forest in
packing order, in groups of four as far as they go, and its score of a row is
the sum of what these trees predict, in that order.
-/

set_option autoImplicit false

namespace SymmetricTrees

open BlockStream

namespace Grouping

variable {order : GroupingOrder} {trees : List Tree}

def leftoverKind (depth : Nat) : Kind := if minimumChunkedDepth ≤ depth then .chunks else .scalar

theorem packs_of_depth_shapes {depth : Nat} (same : ∀ tree ∈ trees, tree.depth = depth) :
    ((packsOfDepth trees).map fun pack => (pack.block.kind, pack.trees.length)) =
      List.replicate (trees.length / 4) (.grouped, 4) ++
        List.replicate (trees.length % 4) (leftoverKind depth, 1) := by
  obtain ⟨groups, leftovers⟩ := Quad.length_groups trees
  have single : ∀ tree ∈ (Quad.groups trees).2,
      ((Pack.alone tree).block.kind, (Pack.alone tree).trees.length) = (leftoverKind depth, 1) := by
    intro tree member
    have held : tree ∈ trees := by
      rw [← Quad.groups_append trees]
      exact List.mem_append_right _ member
    have kind : (Pack.alone tree).block.kind = leftoverKind tree.depth := rfl
    rw [kind, same tree held]
    rfl
  rw [packsOfDepth, List.map_append, List.map_map, List.map_map]
  apply congrArg₂ (· ++ ·)
  · rw [← groups, ← List.map_const']
    rfl
  · rw [← leftovers, ← List.map_const']
    exact List.map_congr_left single

theorem filter_packs {depth : Nat} (shallow : depth ≤ maxDepth) :
    ((packs order trees).filter fun pack => pack.block.depth == depth) =
      packsOfDepth (bucket order trees depth) := by
  have depthOf : ∀ key, ∀ pack ∈ packsOfDepth (bucket order trees key), pack.block.depth = key :=
    fun key pack packed =>
      (packs_of_depth_uniform (fun tree held => (mem_bucket.mp held).2) pack packed).1
  have present : depth ∈ depths := List.mem_range.mpr (Nat.lt_succ_of_le shallow)
  have distinct : depths.Nodup := List.nodup_range
  rw [packs, filter_flat_map_single distinct present]
  · apply List.filter_eq_self.mpr
    intro pack packed
    exact beq_iff_eq.mpr (depthOf depth pack packed)
  · intro other different
    apply List.filter_eq_nil_iff.mpr
    intro pack packed selected
    exact different ((depthOf other pack packed).symm.trans (eq_of_beq selected))

theorem filter_packs_shapes (depth : Nat) :
    (((packs order trees).filter fun pack => pack.block.depth == depth).map
        fun pack => (pack.block.kind, pack.trees.length)) =
      List.replicate ((trees.countP fun tree => tree.depth == depth) / 4) (.grouped, 4) ++
        List.replicate ((trees.countP fun tree => tree.depth == depth) % 4)
          (leftoverKind depth, 1) := by
  by_cases shallow : depth ≤ maxDepth
  · rw [filter_packs shallow, ← length_bucket order]
    exact packs_of_depth_shapes fun tree held => (mem_bucket.mp held).2
  · have none : (trees.countP fun tree => tree.depth == depth) = 0 := by
      rw [List.countP_eq_length_filter, filter_deep shallow fun tree equal => eq_of_beq equal]
      rfl
    have empty : ((packs order trees).filter fun pack => pack.block.depth == depth) = [] := by
      apply List.filter_eq_nil_iff.mpr
      intro pack _ equal
      apply shallow
      rw [← eq_of_beq equal]
      exact pack.block.depth_le
    rw [none, empty]
    rfl

end Grouping

open Grouping

theorem foldl_m_predict?_eq_some {trees : List Tree} {row : Row}
    (covers : ∀ tree ∈ trees, row.Covers tree.splits) (sum : Float) :
    trees.foldlM (fun total tree => (tree.predict? row).map (total + ·)) sum =
      some ((trees.map fun tree => tree.value row).foldl (fun sum value => sum + value) sum) := by
  induction trees generalizing sum with
  | nil => rfl
  | cons tree rest induction =>
      obtain ⟨here, later⟩ := List.forall_mem_cons.mp covers
      simp only [List.foldlM_cons, Tree.predict?_eq_some here, Option.map_some,
        Option.bind_eq_bind, Option.bind_some, List.map_cons, List.foldl_cons]
      exact induction later _

theorem raw_score?_eq_some {forest : Forest} {row : Row}
    (covers : ∀ tree ∈ forest.trees.toList, row.Covers tree.splits) :
    forest.rawScore? row =
      some ((forest.trees.toList.map fun tree => tree.value row).foldl
        (fun sum value => sum + value) (-0.0)) :=
  foldl_m_predict?_eq_some covers (-0.0)

/-- An encoded forest scores a row by the leaf values that its own trees predict,
every tree once, from positive zero on in packing order; the forest itself adds
the same values in its own order. -/
theorem encode_preserves_predictions {forest : Forest} {order : GroupingOrder}
    {encoded : EncodedForest} (compiled : forest.encode order = .ok encoded) :
    ∃ listed, PackingOrder order forest.trees.toList listed ∧
      ∀ (backend : LaneBackend) {unit : VectorUnit}, unit.LaneWise →
        ∀ row : Row, forest.featureCount ≤ row.size →
          ∃ values, listed.mapM (fun tree => tree.predict? row) = some values ∧
            encoded.scoreOn (backend.opsOn unit) row =
              .ok (values.foldl (fun sum value => sum + value) 0.0) ∧
            ∃ own, forest.trees.toList.mapM (fun tree => tree.predict? row) = some own ∧
              own.Perm values ∧
              forest.rawScore? row =
                some (own.foldl (fun sum value => sum + value) (-0.0)) := by
  obtain ⟨featureCount, packed⟩ := stands_of_encode compiled
  obtain ⟨stands, read, -, -, -, scores⟩ := encoded.reads_as_trees
  obtain rfl := Except.ok.inj (read.symm.trans packed)
  have listed : ((packs order forest.trees.toList).map Pack.stand).flatMap Stand.trees =
      listing order forest.trees.toList := by
    rw [List.flatMap_map]
    exact packs_trees order forest.trees.toList
  rw [listed] at scores
  refine ⟨listing order forest.trees.toList, listing_packing_order _ _, ?_⟩
  intro backend unit laneWise row long
  have covers : ∀ tree ∈ forest.trees.toList, row.Covers tree.splits :=
    fun tree member split tested => Nat.lt_of_lt_of_le
      (forest.fits tree (Array.mem_toList_iff.mp member) split tested) long
  have permuted := @listing_perm order forest.trees.toList
  have coversListed : ∀ tree ∈ listing order forest.trees.toList, row.Covers tree.splits :=
    fun tree member => covers tree (permuted.mem_iff.mp member)
  refine ⟨_, map_m_predict?_eq_some coversListed, ?_, _, map_m_predict?_eq_some covers,
    (permuted.map _).symm, raw_score?_eq_some covers⟩
  rw [List.foldl_map]
  exact scores _ (backend.ops_on_lane_wise laneWise) row (by rw [featureCount]; exact long)

/-- A stump and a single leaf. -/
theorem encode_preserves_predictions_stump :
    let stump : Tree := ⟨[⟨1, ⟨0x3F000000⟩⟩], #[0.5, -0.5], by decide, rfl⟩
    let leaf : Tree := ⟨[], #[2.0], by decide, rfl⟩
    let row : Row := #[0.25, 0.75]
    ∃ forest : Forest, forest.featureCount = 2 ∧ forest.trees.toList = [stump, leaf] ∧
      ∃ encoded, forest.encode .sorted = .ok encoded ∧
        ∃ listed, PackingOrder .sorted [stump, leaf] listed ∧
          ∃ values, listed.mapM (fun tree => tree.predict? row) = some values ∧
            encoded.score .simd row = .ok (values.foldl (fun sum value => sum + value) 0.0) := by
  intro stump leaf row
  let forest : Forest :=
    { featureCount := 2, trees := #[stump, leaf], fits := by simp [Tree.Fits, stump, leaf] }
  obtain ⟨encoded, compiled⟩ : ∃ encoded, forest.encode .sorted = .ok encoded :=
    encode_is_ok (counted_of_few (Nat.lt_of_le_of_lt List.countP_le_length (by decide))
      (Nat.lt_of_le_of_lt List.countP_le_length (by decide)))
  obtain ⟨listed, ordered, scores⟩ := encode_preserves_predictions compiled
  obtain ⟨values, predicted, scored, -⟩ :=
    scores .simd VectorUnit.quads_lane_wise row (Nat.le_refl 2)
  exact ⟨forest, rfl, rfl, encoded, compiled, listed, ordered, values, predicted, scored⟩

/-- A forest whose trees of the two greatest depths do not fill a group is
encoded, and its blocks read back as its trees in packing order. Of the trees of
one depth, groups take four each as far as they go, and each of the others has a
block of its own. -/
theorem encode_reads_back (forest : Forest) (order : GroupingOrder)
    (few30 : (forest.trees.toList.countP fun tree => tree.depth == 30) < 4)
    (few31 : (forest.trees.toList.countP fun tree => tree.depth == 31) < 4) :
    ∃ encoded, forest.encode order = .ok encoded ∧
      encoded.featureCount = forest.featureCount ∧
      ∃ stands, standsOf encoded.stream encoded.leaves = .ok stands ∧
        stands.map Stand.block = encoded.blocks ∧
        (stands.flatMap Stand.trees).flatMap (fun tree => tree.leaves.toList) =
          encoded.leaves.toList ∧
        PackingOrder order forest.trees.toList (stands.flatMap Stand.trees) ∧
        ∀ depth,
          ((stands.filter fun stand => stand.block.depth == depth).map
              fun stand => (stand.block.kind, stand.trees.length)) =
            List.replicate ((forest.trees.toList.countP fun tree => tree.depth == depth) / 4)
                (.grouped, 4) ++
              List.replicate ((forest.trees.toList.countP fun tree => tree.depth == depth) % 4)
                (if 4 ≤ depth then .chunks else .scalar, 1) := by
  obtain ⟨encoded, compiled⟩ : ∃ encoded, forest.encode order = .ok encoded :=
    encode_is_ok (counted_of_few few30 few31)
  obtain ⟨featureCount, packed⟩ := stands_of_encode compiled
  obtain ⟨stands, read, blocks, -, table, -⟩ := encoded.reads_as_trees
  obtain rfl := Except.ok.inj (read.symm.trans packed)
  refine ⟨encoded, compiled, featureCount, _, packed, blocks, table, ?_, ?_⟩
  · rw [List.flatMap_map]
    have listed := packs_trees order forest.trees.toList
    simp only [Pack.stand, listed]
    exact listing_packing_order _ _
  · intro depth
    rw [List.filter_map, List.map_map]
    exact filter_packs_shapes depth

/-- Five leaves, of which four become a group. -/
theorem encode_reads_back_leaves :
    let leaf (value : Float) : Tree := ⟨[], #[value], by decide, rfl⟩
    let trees := [leaf 1.0, leaf 2.0, leaf 3.0, leaf 4.0, leaf 5.0]
    ∃ forest : Forest, forest.featureCount = 0 ∧ forest.trees.toList = trees ∧
      (trees.countP fun tree => tree.depth == 30) < 4 ∧
      (trees.countP fun tree => tree.depth == 31) < 4 ∧
      ∃ encoded, forest.encode .encounter = .ok encoded ∧ encoded.featureCount = 0 ∧
        ∃ stands, standsOf encoded.stream encoded.leaves = .ok stands ∧
          stands.map Stand.block = encoded.blocks ∧
          PackingOrder .encounter trees (stands.flatMap Stand.trees) ∧
          ((stands.filter fun stand => stand.block.depth == 0).map
              fun stand => (stand.block.kind, stand.trees.length)) =
            [(.grouped, 4), (.scalar, 1)] := by
  intro leaf trees
  let forest : Forest :=
    { featureCount := 0, trees := trees.toArray, fits := by simp [Tree.Fits, trees, leaf] }
  have few30 : (trees.countP fun tree => tree.depth == 30) < 4 := by decide
  have few31 : (trees.countP fun tree => tree.depth == 31) < 4 := by decide
  obtain ⟨encoded, compiled, featureCount, stands, read, blocks, -, ordered, shapes⟩ :=
    encode_reads_back forest .encounter few30 few31
  have packed := shapes 0
  have five : (forest.trees.toList.countP fun tree => tree.depth == 0) = 5 := by decide
  rw [five] at packed
  exact ⟨forest, rfl, rfl, few30, few31, encoded, compiled, featureCount, stands, read, blocks,
    ordered, packed⟩

end SymmetricTrees
