import Mathlib.Algebra.BigOperators.Group.Finset.Basic
import SymmetricTrees.Proofs.Encoding
import SymmetricTrees.Proofs.EncodingLimits
import SymmetricTrees.Proofs.JoinedStreams

/-!
What the statistics of an encoded forest count. They are taken from the stream
and not from the encoding, yet the depths of the trees tell all of them: of the
trees of one depth every four share a block, and each of the others has a block
of its own, in chunks from depth four on. The order in which trees are packed
does not matter.
-/

set_option autoImplicit false

namespace SymmetricTrees

open BlockStream Grouping

namespace Forest

def countOfDepth (forest : Forest) (depth : Nat) : Nat :=
  forest.trees.toList.countP fun tree => tree.depth == depth

def depthsOfTrees (forest : Forest) : Finset Nat :=
  (forest.trees.toList.map Tree.depth).toFinset

/-- What the depths of its trees tell of the encoding of a forest. -/
def statisticsByDepth (forest : Forest) : Statistics where
  treeCount := forest.trees.size
  scalarBlocks := ∑ depth ∈ forest.depthsOfTrees with depth < 4, forest.countOfDepth depth % 4
  chunkBlocks := ∑ depth ∈ forest.depthsOfTrees with 4 ≤ depth, forest.countOfDepth depth % 4
  groupBlocks := ∑ depth ∈ forest.depthsOfTrees, forest.countOfDepth depth / 4
  leafCount := (forest.trees.toList.map fun tree => 2 ^ tree.depth).sum

variable {forest : Forest}

theorem count_of_depth_eq_zero {depth : Nat} (absent : depth ∉ forest.depthsOfTrees) :
    forest.countOfDepth depth = 0 := by
  apply List.countP_eq_zero.mpr
  intro tree held same
  apply absent
  rw [depthsOfTrees, List.mem_toFinset, ← eq_of_beq same]
  exact List.mem_map_of_mem held

/-- What is nothing for a depth without trees needs to be summed over the depths
that occur only. -/
theorem sum_depths (forest : Forest) {term : Nat → Nat}
    (nothing : ∀ depth, forest.countOfDepth depth = 0 → term depth = 0) :
    (Grouping.depths.map term).sum = ∑ depth ∈ forest.depthsOfTrees, term depth := by
  have distinct : Grouping.depths.Nodup := List.nodup_range
  rw [← List.sum_toFinset term distinct]
  symm
  apply Finset.sum_subset
  · intro depth present
    rw [depthsOfTrees, List.mem_toFinset, List.mem_map] at present
    rcases present with ⟨tree, -, same⟩
    rw [List.mem_toFinset, Grouping.depths, List.mem_range, ← same]
    exact Nat.lt_succ_of_le tree.depth_le
  · intro depth _ absent
    exact nothing depth (count_of_depth_eq_zero absent)

end Forest

theorem EncodedForest.block_count_statistics (encoded : EncodedForest) :
    encoded.statistics.blockCount = encoded.blockCount := by
  have kinds : ∀ kinds : List Kind,
      kinds.count .scalar + kinds.count .chunks + kinds.count .grouped = kinds.length := by
    intro kinds
    induction kinds with
    | nil => rfl
    | cons kind rest induction =>
        rw [List.length_cons, ← induction]
        cases kind with
        | scalar => simp; omega
        | chunks => simp; omega
        | grouped => simp; omega
  rw [← encoded.length_blocks, ← List.length_map Block.kind, ← kinds]
  rfl

namespace Grouping

variable {forest : Forest} {order : GroupingOrder} {encoded : EncodedForest}

theorem blocks_encode (compiled : forest.encode order = .ok encoded) :
    encoded.blocks = (packs order forest.trees.toList).map Pack.block := by
  rcases stands_of_encode compiled with ⟨-, packed⟩
  rcases encoded.reads_as_trees with ⟨stands, read, blocks, -⟩
  have same := Except.ok.inj (read.symm.trans packed)
  rw [← blocks, same, List.map_map]
  rfl

theorem leftover_kind_eq_scalar_iff {depth : Nat} : leftoverKind depth = .scalar ↔ depth < 4 := by
  by_cases deep : 4 ≤ depth
  · simp [leftoverKind, minimumChunkedDepth, deep]
  · simp [leftoverKind, minimumChunkedDepth, deep, Nat.not_le.mp deep]

theorem leftover_kind_eq_chunks_iff {depth : Nat} : leftoverKind depth = .chunks ↔ 4 ≤ depth := by
  by_cases deep : 4 ≤ depth
  · simp [leftoverKind, minimumChunkedDepth, deep]
  · simp [leftoverKind, minimumChunkedDepth, deep]

theorem leftover_kind_ne_grouped (depth : Nat) : leftoverKind depth ≠ .grouped := by
  by_cases deep : 4 ≤ depth
  · simp [leftoverKind, minimumChunkedDepth, deep]
  · simp [leftoverKind, minimumChunkedDepth, deep]

/-- The kinds of the blocks of one depth are told by the number of its trees. -/
theorem kinds_packs (forest : Forest) (order : GroupingOrder) :
    (packs order forest.trees.toList).map (fun pack => pack.block.kind) =
      depths.flatMap fun depth =>
        List.replicate (forest.countOfDepth depth / 4) .grouped ++
          List.replicate (forest.countOfDepth depth % 4) (leftoverKind depth) := by
  rw [packs, List.map_flatMap]
  apply congrArg (depths.flatMap ·)
  funext depth
  have same : ∀ tree ∈ bucket order forest.trees.toList depth, tree.depth = depth :=
    fun tree held => (mem_bucket.mp held).2
  have shapes := congrArg (List.map Prod.fst) (packs_of_depth_shapes same)
  simp only [List.map_map, List.map_append, List.map_replicate, length_bucket] at shapes
  exact shapes

theorem count_kinds (forest : Forest) (order : GroupingOrder) (kind : Kind) :
    ((packs order forest.trees.toList).map fun pack => pack.block.kind).count kind =
      ∑ depth ∈ forest.depthsOfTrees,
        ((if Kind.grouped = kind then forest.countOfDepth depth / 4 else 0) +
          if leftoverKind depth = kind then forest.countOfDepth depth % 4 else 0) := by
  rw [kinds_packs, List.count_flatMap, ← forest.sum_depths]
  · apply congrArg List.sum
    apply List.map_congr_left
    intro depth _
    simp only [Function.comp_apply, List.count_append, List.count_replicate, beq_iff_eq]
  · intro depth none
    simp only [none, Nat.zero_div, Nat.zero_mod, ite_self, Nat.add_zero]

theorem ascending_packs (order : GroupingOrder) (trees : List Tree) :
    ((packs order trees).map fun pack => pack.block.depth).Pairwise (· ≤ ·) := by
  have depthOf : ∀ depth, ∀ pack ∈ packsOfDepth (bucket order trees depth),
      pack.block.depth = depth := fun depth pack packed =>
    (packs_of_depth_uniform (fun tree held => (mem_bucket.mp held).2) pack packed).1
  apply List.pairwise_map.mpr
  apply List.pairwise_flatMap.mpr
  constructor
  · intro depth _
    apply List.pairwise_of_forall_mem_list
    intro earlier earlierPacked later laterPacked
    rw [depthOf depth earlier earlierPacked, depthOf depth later laterPacked]
  · apply List.pairwise_lt_range.imp
    intro shallower deeper below earlier earlierPacked later laterPacked
    rw [depthOf shallower earlier earlierPacked, depthOf deeper later laterPacked]
    exact Nat.le_of_lt below

theorem exists_encode_of_encode (compiled : forest.encode order = .ok encoded)
    (other : GroupingOrder) : ∃ again, forest.encode other = .ok again := by
  have counted : ∀ pack ∈ packs order forest.trees.toList, pack.block.leafCount < 2 ^ 32 := by
    intro pack packed
    by_contra uncounted
    rcases encode_of_uncounted packed uncounted with ⟨offset, refused⟩
    rw [compiled] at refused
    cases refused
  apply encode_is_ok
  exact counted_iff_few.mpr (counted_iff_few.mp counted)

theorem tree_count_encode (compiled : forest.encode order = .ok encoded) :
    encoded.treeCount = forest.trees.size := by
  have held := congrArg List.length (packs_trees order forest.trees.toList)
  rw [List.length_flatMap, listing_perm.length_eq, Array.length_toList] at held
  rw [encoded.tree_count_eq_sum, blocks_encode compiled, List.map_map, ← held]
  apply congrArg List.sum
  apply List.map_congr_left
  intro pack _
  exact pack.length_trees.symm

theorem leaf_count_encode (compiled : forest.encode order = .ok encoded) :
    encoded.leaves.size = (forest.trees.toList.map fun tree => 2 ^ tree.depth).sum := by
  have sizes : ∀ tree : Tree, tree.leaves.toList.length = 2 ^ tree.depth := by
    intro tree
    rw [Array.length_toList, tree.leaves_size, Nat.one_shiftLeft, Tree.depth]
  rcases stands_of_encode compiled with ⟨-, packed⟩
  rcases encoded.reads_as_trees with ⟨stands, read, -, -, table, -⟩
  have same := Except.ok.inj (read.symm.trans packed)
  have listed : stands.flatMap Stand.trees = listing order forest.trees.toList := by
    rw [same, List.flatMap_map]
    exact packs_trees order forest.trees.toList
  rw [← Array.length_toList, ← table, listed, List.length_flatMap]
  simp only [sizes]
  exact (listing_perm.map _).sum_nat

theorem statistics_encode (compiled : forest.encode order = .ok encoded) :
    encoded.statistics = forest.statisticsByDepth := by
  have kinds : encoded.blocks.map Block.kind =
      (packs order forest.trees.toList).map fun pack => pack.block.kind := by
    rw [blocks_encode compiled, List.map_map]
    rfl
  have scalar := count_kinds forest order .scalar
  have chunks := count_kinds forest order .chunks
  have grouped := count_kinds forest order .grouped
  simp only [leftover_kind_eq_scalar_iff, leftover_kind_eq_chunks_iff, leftover_kind_ne_grouped,
    reduceCtorEq, if_true, if_false, Nat.zero_add, Nat.add_zero] at scalar chunks grouped
  rw [EncodedForest.statistics, kinds, scalar, chunks, grouped, tree_count_encode compiled,
    leaf_count_encode compiled, Forest.statisticsByDepth, Finset.sum_filter, Finset.sum_filter]

end Grouping

/-- The statistics of an encoded forest are told by the depths of its trees, in
whatever order they are packed. The blocks that they count are all blocks of the
stream, which come by ascending depth. -/
theorem statistics_follow_depths {forest : Forest} {order : GroupingOrder}
    {encoded : EncodedForest} (compiled : forest.encode order = .ok encoded) :
    encoded.statistics = forest.statisticsByDepth ∧
      encoded.statistics.blockCount = encoded.blockCount ∧
      encoded.blocks.length = encoded.blockCount ∧
      (encoded.blocks.map Block.depth).Pairwise (· ≤ ·) ∧
      ∀ other, ∃ again, forest.encode other = .ok again ∧
        again.statistics = encoded.statistics := by
  have statistics := statistics_encode compiled
  refine ⟨statistics, encoded.block_count_statistics, encoded.length_blocks, ?_, ?_⟩
  · rw [blocks_encode compiled, List.map_map]
    exact ascending_packs order forest.trees.toList
  · intro other
    rcases exists_encode_of_encode compiled other with ⟨again, recompiled⟩
    refine ⟨again, recompiled, ?_⟩
    rw [statistics_encode recompiled, statistics]

/-- Five leaves, of which four make a group, and a tree of four splits. -/
theorem statistics_follow_depths_leaves :
    let leaf : Tree := ⟨[], #[2.0], by decide, rfl⟩
    let ladder : Tree :=
      ⟨List.replicate 4 ⟨0, ⟨0x3F000000⟩⟩, Array.replicate 16 0.5, by decide, by decide⟩
    ∃ forest : Forest, forest.trees.toList = [ladder, leaf, leaf, leaf, leaf, leaf] ∧
      ∃ encoded, forest.encode .sorted = .ok encoded ∧
        encoded.statistics = ⟨6, 1, 1, 1, 21⟩ ∧ encoded.blockCount = 3 ∧
        ∃ again, forest.encode .encounter = .ok again ∧ again.statistics = ⟨6, 1, 1, 1, 21⟩ := by
  intro leaf ladder
  let forest : Forest :=
    { featureCount := 1, trees := #[ladder, leaf, leaf, leaf, leaf, leaf]
      fits := by simp [Tree.Fits, ladder, leaf] }
  have few : ∀ depth ∈ [30, 31],
      (forest.trees.toList.countP fun tree => tree.depth == depth) < 4 := by
    decide
  obtain ⟨encoded, compiled⟩ : ∃ encoded, forest.encode .sorted = .ok encoded :=
    encode_is_ok (counted_of_few (few 30 (by simp)) (few 31 (by simp)))
  rcases statistics_follow_depths compiled with ⟨statistics, blocks, -, -, orders⟩
  rcases orders .encounter with ⟨again, recompiled, same⟩
  have counted : forest.statisticsByDepth = ⟨6, 1, 1, 1, 21⟩ := by decide
  rw [counted] at statistics
  refine ⟨forest, rfl, encoded, compiled, statistics, ?_, again, recompiled, ?_⟩
  · rw [← blocks, statistics]
    rfl
  · rw [same, statistics]

end SymmetricTrees
