import SymmetricTrees.Grouping
import SymmetricTrees.Proofs.BlockLayouts
import SymmetricTrees.Proofs.StreamWriting
import SymmetricTrees.Proofs.TreeReading

/-!
What the encoding of a forest writes. Its trees become packs: four trees of one
depth, or a tree left over. A pack is one block whose records spell the splits
of its trees, and its leaf values follow those of the packs before it, so that
the packs are read back from the stream and the leaf table as they are.
-/

set_option autoImplicit false

namespace SymmetricTrees

open BlockStream Grouping

/-- What becomes one block. -/
inductive Pack where
  | group (trees : Quad Tree)
  | alone (tree : Tree)

namespace Pack

def trees : Pack → List Tree
  | group trees => trees.toList
  | alone tree => [tree]

def block : Pack → Block
  | group trees => ⟨.grouped, trees.lane0.splits.length, trees.lane0.depth_le⟩
  | alone tree =>
      ⟨if minimumChunkedDepth ≤ tree.depth then .chunks else .scalar, tree.splits.length,
        tree.depth_le⟩

def records : Pack → Records
  | group trees =>
      ⟨(Quad.zip trees.lane0.splits trees.lane1.splits trees.lane2.splits
        trees.lane3.splits).map WideSplit.ofSplits, []⟩
  | alone tree =>
      if minimumChunkedDepth ≤ tree.depth then
        ⟨(Quad.groups tree.splits).1.map WideSplit.ofSplits, (Quad.groups tree.splits).2⟩
      else ⟨[], tree.splits⟩

def entry (pack : Pack) : Entry := ⟨pack.block, pack.records⟩

def stand (pack : Pack) : Stand := ⟨pack.block, pack.trees⟩

def leaves (pack : Pack) : List Float := pack.trees.flatMap fun tree => tree.leaves.toList

def Uniform (pack : Pack) : Prop := ∀ tree ∈ pack.trees, tree.depth = pack.block.depth

variable {pack : Pack}

theorem entry_alone (tree : Tree) :
    (alone tree).entry =
      if minimumChunkedDepth ≤ tree.depth then .chunked tree.splits tree.depth_le
      else .scalar tree.splits tree.depth_le := by
  simp only [entry, block, records]
  split
  · rfl
  · rfl

theorem lengths_of_uniform {trees : Quad Tree} (uniform : (group trees).Uniform) :
    ∀ splits ∈ (trees.map Tree.splits).toList, splits.length = trees.lane0.splits.length := by
  change ∀ splits ∈ trees.toList.map Tree.splits, splits.length = trees.lane0.splits.length
  rw [List.forall_mem_map]
  exact uniform

theorem split_lists_entry (uniform : pack.Uniform) :
    pack.entry.splitLists = pack.trees.map Tree.splits := by
  cases pack with
  | group trees => exact Entry.grouped_split_lists (lengths_of_uniform uniform)
  | alone tree =>
      rw [entry_alone]
      split
      · exact Entry.chunked_split_lists
      · exact Entry.scalar_split_lists

theorem entry_complete (uniform : pack.Uniform) : pack.entry.Complete := by
  cases pack with
  | group trees => exact Entry.grouped_complete (lengths_of_uniform uniform)
  | alone tree =>
      rw [entry_alone]
      split
      · exact Entry.chunked_complete
      · exact Entry.scalar_complete

theorem length_trees (pack : Pack) : pack.trees.length = pack.block.kind.treeCount := by
  cases pack with
  | group trees => rfl
  | alone tree =>
      simp only [block]
      split
      · rfl
      · rfl

theorem length_leaves (uniform : pack.Uniform) : pack.leaves.length = pack.block.leafCount := by
  have sizes : ∀ tree ∈ pack.trees, tree.leaves.toList.length = 1 <<< pack.block.depth := by
    intro tree member
    rw [Array.length_toList, tree.leaves_size]
    exact congrArg (1 <<< ·) (uniform tree member)
  rw [leaves, List.length_flatMap, List.map_congr_left sizes, List.map_const',
    List.sum_replicate_nat, length_trees, Block.leafCount, Nat.one_shiftLeft, Nat.shiftLeft_eq]

end Pack

namespace Grouping.Output

/-- The bytes and the leaf values that are appended. -/
structure Adds (before after : Output) (bytes : List UInt8) (leaves : List Float) : Prop where
  bytes : after.writer.toList = before.writer.toList ++ bytes
  leaves : after.leaves.toList = before.leaves.toList ++ leaves

theorem Adds.trans {before middle after : Output} {bytes moreBytes : List UInt8}
    {leaves moreLeaves : List Float} (first : Adds before middle bytes leaves)
    (second : Adds middle after moreBytes moreLeaves) :
    Adds before after (bytes ++ moreBytes) (leaves ++ moreLeaves) where
  bytes := by rw [second.bytes, first.bytes, List.append_assoc]
  leaves := by rw [second.leaves, first.leaves, List.append_assoc]

theorem adds_foldl {Value : Type} {step : Output → Value → Output} {bytes : Value → List UInt8}
    {leaves : Value → List Float} {values : List Value}
    (adds : ∀ value ∈ values, ∀ output,
      Adds output (step output value) (bytes value) (leaves value))
    (output : Output) :
    Adds output (values.foldl step output) (values.flatMap bytes) (values.flatMap leaves) := by
  induction values generalizing output with
  | nil => exact ⟨(List.append_nil _).symm, (List.append_nil _).symm⟩
  | cons value rest induction =>
      obtain ⟨here, later⟩ := List.forall_mem_cons.mp adds
      exact (here output).trans (induction later (step output value))

theorem flat_map_none {Value Other : Type} (values : List Value) :
    (values.flatMap fun _ => ([] : List Other)) = [] :=
  List.flatMap_eq_nil_iff.mpr fun _ _ => rfl

theorem adds_record {Value : Type} (output : Output) (layout : Layout Value) (value : Value) :
    Adds output { output with writer := output.writer.write layout value }
      (layout.encodePadded value) [] where
  bytes := Writer.to_list_write _ _ _
  leaves := (List.append_nil _).symm

theorem adds_wides (splits : List (Quad Split)) (output : Output) :
    Adds output (splits.foldl wide output)
      ((splits.map WideSplit.ofSplits).flatMap WideSplit.layout.encodePadded) [] := by
  have adds := @adds_foldl _ wide
    (fun quad => WideSplit.layout.encodePadded (WideSplit.ofSplits quad)) (fun _ => []) splits
    (fun quad _ output => adds_record output WideSplit.layout (WideSplit.ofSplits quad)) output
  rw [List.flatMap_map]
  rw [flat_map_none] at adds
  exact adds

theorem adds_singles (splits : List Split) (output : Output) :
    Adds output (splits.foldl single output) (splits.flatMap splitLayout.encodePadded) [] := by
  have adds := @adds_foldl _ single splitLayout.encodePadded (fun _ => []) splits
    (fun split _ output => adds_record output splitLayout split) output
  rw [flat_map_none] at adds
  exact adds

theorem adds_tree (tree : Tree) (output : Output) :
    Adds output (output.appendLeaves tree) [] tree.leaves.toList where
  bytes := (List.append_nil _).symm
  leaves := Array.toList_append

theorem adds_trees (trees : List Tree) (output : Output) :
    Adds output (trees.foldl appendLeaves output) []
      (trees.flatMap fun tree => tree.leaves.toList) := by
  have adds := @adds_foldl _ appendLeaves (fun _ => []) (fun tree => tree.leaves.toList) trees
    (fun tree _ output => adds_tree tree output) output
  rw [flat_map_none] at adds
  exact adds

theorem adds_group {trees : Quad Tree} {depth : Nat} (same : trees.lane0.depth = depth)
    (output : Output) :
    Adds output (output.group depth trees) (Pack.group trees).entry.bytes
      (Pack.group trees).leaves := by
  subst same
  have header := adds_record output Header.layout (Pack.group trees).block.header
  have levels := header.trans (adds_wides
    (Quad.zip trees.lane0.splits trees.lane1.splits trees.lane2.splits trees.lane3.splits) _)
  have whole := levels.trans (adds_trees trees.toList _)
  simp only [List.nil_append, List.append_nil] at whole
  simp only [Entry.bytes, Entry.recordBytes, Pack.entry, Pack.records, List.flatMap_nil,
    List.append_nil]
  exact whole

theorem adds_leftover (tree : Tree) (output : Output) :
    Adds output (output.leftover tree) (Pack.alone tree).entry.bytes (Pack.alone tree).leaves := by
  have header := adds_record output Header.layout (Pack.alone tree).block.header
  have leaves : (Pack.alone tree).leaves = tree.leaves.toList := List.append_nil _
  rw [leaves]
  by_cases deep : minimumChunkedDepth ≤ tree.depth
  · have wide := header.trans (adds_wides (Quad.groups tree.splits).1 _)
    have single := wide.trans (adds_singles (Quad.groups tree.splits).2 _)
    have whole := single.trans (adds_tree tree _)
    simp only [List.nil_append, List.append_nil, List.append_assoc] at whole
    simp only [Entry.bytes, Entry.recordBytes, Pack.entry, Pack.records, if_pos deep]
    simp only [Pack.block, if_pos deep] at whole ⊢
    rw [leftover, if_pos deep]
    exact whole
  · have single := header.trans (adds_singles tree.splits _)
    have whole := single.trans (adds_tree tree _)
    simp only [List.nil_append, List.append_nil] at whole
    simp only [Entry.bytes, Entry.recordBytes, Pack.entry, Pack.records, if_neg deep,
      List.flatMap_nil, List.nil_append]
    simp only [Pack.block, if_neg deep] at whole ⊢
    rw [leftover, if_neg deep]
    exact whole

end Grouping.Output

namespace Grouping

def packsOfDepth (trees : List Tree) : List Pack :=
  (Quad.groups trees).1.map .group ++ (Quad.groups trees).2.map .alone

def packs (order : GroupingOrder) (trees : List Tree) : List Pack :=
  depths.flatMap fun depth => packsOfDepth (bucket order trees depth)

def listing (order : GroupingOrder) (trees : List Tree) : List Tree :=
  depths.flatMap (bucket order trees)

theorem mem_arrange {order : GroupingOrder} {trees : List Tree} {tree : Tree} :
    tree ∈ arrange order trees ↔ tree ∈ trees := by
  cases order with
  | encounter => exact Iff.rfl
  | sorted => exact List.mem_mergeSort

theorem mem_bucket {order : GroupingOrder} {trees : List Tree} {depth : Nat} {tree : Tree} :
    tree ∈ bucket order trees depth ↔ tree ∈ trees ∧ tree.depth = depth := by
  rw [bucket, mem_arrange, List.mem_filter, beq_iff_eq]

theorem packs_of_depth_trees (trees : List Tree) :
    (packsOfDepth trees).flatMap Pack.trees = trees := by
  have alone : (Quad.groups trees).2.flatMap (fun tree => (Pack.alone tree).trees) =
      (Quad.groups trees).2 := List.flatMap_singleton' _
  rw [packsOfDepth, List.flatMap_append, List.flatMap_map, List.flatMap_map, alone]
  exact Quad.groups_append trees

theorem packs_trees (order : GroupingOrder) (trees : List Tree) :
    (packs order trees).flatMap Pack.trees = listing order trees := by
  rw [packs, List.flatMap_assoc, listing]
  apply congrArg (depths.flatMap ·)
  funext depth
  exact packs_of_depth_trees _

theorem packs_of_depth_uniform {trees : List Tree} {depth : Nat}
    (same : ∀ tree ∈ trees, tree.depth = depth) :
    ∀ pack ∈ packsOfDepth trees, pack.block.depth = depth ∧ pack.Uniform := by
  intro pack member
  have inside : ∀ tree ∈ pack.trees, tree.depth = depth := by
    intro tree packed
    apply same
    rw [← packs_of_depth_trees trees]
    exact List.mem_flatMap_of_mem member packed
  have depth : pack.block.depth = depth := by
    cases pack with
    | group trees => exact inside trees.lane0 List.mem_cons_self
    | alone tree => exact inside tree List.mem_cons_self
  exact ⟨depth, fun tree packed => (inside tree packed).trans depth.symm⟩

theorem packs_uniform {order : GroupingOrder} {trees : List Tree} :
    ∀ pack ∈ packs order trees, pack.Uniform := by
  intro pack member
  obtain ⟨depth, -, packed⟩ := List.mem_flatMap.mp member
  have same : ∀ tree ∈ bucket order trees depth, tree.depth = depth :=
    fun tree held => (mem_bucket.mp held).2
  exact (packs_of_depth_uniform same pack packed).2

namespace Output

theorem adds_depth_class {trees : List Tree} {depth : Nat}
    (same : ∀ tree ∈ trees, tree.depth = depth) (output : Output) :
    Adds output (output.depthClass depth trees)
      ((packsOfDepth trees).flatMap fun pack => pack.entry.bytes)
      ((packsOfDepth trees).flatMap Pack.leaves) := by
  have groups := @adds_foldl _ (fun written trees => written.group depth trees)
    (fun trees => (Pack.group trees).entry.bytes) (fun trees => (Pack.group trees).leaves)
    (Quad.groups trees).1 (fun quad member written => adds_group
      (packs_of_depth_uniform same (.group quad)
        (List.mem_append_left _ (List.mem_map_of_mem member))).1 written) output
  have leftovers := @adds_foldl _ leftover (fun tree => (Pack.alone tree).entry.bytes)
    (fun tree => (Pack.alone tree).leaves) (Quad.groups trees).2
    (fun tree _ written => adds_leftover tree written)
  simp only [packsOfDepth, List.flatMap_append, List.flatMap_map]
  exact groups.trans (leftovers _)

end Output

theorem encode_eq (forest : Forest) (order : GroupingOrder) :
    ∃ stream leaves, forest.encode order =
        EncodedForest.ofParts stream leaves forest.featureCount ∧
      stream = (packs order forest.trees.toList).flatMap (fun pack => pack.entry.bytes) ∧
      leaves.toList = (packs order forest.trees.toList).flatMap Pack.leaves := by
  have adds := @Output.adds_foldl _
    (fun output depth => output.depthClass depth (bucket order forest.trees.toList depth))
    (fun depth => (packsOfDepth (bucket order forest.trees.toList depth)).flatMap
      fun pack => pack.entry.bytes)
    (fun depth => (packsOfDepth (bucket order forest.trees.toList depth)).flatMap Pack.leaves)
    depths (fun depth _ output => Output.adds_depth_class
      (fun tree held => (mem_bucket.mp held).2) output) {}
  refine ⟨_, _, rfl, ?_, ?_⟩
  · rw [packs, List.flatMap_assoc]
    exact adds.bytes
  · rw [packs, List.flatMap_assoc]
    exact adds.leaves

end Grouping

namespace BlockStream

theorem read_trees_trees (trees : List Tree) (rest : List Float) :
    readTrees (trees.map Tree.splits) (trees.flatMap (fun tree => tree.leaves.toList) ++ rest) =
      .ok (trees, rest) := by
  induction trees with
  | nil => rfl
  | cons tree others induction =>
      have own : tree.leaves.toList.length = 2 ^ tree.splits.length := by
        rw [Array.length_toList, tree.leaves_size, Nat.one_shiftLeft]
      have built : Tree.ofParts tree.splits tree.leaves = .ok tree :=
        Tree.of_parts_eq_ok tree.depth_le tree.leaves_size
      rw [List.map_cons, List.flatMap_cons, List.append_assoc]
      simp only [readTrees, List.take_left' own, List.drop_left' own, Array.toArray_toList, built,
        induction]

theorem read_stands_packs {packs : List Pack} (uniform : ∀ pack ∈ packs, pack.Uniform) :
    readStands (packs.map Pack.entry) (packs.flatMap Pack.leaves) =
      .ok (packs.map Pack.stand) := by
  induction packs with
  | nil => rfl
  | cons pack others induction =>
      obtain ⟨here, later⟩ := List.forall_mem_cons.mp uniform
      have read := read_trees_trees pack.trees (others.flatMap Pack.leaves)
      rw [List.map_cons, List.flatMap_cons, readStands, Pack.split_lists_entry here]
      simp only [Pack.leaves] at read ⊢
      rw [read]
      simp only
      rw [induction later]
      rfl

end BlockStream

namespace Grouping

variable {forest : Forest} {order : GroupingOrder}

/-- The stands of an encoded forest are its packs. -/
theorem stands_of_encode {encoded : EncodedForest} (compiled : forest.encode order = .ok encoded) :
    encoded.featureCount = forest.featureCount ∧
      standsOf encoded.stream encoded.leaves =
        .ok ((packs order forest.trees.toList).map Pack.stand) := by
  obtain ⟨stream, leaves, encode, bytes, table⟩ := encode_eq forest order
  rw [encode] at compiled
  obtain ⟨rfl, rfl, featureCount⟩ := EncodedForest.parts_of_of_parts compiled
  obtain ⟨visits, last, reads, -⟩ := encoded.reads
  have complete : ∀ entry ∈ (packs order forest.trees.toList).map Pack.entry, entry.Complete := by
    intro entry member
    obtain ⟨pack, packed, rfl⟩ := List.mem_map.mp member
    exact Pack.entry_complete (packs_uniform pack packed)
  have written : encoded.stream =
      ((packs order forest.trees.toList).map Pack.entry).flatMap Entry.bytes := by
    rw [bytes, List.flatMap_map]
  have entries : visits.map Visit.entry = (packs order forest.trees.toList).map Pack.entry := by
    rw [Reader.ofBytes, written] at reads
    exact Entry.entries_of_reads complete reads
  refine ⟨featureCount, ?_⟩
  rw [standsOf, reads.entries_from, entries, table]
  exact read_stands_packs packs_uniform

theorem mem_of_packs {trees : List Tree} {pack : Pack} (member : pack ∈ packs order trees)
    {tree : Tree} (packed : tree ∈ pack.trees) : tree ∈ trees := by
  obtain ⟨depth, -, here⟩ := List.mem_flatMap.mp member
  have held : tree ∈ bucket order trees depth := by
    rw [← packs_of_depth_trees (bucket order trees depth)]
    exact List.mem_flatMap_of_mem here packed
  exact (mem_bucket.mp held).1

theorem entry_within {pack : Pack} (packed : pack ∈ packs order forest.trees.toList) :
    pack.entry.records.Within forest.featureCount := by
  have uniform := packs_uniform pack packed
  rw [Entry.within_iff (Pack.entry_complete uniform), Pack.split_lists_entry uniform]
  intro splits held
  obtain ⟨tree, own, rfl⟩ := List.mem_map.mp held
  exact forest.fits tree (Array.mem_toList_iff.mp (mem_of_packs packed own))

/-- A forest is encoded if the header of each pack can count its leaf values. -/
theorem encode_is_ok
    (counted : ∀ pack ∈ packs order forest.trees.toList, pack.block.leafCount < 2 ^ 32) :
    ∃ encoded, forest.encode order = .ok encoded := by
  obtain ⟨stream, leaves, encode, bytes, table⟩ := encode_eq forest order
  have complete : ∀ entry ∈ (packs order forest.trees.toList).map Pack.entry, entry.Complete :=
    List.forall_mem_map.mpr fun pack packed => Pack.entry_complete (packs_uniform pack packed)
  have written : stream =
      ((packs order forest.trees.toList).map Pack.entry).flatMap Entry.bytes := by
    rw [bytes, List.flatMap_map]
  obtain ⟨visits, last, reads, entries⟩ :=
    Entry.reads_of_bytes complete (List.forall_mem_map.mpr counted) 0 0
  rw [← written] at reads
  have within : ∀ visit ∈ visits, visit.records.Within forest.featureCount := by
    intro visit visited
    have member : visit.entry ∈ (packs order forest.trees.toList).map Pack.entry := by
      rw [← entries]
      exact List.mem_map_of_mem visited
    obtain ⟨pack, packed, same⟩ := List.mem_map.mp member
    have inside := entry_within packed
    rw [same] at inside
    exact inside
  have total : leafTotal visits = leaves.size := by
    have sizes : (packs order forest.trees.toList).map (fun pack => pack.leaves.length) =
        (packs order forest.trees.toList).map fun pack => pack.entry.block.leafCount :=
      List.map_congr_left fun pack packed => Pack.length_leaves (packs_uniform pack packed)
    have counts := congrArg
      (fun entries : List Entry => (entries.map fun entry => entry.block.leafCount).sum) entries
    simp only [List.map_map] at counts
    rw [← Array.length_toList, table, List.length_flatMap, sizes]
    exact counts
  have checked := EncodedForest.check_eq_ok reads within total
  rw [encode]
  exact ⟨_, EncodedForest.of_parts_eq_ok checked⟩

theorem length_bucket (order : GroupingOrder) (trees : List Tree) (depth : Nat) :
    (bucket order trees depth).length = trees.countP fun tree => tree.depth == depth := by
  rw [List.countP_eq_length_filter]
  cases order with
  | encounter => rfl
  | sorted => exact List.length_mergeSort _

/-- Only four trees of depth 30 or 31 have more leaf values than a header counts. -/
theorem counted_of_few {trees : List Tree}
    (few30 : (trees.countP fun tree => tree.depth == 30) < 4)
    (few31 : (trees.countP fun tree => tree.depth == 31) < 4) :
    ∀ pack ∈ packs order trees, pack.block.leafCount < 2 ^ 32 := by
  intro pack member
  obtain ⟨depth, -, here⟩ := List.mem_flatMap.mp member
  have same := (packs_of_depth_uniform (fun tree held => (mem_bucket.mp held).2) pack here).1
  have shallow := pack.block.depth_le
  rw [same] at shallow
  simp only [maxDepth] at shallow
  rw [Block.leafCount, same, Nat.shiftLeft_eq]
  cases pack with
  | alone tree =>
      have one : (Pack.alone tree).block.kind.treeCount = 1 := by
        simp only [Pack.block]
        split <;> rfl
      have power : 2 ^ depth ≤ 2 ^ 31 := Nat.pow_le_pow_right (by decide) shallow
      rw [one]
      omega
  | group quad =>
      have grouped : quad ∈ (Quad.groups (bucket order trees depth)).1 := by
        rcases List.mem_append.mp here with groups | leftovers
        · obtain ⟨own, held, same⟩ := List.mem_map.mp groups
          cases same
          exact held
        · obtain ⟨tree, -, same⟩ := List.mem_map.mp leftovers
          cases same
      have many : 4 ≤ trees.countP fun tree => tree.depth == depth := by
        have some := List.length_pos_of_mem grouped
        have count := (Quad.length_groups (bucket order trees depth)).1
        rw [length_bucket] at count
        omega
      have below : depth ≤ 29 := by
        have not30 : depth ≠ 30 := by
          rintro rfl
          omega
        have not31 : depth ≠ 31 := by
          rintro rfl
          omega
        omega
      have power : 2 ^ depth ≤ 2 ^ 29 := Nat.pow_le_pow_right (by decide) below
      have four : (Pack.group quad).block.kind.treeCount = 4 := rfl
      rw [four]
      omega

end Grouping

end SymmetricTrees
