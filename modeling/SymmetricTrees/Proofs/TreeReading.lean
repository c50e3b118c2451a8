import SymmetricTrees.Proofs.WalkScores

/-!
Trees read off a block stream. A stand is a block with the trees that it holds;
each tree takes its splits from the records of the block and its leaf values
from the front of the table. An accepted stream always reads as trees, and a row
scores the sum of the values of these trees, one after the other.
-/

set_option autoImplicit false

namespace SymmetricTrees

structure Stand where
  block : BlockStream.Block
  trees : List Tree

namespace BlockStream

def entriesFrom (reader : Reader) : List Entry :=
  match _next : reader.nextBlock? with
  | (none, _) => []
  | (some block, body) =>
      match _taken : body.readRecords? block with
      | none => []
      | some (records, after) => ⟨block, records⟩ :: entriesFrom after
termination_by reader.rest.length
decreasing_by
  have header := Reader.next_block?_length _next
  have block := Reader.read_records?_length _taken
  omega

/-- Trees with the given splits, each taking the next `2 ^ depth` leaf values;
also the values left over. -/
def readTrees : List (List Split) → List Float → Except TreeError (List Tree × List Float)
  | [], leaves => .ok ([], leaves)
  | splits :: others, leaves =>
      match Tree.ofParts splits (leaves.take (2 ^ splits.length)).toArray with
      | .error error => .error error
      | .ok tree =>
          match readTrees others (leaves.drop (2 ^ splits.length)) with
          | .error error => .error error
          | .ok (trees, rest) => .ok (tree :: trees, rest)

def readStands : List Entry → List Float → Except TreeError (List Stand)
  | [], _ => .ok []
  | entry :: others, leaves =>
      match readTrees entry.splitLists leaves with
      | .error error => .error error
      | .ok (trees, rest) =>
          match readStands others rest with
          | .error error => .error error
          | .ok stands => .ok (⟨entry.block, trees⟩ :: stands)

def standsOf (stream : List UInt8) (leaves : Array Float) : Except TreeError (List Stand) :=
  readStands (entriesFrom (Reader.ofBytes stream)) leaves.toList

def treesOf (stream : List UInt8) (leaves : Array Float) : Except TreeError (List Tree) :=
  (standsOf stream leaves).map fun stands => stands.flatMap Stand.trees

theorem Reads.entries_from {reader last : Reader} {offset : Nat} {visits : List Visit}
    (reads : Reads reader offset visits last) :
    entriesFrom reader = visits.map Visit.entry := by
  induction reads with
  | done exhausted =>
      have next :=
        Reader.next_block?_of_try_next_block (Reader.try_next_block_of_exhausted exhausted)
      rw [BlockStream.entriesFrom]
      split <;> simp_all
  | block header taken _ induction =>
      have next := Reader.next_block?_of_try_next_block header
      rw [BlockStream.entriesFrom]
      split
      · simp_all
      · rename_i found foundBody again
        obtain ⟨rfl, rfl⟩ : found = _ ∧ foundBody = _ := by
          simpa using again.symm.trans next
        split
        · simp_all
        · rename_i records after read
          obtain ⟨rfl, rfl⟩ : records = _ ∧ after = _ := by
            simpa using read.symm.trans taken
          rw [induction, List.map_cons]
          rfl

end BlockStream

theorem Tree.of_parts_eq_ok {splits : List Split} {leaves : Array Float}
    (shallow : splits.length ≤ maxDepth) (dense : leaves.size = 1 <<< splits.length) :
    Tree.ofParts splits leaves = .ok ⟨splits, leaves, shallow, dense⟩ := by
  rw [Tree.ofParts, dif_pos shallow, dif_pos dense]

namespace BlockStream

open Scoring LeafIndex

/-- The sum of the values that trees have for a row, added to a score in order. -/
def addTrees (row : Row) (trees : List Tree) (score : Float) : Float :=
  trees.foldl (fun score tree => score + tree.value row) score

theorem add_trees_append (row : Row) (first second : List Tree) (score : Float) :
    addTrees row (first ++ second) score = addTrees row second (addTrees row first score) :=
  List.foldl_append

theorem leaf_at_eq_value {leaves : Array Float} {start : Nat} {tree : Tree} {row : Row}
    (part : tree.leaves = ((leaves.toList.drop start).take (2 ^ tree.splits.length)).toArray)
    (covers : row.Covers tree.splits) :
    leafAt leaves (start + number row tree.splits) = tree.value row := by
  have value := Tree.leaves_get_elem?_number covers
  rw [part, List.getElem?_toArray, List.getElem?_take_of_lt (number_lt row tree.splits),
    List.getElem?_drop, Array.getElem?_toList] at value
  rw [leafAt, value, Option.getD_some]

theorem read_trees_lanes {leaves : Array Float} {offset depth : Nat} (shallow : depth ≤ maxDepth)
    (lists : List (List Split)) (sized : ∀ splits ∈ lists, splits.length = depth) (lane : Nat)
    (enough : offset + (lane + lists.length) * 2 ^ depth ≤ leaves.size) :
    ∃ trees, readTrees lists (leaves.toList.drop (offset + lane * 2 ^ depth)) =
        .ok (trees, leaves.toList.drop (offset + (lane + lists.length) * 2 ^ depth)) ∧
      trees.map Tree.splits = lists ∧
      trees.flatMap (fun tree => tree.leaves.toList) ++
          leaves.toList.drop (offset + (lane + lists.length) * 2 ^ depth) =
        leaves.toList.drop (offset + lane * 2 ^ depth) ∧
      ∀ row : Row, (∀ splits ∈ lists, row.Covers splits) → ∀ score,
        ((lists.zipIdx lane).map fun (splits, lane) =>
            lane * 2 ^ depth + number row splits).foldl
          (fun score position => score + leafAt leaves (offset + position)) score =
        addTrees row trees score := by
  -- The lane counts the trees that are already read, so it grows as the lists
  -- are used up.
  induction lists generalizing lane with
  | nil => exact ⟨[], rfl, rfl, rfl, fun _ _ _ => rfl⟩
  | cons splits others induction =>
      obtain ⟨length, sizedOthers⟩ := List.forall_mem_cons.mp sized
      have next : offset + (lane + 1) * 2 ^ depth = offset + lane * 2 ^ depth + 2 ^ depth := by
        rw [Nat.succ_mul]
        omega
      have ending : lane + (splits :: others).length = lane + 1 + others.length := by
        rw [List.length_cons]
        omega
      rw [ending] at enough ⊢
      have fits : (lane + 1) * 2 ^ depth ≤ (lane + 1 + others.length) * 2 ^ depth :=
        Nat.mul_le_mul_right _ (by omega)
      have dense : ((leaves.toList.drop (offset + lane * 2 ^ depth)).take
          (2 ^ splits.length)).toArray.size = 1 <<< splits.length := by
        rw [length, List.size_toArray, List.length_take, List.length_drop, Array.length_toList,
          Nat.one_shiftLeft]
        omega
      have within : splits.length ≤ maxDepth := by
        rw [length]
        exact shallow
      have built := Tree.of_parts_eq_ok within dense
      obtain ⟨trees, read, same, whole, scores⟩ := induction sizedOthers (lane + 1) enough
      have rest : (leaves.toList.drop (offset + lane * 2 ^ depth)).drop (2 ^ splits.length) =
          leaves.toList.drop (offset + (lane + 1) * 2 ^ depth) := by
        rw [List.drop_drop, length, next]
      refine ⟨⟨splits, _, within, dense⟩ :: trees, ?_, ?_, ?_, ?_⟩
      · simp only [readTrees, built, rest, read]
      · rw [List.map_cons, same]
      · rw [List.flatMap_cons, List.append_assoc, whole, ← rest]
        exact List.take_append_drop _ _
      · intro row covers score
        obtain ⟨here, later⟩ := List.forall_mem_cons.mp covers
        have value := @leaf_at_eq_value leaves _ ⟨splits, _, within, dense⟩ row rfl here
        rw [List.zipIdx_cons, List.map_cons, List.foldl_cons, scores row later, ← Nat.add_assoc,
          value]
        rfl

theorem Entry.read_trees_split_lists {entry : Entry} (complete : entry.Complete)
    {leaves : Array Float} {offset : Nat}
    (enough : offset + entry.block.leafCount ≤ leaves.size) :
    ∃ trees, readTrees entry.splitLists (leaves.toList.drop offset) =
        .ok (trees, leaves.toList.drop (offset + entry.block.leafCount)) ∧
      trees.map Tree.splits = entry.splitLists ∧
      trees.flatMap (fun tree => tree.leaves.toList) ++
          leaves.toList.drop (offset + entry.block.leafCount) = leaves.toList.drop offset ∧
      ∀ row : Row, (∀ splits ∈ entry.splitLists, row.Covers splits) → ∀ score,
        (entry.positions row).foldl
          (fun score position => score + leafAt leaves (offset + position)) score =
        addTrees row trees score := by
  have count : entry.block.leafCount =
      (0 + entry.splitLists.length) * 2 ^ entry.block.depth := by
    rw [Entry.split_lists_length, Block.leafCount, Nat.shiftLeft_eq, Nat.zero_add]
  rw [count] at enough
  have lanes := read_trees_lanes entry.block.depth_le entry.splitLists
    (fun splits member => Entry.splits_length complete member) 0 enough
  simp only [Nat.zero_mul, Nat.add_zero] at lanes
  rw [count]
  simp only [Entry.positions, Nat.one_shiftLeft]
  exact lanes

theorem WideSplit.features_to_list (record : WideSplit) :
    record.features.toList = record.splits.toList.map Split.feature := rfl

theorem Entry.within_iff {entry : Entry} (complete : entry.Complete) {featureCount : Nat} :
    entry.records.Within featureCount ↔
      ∀ splits ∈ entry.splitLists, ∀ split ∈ splits, split.feature.toNat < featureCount := by
  have wide : (∀ record ∈ entry.records.wide, ∀ feature ∈ record.features.toList,
        feature.toNat < featureCount) ↔
      ∀ quad ∈ entry.records.wide.map WideSplit.splits, ∀ split ∈ quad.toList,
        split.feature.toNat < featureCount := by
    simp only [WideSplit.features_to_list, List.forall_mem_map]
  obtain ⟨⟨kind, depth, shallow⟩, ⟨wideRecords, single⟩⟩ := entry
  obtain ⟨wideLength, singleLength⟩ := complete
  have apart : Records.Within ⟨wideRecords, single⟩ featureCount ↔
      (∀ record ∈ wideRecords, ∀ feature ∈ record.features.toList, feature.toNat < featureCount) ∧
        ∀ split ∈ single, split.feature.toNat < featureCount :=
    ⟨fun within => ⟨within.wide, within.single⟩, fun ⟨wide, single⟩ => ⟨wide, single⟩⟩
  rw [apart, wide]
  cases kind with
  | scalar =>
      obtain rfl := List.eq_nil_of_length_eq_zero wideLength
      simp [splitLists]
  | chunks =>
      simp only [splitLists, List.forall_mem_singleton, List.forall_mem_append,
        List.forall_mem_flatMap]
  | grouped =>
      obtain rfl := List.eq_nil_of_length_eq_zero singleLength
      simp [splitLists, Quad.toList, forall_and]

/-- A stream that takes the rest of the table reads as trees, and the visited
blocks add to a score what their trees add. -/
theorem Reads.read_stands {leaves : Array Float} {featureCount : Nat} {reader last : Reader}
    {offset : Nat} {visits : List Visit} (reads : Reads reader offset visits last)
    (within : ∀ visit ∈ visits, visit.records.Within featureCount)
    (whole : offset + leafTotal visits = leaves.size) :
    ∃ stands, readStands (visits.map Visit.entry) (leaves.toList.drop offset) = .ok stands ∧
      stands.map Stand.block = visits.map (fun visit => visit.block) ∧
      (∀ tree ∈ stands.flatMap Stand.trees, tree.Fits featureCount) ∧
      (stands.flatMap Stand.trees).flatMap (fun tree => tree.leaves.toList) =
        leaves.toList.drop offset ∧
      ∀ row : Row, featureCount ≤ row.size → ∀ score,
        visits.foldl (fun score visit => addVisit leaves row visit score) score =
          addTrees row (stands.flatMap Stand.trees) score := by
  induction reads with
  | @done reader offset exhausted =>
      have finished : offset = leaves.size := whole
      have none : leaves.toList.drop offset = [] := by
        rw [finished, ← Array.length_toList, List.drop_length]
      exact ⟨[], rfl, rfl, fun _ member => absurd member List.not_mem_nil, none.symm,
        fun _ _ _ => rfl⟩
  | @block reader body after last offset block records visits next taken _ induction =>
      obtain ⟨here, later⟩ := List.forall_mem_cons.mp within
      rw [leaf_total_cons, ← Nat.add_assoc] at whole
      obtain ⟨trees, treesRead, splits, treeLeaves, treeScores⟩ :=
        Entry.read_trees_split_lists (Reader.read_records?_complete taken)
          (show offset + block.leafCount ≤ leaves.size by simp only at whole; omega)
      obtain ⟨stands, standsRead, blocks, fits, standLeaves, standScores⟩ := induction later whole
      have inside := (Entry.within_iff (Reader.read_records?_complete taken)).mp here
      refine ⟨⟨block, trees⟩ :: stands, ?_, ?_, ?_, ?_, ?_⟩
      · simp only [List.map_cons, BlockStream.readStands, Visit.entry, treesRead, standsRead]
      · rw [List.map_cons, List.map_cons, blocks]
      · intro tree member
        rw [List.flatMap_cons] at member
        rcases List.mem_append.mp member with own | other
        · exact inside tree.splits (by rw [← splits]; exact List.mem_map_of_mem own)
        · exact fits tree other
      · rw [List.flatMap_cons, List.flatMap_append, standLeaves]
        exact treeLeaves
      · intro row long score
        rw [List.foldl_cons, standScores row long, List.flatMap_cons, add_trees_append]
        refine congrArg _ (treeScores row (fun list member split tested => ?_) score)
        exact Nat.lt_of_lt_of_le (inside list member split tested) long

end BlockStream

namespace EncodedForest

open BlockStream Scoring

/-- An encoded forest reads as trees of declared features that have the leaf
table among them, and every lane-wise backend scores their values in order. -/
theorem reads_as_trees (encoded : EncodedForest) :
    ∃ stands, standsOf encoded.stream encoded.leaves = .ok stands ∧
      stands.map Stand.block = encoded.blocks ∧
      (∀ tree ∈ stands.flatMap Stand.trees, tree.Fits encoded.featureCount) ∧
      (stands.flatMap Stand.trees).flatMap (fun tree => tree.leaves.toList) =
        encoded.leaves.toList ∧
      ∀ ops : LaneOps, ops.LaneWise → ∀ row : Row, encoded.featureCount ≤ row.size →
        encoded.scoreOn ops row = .ok (addTrees row (stands.flatMap Stand.trees) 0.0) := by
  obtain ⟨visits, last, reads, within, -, total⟩ := encoded.reads
  have whole : 0 + leafTotal visits = encoded.leaves.size := by
    rw [Nat.zero_add]
    exact total
  obtain ⟨stands, read, blocks, fits, table, scores⟩ := reads.read_stands within whole
  refine ⟨stands, ?_, ?_, fits, table, ?_⟩
  · rw [standsOf, reads.entries_from]
    exact read
  · rw [blocks, EncodedForest.blocks, reads.blocks_from]
  · intro ops laneWise row long
    have suits := suits_of_reads reads within whole long
    have walked := (row_walker_follows laneWise row).walk_eq reads suits 0.0
    rw [scoreOn, if_pos long, rawScore, walked, scores row long]

end EncodedForest

theorem map_m_predict?_eq_some {trees : List Tree} {row : Row}
    (covers : ∀ tree ∈ trees, row.Covers tree.splits) :
    trees.mapM (fun tree => tree.predict? row) = some (trees.map fun tree => tree.value row) := by
  induction trees with
  | nil => rfl
  | cons tree rest induction =>
      obtain ⟨here, others⟩ := List.forall_mem_cons.mp covers
      simp only [List.mapM_cons, Tree.predict?_eq_some here, induction others, List.map_cons,
        Option.bind_eq_bind, Option.bind_some, Option.pure_def]

/-- Every accepted stream denotes trees, whoever wrote it. They have only
declared features, their leaf values are the table, and the score of a row is
the sum of what they predict for it, in stream order. -/
theorem accepted_stream_denotes_trees {stream : List UInt8} {leaves : Array Float}
    {featureCount : Nat} {encoded : EncodedForest}
    (accepted : EncodedForest.ofParts stream leaves featureCount = .ok encoded) :
    ∃ trees, BlockStream.treesOf stream leaves = .ok trees ∧
      (∀ tree ∈ trees, tree.splits.length ≤ maxDepth ∧
        tree.leaves.size = 2 ^ tree.splits.length ∧ tree.Fits featureCount) ∧
      trees.flatMap (fun tree => tree.leaves.toList) = leaves.toList ∧
      ∀ row : Row, featureCount ≤ row.size →
        ∃ values, trees.mapM (fun tree => tree.predict? row) = some values ∧
          encoded.score .scalar row = .ok (values.foldl (fun sum value => sum + value) 0.0) := by
  obtain ⟨rfl, rfl, rfl⟩ := EncodedForest.parts_of_of_parts accepted
  obtain ⟨stands, read, -, fits, table, scores⟩ := encoded.reads_as_trees
  refine ⟨stands.flatMap Stand.trees, ?_, ?_, table, ?_⟩
  · rw [BlockStream.treesOf, read]
    rfl
  · intro tree member
    refine ⟨tree.depth_le, ?_, fits tree member⟩
    rw [tree.leaves_size, Nat.one_shiftLeft]
  · intro row long
    have covers : ∀ tree ∈ stands.flatMap Stand.trees, row.Covers tree.splits :=
      fun tree member split tested => Nat.lt_of_lt_of_le (fits tree member split tested) long
    refine ⟨_, map_m_predict?_eq_some covers, ?_⟩
    rw [List.foldl_map]
    exact scores _ LaneOps.portable_lane_wise row long

/-- One tree as a block of chunks too shallow to hold a chunk, its last record
without padding. -/
theorem accepted_stream_denotes_trees_shallow :
    let stream : List UInt8 :=
      [2, 0, 0, 0, 1, 0, 0, 0, 1, 0, 0, 0, 2, 0, 0, 0, 0, 0, 0, 63, 0, 0, 0, 0]
    let leaves : Array Float := #[1.5, 2.5]
    ∃ encoded, EncodedForest.ofParts stream leaves 1 = .ok encoded ∧
      ∃ trees, BlockStream.treesOf stream leaves = .ok trees ∧
        (∀ tree ∈ trees, tree.splits.length ≤ maxDepth ∧
          tree.leaves.size = 2 ^ tree.splits.length ∧ tree.Fits 1) ∧
        trees.flatMap (fun tree => tree.leaves.toList) = leaves.toList ∧
        ∀ row : Row, 1 ≤ row.size →
          ∃ values, trees.mapM (fun tree => tree.predict? row) = some values ∧
            encoded.score .scalar row = .ok (values.foldl (fun sum value => sum + value) 0.0) := by
  intro stream leaves
  have reads : BlockStream.Reads (.ofBytes stream) 0
      [⟨⟨0, ⟨.chunks, 1, by decide⟩, ⟨16, stream.drop 16⟩⟩, ⟨[], [⟨0, ⟨0x3F000000⟩⟩]⟩⟩] ⟨24, []⟩ :=
    .block rfl rfl (.done rfl)
  have checked : BlockStream.check stream leaves.size 1 = .ok 1 :=
    EncodedForest.check_eq_ok reads (List.forall_mem_singleton.mpr ⟨by simp, by simp⟩) rfl
  have accepted := EncodedForest.of_parts_eq_ok checked
  exact ⟨_, accepted, accepted_stream_denotes_trees accepted⟩

end SymmetricTrees
