import SymmetricTrees.Proofs.LeafIndex
import SymmetricTrees.Proofs.Visits
import SymmetricTrees.Scoring.Batch

/-!
Where the trees of a block put a row. The records of a block spell the split
lists of its trees, each tree has a part of the block's leaves to itself, and
its leaf there is the number of the split outcomes. Both kernels, for one row
and for the rows of a batch, arrive at these positions on any lane-wise backend.
-/

set_option autoImplicit false

namespace SymmetricTrees

namespace BlockStream

def WideSplit.splits (record : WideSplit) : Quad Split :=
  record.features.map₂ Split.mk record.thresholds

/-- The splits of each tree of a block, in level order. -/
def Entry.splitLists (entry : Entry) : List (List Split) :=
  let wide := entry.records.wide.map WideSplit.splits
  match entry.block.kind with
  | .scalar => [entry.records.single]
  | .chunks => [wide.flatMap Quad.toList ++ entry.records.single]
  | .grouped => [wide.map Quad.lane0, wide.map Quad.lane1, wide.map Quad.lane2, wide.map Quad.lane3]

/-- The block has as many records as its kind and depth ask for. -/
structure Entry.Complete (entry : Entry) : Prop where
  wide : entry.records.wide.length = entry.block.wideCount
  single : entry.records.single.length = entry.block.singleCount

/-- The leaf of each tree of a block that a row reaches, the parts of the trees
being adjacent. -/
def Entry.positions (entry : Entry) (row : Row) : List Nat :=
  entry.splitLists.zipIdx.map fun (splits, lane) =>
    lane * (1 <<< entry.block.depth) + LeafIndex.number row splits

/-- Changes a state by values one by one, each with its place. -/
def foldPlaces {Value State Failure : Type} (step : Nat → State → Value → Except Failure State) :
    Nat → State → List Value → Except Failure State
  | _, state, [] => .ok state
  | place, state, value :: rest =>
      match step place state value with
      | .error failure => .error failure
      | .ok changed => foldPlaces step (place + 1) changed rest

namespace Reader

theorem fold_records_eq {Value State Failure : Type} {missing : Failure} {layout : Layout Value}
    {step : Nat → State → Value → Except Failure State} {count place : Nat}
    {state changed : State} {reader after : Reader} {values : List Value}
    (taken : reader.readMany? layout count = some (values, after))
    (folded : foldPlaces step place state values = .ok changed) :
    reader.foldRecords missing layout step count place state = .ok (changed, after) := by
  induction count generalizing reader place state values with
  | zero =>
      simp only [readMany?, Option.some.injEq, Prod.mk.injEq] at taken
      obtain ⟨rfl, rfl⟩ := taken
      obtain rfl := Except.ok.inj folded
      rfl
  | succ count induction =>
      obtain ⟨value, middle, rest, first, others, rfl⟩ := read_many?_succ_eq_some_iff.mp taken
      simp only [foldPlaces] at folded
      split at folded
      case h_1 => simp at folded
      case h_2 next stepped =>
        simp only [foldRecords, first, stepped]
        exact induction others folded

theorem read_many?_values_length {Value : Type} {layout : Layout Value} {count : Nat}
    {reader after : Reader} {values : List Value}
    (taken : reader.readMany? layout count = some (values, after)) : values.length = count := by
  induction count generalizing reader values with
  | zero =>
      simp only [readMany?, Option.some.injEq, Prod.mk.injEq] at taken
      rw [← taken.1, List.length_nil]
  | succ count induction =>
      obtain ⟨value, middle, rest, -, others, rfl⟩ := read_many?_succ_eq_some_iff.mp taken
      rw [List.length_cons, induction others]

theorem read_records?_complete {reader after : Reader} {block : Block} {records : Records}
    (taken : reader.readRecords? block = some (records, after)) :
    Entry.Complete ⟨block, records⟩ := by
  obtain ⟨middle, wide, single⟩ := read_records?_eq_some_iff.mp taken
  exact ⟨read_many?_values_length wide, read_many?_values_length single⟩

end Reader

namespace Entry

variable {entry : Entry}

theorem split_lists_length (entry : Entry) :
    entry.splitLists.length = entry.block.kind.treeCount := by
  unfold splitLists
  cases entry.block.kind <;> rfl

theorem splits_length (complete : entry.Complete) {splits : List Split}
    (member : splits ∈ entry.splitLists) : splits.length = entry.block.depth := by
  obtain ⟨⟨kind, depth, shallow⟩, wide, single⟩ := entry
  obtain ⟨wideLength, singleLength⟩ := complete
  cases kind with
  | scalar =>
      obtain rfl := List.mem_singleton.mp member
      exact singleLength
  | chunks =>
      obtain rfl := List.mem_singleton.mp member
      simp only [Block.wideCount, Block.singleCount, Kind.wideCount, Kind.singleCount]
        at wideLength singleLength
      simp only [List.length_append, Quad.length_flat_map_to_list, List.length_map]
      omega
  | grouped =>
      have levels : wide.length = depth := wideLength
      simp only [splitLists, List.mem_cons, List.not_mem_nil, or_false] at member
      rcases member with rfl | rfl | rfl | rfl <;> simp only [List.length_map, levels]

theorem positions_lt (complete : entry.Complete) {row : Row} {position : Nat}
    (member : position ∈ entry.positions row) : position < entry.block.leafCount := by
  obtain ⟨⟨splits, lane⟩, indexed, rfl⟩ := List.mem_map.mp member
  have found := List.mem_zipIdx_iff_getElem?.mp indexed
  have inside : lane < entry.block.kind.treeCount := by
    rw [← split_lists_length]
    exact (List.getElem?_eq_some_iff.mp found).1
  have leaf := LeafIndex.number_lt row splits
  rw [splits_length complete (List.mem_of_getElem? found)] at leaf
  simp only [Block.leafCount, Nat.shiftLeft_eq, Nat.one_mul]
  calc lane * 2 ^ entry.block.depth + LeafIndex.number row splits
      < (lane + 1) * 2 ^ entry.block.depth := by rw [Nat.succ_mul]; omega
    _ ≤ entry.block.kind.treeCount * 2 ^ entry.block.depth := Nat.mul_le_mul_right _ inside

end Entry

end BlockStream

namespace Scoring

open LeafIndex BlockStream

theorem shift_left_eq_ok {word : UInt32} {amount : Nat} (inside : amount < 32) :
    shiftLeft word amount = .ok (word <<< UInt32.ofNat amount) := if_pos inside

theorem test_split_eq_ok {row : Row} {split : Split} (known : split.feature.toNat < row.size)
    {level : Nat} (inside : level < 32) (word : UInt32) :
    testSplit row level word split =
      .ok (word ||| ((split.holds row).toUInt32 <<< UInt32.ofNat level)) := by
  simp only [testSplit, Split.outcome?_eq_some known, shift_left_eq_ok inside]

theorem fold_places_test_split {row : Row} {splits : List Split} (covers : row.Covers splits)
    (first place : Nat) (inside : first + place + splits.length ≤ 32) (word : UInt32) :
    foldPlaces (fun tail => testSplit row (first + tail)) place word splits =
      .ok (setOutcomes row (first + place) word splits) := by
  induction splits generalizing place word with
  | nil => rfl
  | cons split deeper induction =>
      obtain ⟨known, others⟩ := List.forall_mem_cons.mp covers
      simp only [List.length_cons] at inside
      simp only [foldPlaces, test_split_eq_ok known (show first + place < 32 by omega)]
      exact induction others (place + 1) (by omega) _

def valuesOf (row : Row) (record : WideSplit) : Quad Float32 :=
  (record.gather? row).getD (Quad.splat 0)

def addWide (ops : LaneOps) (row : Row) (weights words : ops.Words) (record : WideSplit) :
    ops.Words :=
  ops.or words
    (ops.selectGreater (ops.load (valuesOf row record))
      (ops.load (record.thresholds.map Binary32.value)) weights)

def addWides (ops : LaneOps) (row : Row) (weights : Nat → ops.Words) :
    Nat → ops.Words → List WideSplit → ops.Words
  | _, words, [] => words
  | place, words, record :: rest =>
      addWides ops row weights (place + 1) (addWide ops row (weights place) words record) rest

def Has (row : Row) (record : WideSplit) : Prop :=
  ∀ feature ∈ record.features.toList, feature.toNat < row.size

theorem gather?_eq_some {row : Row} {record : WideSplit} (has : Has row record) :
    record.gather? row = some (valuesOf row record) := by
  obtain ⟨thresholds, feature0, feature1, feature2, feature3⟩ := record
  simp only [Has, Quad.toList, List.mem_cons, List.not_mem_nil, or_false,
    forall_eq_or_imp, forall_eq] at has
  obtain ⟨has0, has1, has2, has3⟩ := has
  simp only [valuesOf, WideSplit.gather?, Quad.traverse?,
    Array.getElem?_eq_getElem has0, Array.getElem?_eq_getElem has1,
    Array.getElem?_eq_getElem has2, Array.getElem?_eq_getElem has3, Option.bind_eq_bind,
    Option.bind_some, Option.getD_some]

theorem test_wide_eq_ok {ops : LaneOps} {row : Row} {record : WideSplit} (has : Has row record)
    (weights words : ops.Words) :
    testWide ops row weights words record = .ok (addWide ops row weights words record) := by
  simp only [testWide, gather?_eq_some has, addWide]

theorem fold_places_test_wide_at {ops : LaneOps} {row : Row} {records : List WideSplit}
    (has : ∀ record ∈ records, Has row record) {weights : Nat → Except Trap ops.Words}
    {known : Nat → ops.Words} {limit : Nat}
    (weighed : ∀ place < limit, weights place = .ok (known place)) (place : Nat)
    (inside : place + records.length ≤ limit) (words : ops.Words) :
    foldPlaces (testWideAt ops row weights) place words records =
      .ok (addWides ops row known place words records) := by
  induction records generalizing place words with
  | nil => rfl
  | cons record rest induction =>
      obtain ⟨here, others⟩ := List.forall_mem_cons.mp has
      simp only [List.length_cons] at inside
      simp only [foldPlaces, testWideAt, weighed place (by omega), test_wide_eq_ok here]
      exact induction others (place + 1) (by omega) _

/-- A lane gets its bit exactly if its split holds. -/
theorem pick_greater_eq_ite {row : Row} {split : Split} (known : split.feature.toNat < row.size)
    (bit : UInt32) :
    pickGreater row[split.feature.toNat] split.threshold.value bit =
      if split.holds row then bit else 0 := by
  have holds : split.holds row =
      decide (split.threshold.value < row[split.feature.toNat]) := by
    rw [Split.holds, Split.outcome?, Array.getElem?_eq_getElem known, Option.map_some,
      Option.getD_some]
  rw [holds, pickGreater]
  by_cases greater : split.threshold.value < row[split.feature.toNat]
  · rw [if_pos greater, if_pos (decide_eq_true greater)]
  · rw [if_neg greater, if_neg (by simpa using greater)]

theorem pick_greater_values_of {row : Row} {record : WideSplit} (has : Has row record)
    (bits : Quad UInt32) :
    Quad.pickGreater (valuesOf row record) (record.thresholds.map Binary32.value) bits =
      record.splits.map₂ (fun split bit => if split.holds row then bit else 0) bits := by
  obtain ⟨⟨threshold0, threshold1, threshold2, threshold3⟩,
    feature0, feature1, feature2, feature3⟩ := record
  simp only [Has, Quad.toList, List.mem_cons, List.not_mem_nil, or_false,
    forall_eq_or_imp, forall_eq] at has
  obtain ⟨has0, has1, has2, has3⟩ := has
  have lane0 := @pick_greater_eq_ite row ⟨feature0, threshold0⟩ has0
  have lane1 := @pick_greater_eq_ite row ⟨feature1, threshold1⟩ has1
  have lane2 := @pick_greater_eq_ite row ⟨feature2, threshold2⟩ has2
  have lane3 := @pick_greater_eq_ite row ⟨feature3, threshold3⟩ has3
  simp only [valuesOf, WideSplit.gather?, Quad.traverse?, WideSplit.splits,
    Array.getElem?_eq_getElem has0, Array.getElem?_eq_getElem has1,
    Array.getElem?_eq_getElem has2, Array.getElem?_eq_getElem has3, Option.bind_eq_bind,
    Option.bind_some, Option.getD_some, Quad.pickGreater, Quad.map, Quad.map₂, lane0, lane1,
    lane2, lane3]
  rfl

theorem to_quad_add_wides {ops : LaneOps} (laneWise : ops.LaneWise) {row : Row}
    {records : List WideSplit} (has : ∀ record ∈ records, Has row record)
    {known : Nat → ops.Words} {bits : Nat → Quad UInt32} {limit : Nat}
    (lanes : ∀ place < limit, ops.toQuad (known place) = bits place) (place : Nat)
    (inside : place + records.length ≤ limit) (words : ops.Words) :
    ops.toQuad (addWides ops row known place words records) =
      collect row bits place (ops.toQuad words) (records.map WideSplit.splits) := by
  induction records generalizing place words with
  | nil => rfl
  | cons record rest induction =>
      obtain ⟨here, others⟩ := List.forall_mem_cons.mp has
      simp only [List.length_cons] at inside
      rw [addWides, induction others (place + 1) (by omega), addWide, laneWise.toQuad_or,
        laneWise.toQuad_selectGreater, pick_greater_values_of here, lanes place (by omega)]
      rfl

def chunkWords (ops : LaneOps) (chunk : Nat) : ops.Words :=
  ops.shiftLeft (ops.ofQuad ⟨1, 2, 4, 8⟩) (UInt32.ofNat (4 * chunk))

def levelWords (ops : LaneOps) (level : Nat) : ops.Words :=
  ops.splat (1 <<< UInt32.ofNat level)

theorem chunk_weights_eq_ok {ops : LaneOps} : ∀ chunk < 8,
    chunkWeights ops chunk = .ok (chunkWords ops chunk) := by
  intro chunk inside
  rw [chunkWeights, if_pos (by omega), chunkWords]

theorem level_weights_eq_ok {ops : LaneOps} : ∀ level < 32,
    levelWeights ops level = .ok (levelWords ops level) := by
  intro level inside
  simp only [levelWeights, shift_left_eq_ok inside, levelWords]

theorem to_quad_chunk_words {ops : LaneOps} (laneWise : ops.LaneWise) : ∀ chunk < 8,
    ops.toQuad (chunkWords ops chunk) = chunkBits chunk := by
  intro chunk inside
  have amount : UInt32.ofNat (4 * chunk) < 32 := by
    rw [UInt32.lt_iff_toNat_lt, UInt32.toNat_ofNat_of_lt' (by simp only [UInt32.size]; omega)]
    change 4 * chunk < 32
    omega
  rw [chunkWords, laneWise.toQuad_shiftLeft _ _ amount, laneWise.toQuad_ofQuad, chunkBits]

theorem to_quad_level_words {ops : LaneOps} (laneWise : ops.LaneWise) : ∀ level < 32,
    ops.toQuad (levelWords ops level) = levelBits level := by
  intro level _
  rw [levelWords, laneWise.toQuad_splat, levelBits]

theorem to_quad_zero {ops : LaneOps} (laneWise : ops.LaneWise) :
    ops.toQuad ops.zero = Quad.splat 0 := laneWise.toQuad_splat 0

def scalarIndex (row : Row) (records : Records) : UInt32 := setOutcomes row 0 0 records.single

def chunkIndex (ops : LaneOps) (row : Row) (records : Records) : UInt32 :=
  setOutcomes row (4 * records.wide.length)
    (ops.sum (addWides ops row (chunkWords ops) 0 ops.zero records.wide)) records.single

def groupIndices (ops : LaneOps) (row : Row) (records : Records) : Quad UInt32 :=
  ops.toQuad (addWides ops row (levelWords ops) 0 ops.zero records.wide)

variable {ops : LaneOps} {row : Row} {depth : Nat} {records : Records}

theorem scalar_index_to_nat (inside : records.single.length ≤ 32) :
    (scalarIndex row records).toNat = number row records.single := by
  have empty : (0 : UInt32).toNat < 2 ^ 0 := by decide
  rw [scalarIndex, set_outcomes_to_nat row records.single empty (by omega), Nat.pow_zero,
    Nat.one_mul]
  exact Nat.zero_add _

theorem chunk_index_to_nat (laneWise : ops.LaneWise)
    (has : ∀ record ∈ records.wide, Has row record)
    (inside : 4 * records.wide.length + records.single.length ≤ 31) :
    (chunkIndex ops row records).toNat =
      number row ((records.wide.map WideSplit.splits).flatMap Quad.toList ++ records.single) := by
  have lanes := to_quad_add_wides laneWise has (to_quad_chunk_words laneWise) 0 (by omega) ops.zero
  have chunks : (records.wide.map WideSplit.splits).length < 8 := by
    rw [List.length_map]
    omega
  have joined := sum_collect_chunk_bits row (records.wide.map WideSplit.splits) chunks
  have upper := number_lt row ((records.wide.map WideSplit.splits).flatMap Quad.toList)
  have levels : ((records.wide.map WideSplit.splits).flatMap Quad.toList).length =
      4 * records.wide.length := by
    rw [Quad.length_flat_map_to_list, List.length_map]
  have sum : (ops.sum (addWides ops row (chunkWords ops) 0 ops.zero records.wide)).toNat =
      number row ((records.wide.map WideSplit.splits).flatMap Quad.toList) := by
    rw [LaneOps.sum, lanes, to_quad_zero laneWise, joined]
  rw [levels] at upper
  rw [chunkIndex, set_outcomes_to_nat row records.single (by rw [sum]; exact upper) (by omega), sum,
    number_append, levels]

theorem group_indices_eq (laneWise : ops.LaneWise)
    (has : ∀ record ∈ records.wide, Has row record) (inside : records.wide.length ≤ 32) :
    groupIndices ops row records =
      ⟨setOutcomes row 0 0 ((records.wide.map WideSplit.splits).map Quad.lane0),
        setOutcomes row 0 0 ((records.wide.map WideSplit.splits).map Quad.lane1),
        setOutcomes row 0 0 ((records.wide.map WideSplit.splits).map Quad.lane2),
        setOutcomes row 0 0 ((records.wide.map WideSplit.splits).map Quad.lane3)⟩ := by
  rw [groupIndices, to_quad_add_wides laneWise has (to_quad_level_words laneWise) 0 (by omega),
    to_quad_zero laneWise, collect_level_bits]
  rfl

def wordPositions (ops : LaneOps) (row : Row) (block : Block) (records : Records) : List Nat :=
  match block.kind with
  | .scalar => [(scalarIndex row records).toNat]
  | .chunks => [(chunkIndex ops row records).toNat]
  | .grouped => groupPositions block.depth (groupIndices ops row records)

theorem word_positions_eq (laneWise : ops.LaneWise) {block : Block}
    (complete : Entry.Complete ⟨block, records⟩) (within : records.Within row.size) :
    wordPositions ops row block records = Entry.positions ⟨block, records⟩ row := by
  obtain ⟨kind, depth, shallow⟩ := block
  obtain ⟨wideLength, singleLength⟩ := complete
  simp only [Block.wideCount, Block.singleCount] at wideLength singleLength
  simp only [maxDepth] at shallow
  cases kind with
  | scalar =>
      simp only [Kind.singleCount] at singleLength
      simp only [wordPositions, Entry.positions, Entry.splitLists,
        scalar_index_to_nat (show records.single.length ≤ 32 by omega), List.zipIdx_cons,
        List.zipIdx_nil, List.map_cons, List.map_nil, Nat.zero_mul, Nat.zero_add]
  | chunks =>
      simp only [Kind.wideCount, Kind.singleCount] at wideLength singleLength
      simp only [wordPositions, Entry.positions, Entry.splitLists,
        chunk_index_to_nat laneWise within.wide
          (show 4 * records.wide.length + records.single.length ≤ 31 by omega),
        List.zipIdx_cons, List.zipIdx_nil, List.map_cons, List.map_nil, Nat.zero_mul, Nat.zero_add]
  | grouped =>
      simp only [Kind.wideCount] at wideLength
      have empty : (0 : UInt32).toNat < 2 ^ 0 := by decide
      have lane : ∀ pick : Quad Split → Split,
          (setOutcomes row 0 0 ((records.wide.map WideSplit.splits).map pick)).toNat =
            number row ((records.wide.map WideSplit.splits).map pick) := by
        intro pick
        rw [set_outcomes_to_nat row _ empty (by simp only [List.length_map]; omega), Nat.pow_zero,
          Nat.one_mul]
        exact Nat.zero_add _
      simp only [wordPositions, groupPositions,
        group_indices_eq laneWise within.wide (show records.wide.length ≤ 32 by omega),
        Entry.positions, Entry.splitLists, Quad.toList, List.zipIdx_cons, List.zipIdx_nil,
        List.map_cons, List.map_nil, lane]

/-- Reading the records of a block for one row finds the leaves of its trees. -/
theorem leaf_positions_eq (laneWise : ops.LaneWise) {block : Block} {body after : Reader}
    (taken : body.readRecords? block = some (records, after)) (within : records.Within row.size) :
    leafPositions ops row block body = .ok (Entry.positions ⟨block, records⟩ row, after) := by
  have complete := Reader.read_records?_complete taken
  rw [← word_positions_eq laneWise complete within]
  obtain ⟨middle, wideTaken, singleTaken⟩ := Reader.read_records?_eq_some_iff.mp taken
  obtain ⟨kind, depth, shallow⟩ := block
  obtain ⟨wideLength, singleLength⟩ := complete
  simp only [Block.wideCount, Block.singleCount] at wideLength singleLength wideTaken singleTaken
  simp only [maxDepth] at shallow
  cases kind with
  | scalar =>
      simp only [Kind.wideCount, Kind.singleCount, Reader.readMany?, Option.some.injEq,
        Prod.mk.injEq] at wideTaken singleTaken singleLength
      obtain ⟨-, rfl⟩ := wideTaken
      have folded := fold_places_test_split within.single 0 0 (by omega) 0
      simp only [Nat.zero_add] at folded
      simp only [leafPositions, Reader.fold_records_eq singleTaken folded, wordPositions,
        scalarIndex]
      rfl
  | chunks =>
      simp only [Kind.wideCount, Kind.singleCount] at wideTaken singleTaken wideLength singleLength
      have wideFolded :=
        fold_places_test_wide_at within.wide (@chunk_weights_eq_ok ops) 0 (by omega) ops.zero
      have singleFolded := fold_places_test_split within.single (4 * (depth / 4)) 0 (by omega)
        (ops.sum (addWides ops row (chunkWords ops) 0 ops.zero records.wide))
      simp only [leafPositions, Block.wideCount, Block.singleCount, Kind.wideCount,
        Kind.singleCount, Reader.fold_records_eq wideTaken wideFolded, bind, Except.bind,
        Reader.fold_records_eq singleTaken singleFolded, wordPositions, chunkIndex, wideLength]
      rfl
  | grouped =>
      simp only [Kind.wideCount, Kind.singleCount, Reader.readMany?, Option.some.injEq,
        Prod.mk.injEq] at wideTaken singleTaken wideLength
      obtain ⟨-, rfl⟩ := singleTaken
      have folded := fold_places_test_wide_at within.wide (@level_weights_eq_ok ops) 0 (by omega)
        ops.zero
      simp only [leafPositions, Reader.fold_records_eq wideTaken folded, wordPositions,
        groupIndices]
      rfl

end Scoring

end SymmetricTrees
