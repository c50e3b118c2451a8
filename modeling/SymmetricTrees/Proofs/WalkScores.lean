import SymmetricTrees.Proofs.BlockPositions

/-!
Scores as sums over the visited blocks. The walk of one row follows the blocks
of a stream and adds the leaf values found at their positions; the walk of a
batch follows the same blocks and gives every row of the batch the score that
the row has alone.
-/

set_option autoImplicit false

namespace SymmetricTrees.Scoring

open BlockStream LeafIndex

def leafAt (leaves : Array Float) (index : Nat) : Float := leaves[index]?.getD 0.0

def addVisit (leaves : Array Float) (row : Row) (visit : Visit) (score : Float) : Float :=
  (visit.entry.positions row).foldl
    (fun score position => score + leafAt leaves (visit.offset + position)) score

structure Suits (leaves : Array Float) (row : Row) (visit : Visit) : Prop where
  features : visit.records.Within row.size
  leaves : visit.offset + visit.block.leafCount ≤ leaves.size

theorem suits_of_reads {leaves : Array Float} {featureCount : Nat} {reader last : Reader}
    {offset : Nat} {visits : List Visit} (reads : Reads reader offset visits last)
    (within : ∀ visit ∈ visits, visit.records.Within featureCount)
    (whole : offset + leafTotal visits = leaves.size) {row : Row}
    (long : featureCount ≤ row.size) :
    ∀ visit ∈ visits, Suits leaves row visit := by
  intro visit member
  constructor
  · exact (within visit member).mono long
  · rw [← whole]
    exact reads.regions visit member

theorem add_leaves_eq_ok {leaves : Array Float} {offset : Nat} {positions : List Nat}
    (inside : ∀ position ∈ positions, offset + position < leaves.size) (score : Float) :
    addLeaves leaves offset score positions =
      .ok (positions.foldl (fun score position => score + leafAt leaves (offset + position))
        score) := by
  induction positions generalizing score with
  | nil => rfl
  | cons position rest induction =>
      obtain ⟨here, others⟩ := List.forall_mem_cons.mp inside
      have found := Array.getElem?_eq_getElem here
      have value : leafAt leaves (offset + position) = leaves[offset + position] := by
        rw [leafAt, found, Option.getD_some]
      simp only [addLeaves, found, List.foldl_cons, value]
      exact induction others _

variable {ops : LaneOps} {leaves : Array Float}

theorem Suits.positions_lt {row : Row} {visit : Visit} {after : Reader}
    (suits : Suits leaves row visit)
    (taken : visit.body.readRecords? visit.block = some (visit.records, after)) :
    ∀ position ∈ visit.entry.positions row, visit.offset + position < leaves.size := by
  intro position member
  have own : position < visit.block.leafCount :=
    Entry.positions_lt (Reader.read_records?_complete taken) member
  have table := suits.leaves
  omega

theorem row_walker_follows (laneWise : ops.LaneWise) (row : Row) :
    (rowWalker ops leaves row).Follows (Suits leaves row) (addVisit leaves row) where
  next_block := next_or_end_block
  next_end := next_or_end_end
  visit_eq := by
    intro visit after suits taken score
    have positions := leaf_positions_eq laneWise taken suits.features
    have added := add_leaves_eq_ok (suits.positions_lt taken) score
    exact Outcome.bind_eq_ok_iff.mpr ⟨_, positions, Outcome.bind_eq_ok_iff.mpr ⟨_, added, rfl⟩⟩

theorem for_rows_map {State Changed : Type} {change : Row → State → Except Trap Changed}
    {changed : Row → State → Changed} {rows : List Row}
    (known : ∀ row ∈ rows, ∀ state, change row state = .ok (changed row state))
    (state : Row → State) :
    forRows change rows (rows.map state) = .ok (rows.map fun row => changed row (state row)) := by
  induction rows with
  | nil => rfl
  | cons row rest induction =>
      obtain ⟨here, others⟩ := List.forall_mem_cons.mp known
      simp only [List.map_cons, forRows, here, induction others]

theorem fold_places_test_split_rows {rows : List Row} {splits : List Split}
    (covers : ∀ row ∈ rows, row.Covers splits) (first place : Nat)
    (inside : first + place + splits.length ≤ 32) (word : Row → UInt32) :
    foldPlaces (fun tail => testSplitRows rows (first + tail)) place (rows.map word) splits =
      .ok (rows.map fun row => setOutcomes row (first + place) (word row) splits) := by
  induction splits generalizing place word with
  | nil => rfl
  | cons split deeper induction =>
      simp only [List.length_cons] at inside
      have tested : testSplitRows rows (first + place) (rows.map word) split = .ok (rows.map
          fun row => word row |||
            ((split.holds row).toUInt32 <<< UInt32.ofNat (first + place))) :=
        for_rows_map (fun row member _ =>
          test_split_eq_ok (covers row member split List.mem_cons_self) (by omega) _) word
      simp only [foldPlaces, tested]
      exact induction (fun row member => (List.forall_mem_cons.mp (covers row member)).2)
        (place + 1) (by omega) _

theorem fold_places_test_wide_rows {rows : List Row} {records : List WideSplit}
    (has : ∀ row ∈ rows, ∀ record ∈ records, Has row record)
    {weights : Nat → Except Trap ops.Words} {known : Nat → ops.Words} {limit : Nat}
    (weighed : ∀ place < limit, weights place = .ok (known place)) (place : Nat)
    (inside : place + records.length ≤ limit) (words : Row → ops.Words) :
    foldPlaces (testWideRows ops rows weights) place (rows.map words) records =
      .ok (rows.map fun row => addWides ops row known place (words row) records) := by
  induction records generalizing place words with
  | nil => rfl
  | cons record rest induction =>
      simp only [List.length_cons] at inside
      have tested := for_rows_map (fun row member words =>
        test_wide_eq_ok (has row member record List.mem_cons_self) (known place) words) words
      simp only [foldPlaces, testWideRows, weighed place (by omega), tested]
      exact induction (fun row member => (List.forall_mem_cons.mp (has row member)).2)
        (place + 1) (by omega) _

theorem leaf_positions_of_rows_eq (laneWise : ops.LaneWise) {rows : List Row} {block : Block}
    {body after : Reader} {records : Records}
    (taken : body.readRecords? block = some (records, after))
    (within : ∀ row ∈ rows, records.Within row.size) :
    leafPositionsOfRows ops rows block body =
      .ok (rows.map fun row => Entry.positions ⟨block, records⟩ row, after) := by
  have complete := Reader.read_records?_complete taken
  have positions : (rows.map fun row => Entry.positions ⟨block, records⟩ row) =
      rows.map fun row => wordPositions ops row block records :=
    List.map_congr_left fun row member =>
      (word_positions_eq laneWise complete (within row member)).symm
  have wideWithin := fun row member => (within row member).wide
  have singleWithin := fun row member => (within row member).single
  rw [positions]
  obtain ⟨middle, wideTaken, singleTaken⟩ := Reader.read_records?_eq_some_iff.mp taken
  obtain ⟨kind, depth, shallow⟩ := block
  obtain ⟨wideLength, singleLength⟩ := complete
  simp only [Block.wideCount, Block.singleCount] at wideLength singleLength wideTaken singleTaken
  simp only [maxDepth] at shallow
  cases kind with
  | scalar =>
      simp only [Kind.wideCount, Kind.singleCount, Reader.readMany?, Option.some.injEq,
        Prod.mk.injEq] at wideTaken singleTaken singleLength
      obtain ⟨-, rfl⟩ := wideTaken
      have folded := fold_places_test_split_rows singleWithin 0 0 (by omega) fun _ => 0
      simp only [Nat.zero_add] at folded
      simp only [leafPositionsOfRows, Reader.fold_records_eq singleTaken folded, wordPositions,
        scalarIndex, bind, Except.bind, List.map_map, pure, Except.pure]
      rfl
  | chunks =>
      simp only [Kind.wideCount, Kind.singleCount] at wideTaken singleTaken wideLength singleLength
      have wideFolded := fold_places_test_wide_rows wideWithin (@chunk_weights_eq_ok ops) 0
        (by omega) fun _ => ops.zero
      have singleFolded := fold_places_test_split_rows singleWithin (4 * (depth / 4)) 0 (by omega)
        fun row => ops.sum (addWides ops row (chunkWords ops) 0 ops.zero records.wide)
      simp only [leafPositionsOfRows, Block.wideCount, Block.singleCount, Kind.wideCount,
        Kind.singleCount, Reader.fold_records_eq wideTaken wideFolded, bind, Except.bind,
        List.map_map, Function.comp_def, Reader.fold_records_eq singleTaken singleFolded,
        wordPositions, chunkIndex, wideLength, pure, Except.pure]
      rfl
  | grouped =>
      simp only [Kind.wideCount, Kind.singleCount, Reader.readMany?, Option.some.injEq,
        Prod.mk.injEq] at wideTaken singleTaken wideLength
      obtain ⟨-, rfl⟩ := singleTaken
      have folded := fold_places_test_wide_rows wideWithin (@level_weights_eq_ok ops) 0 (by omega)
        fun _ => ops.zero
      simp only [leafPositionsOfRows, Reader.fold_records_eq wideTaken folded, wordPositions,
        groupIndices, bind, Except.bind, List.map_map, pure, Except.pure]
      rfl

def addVisitToRows (leaves : Array Float) (rows : List Row) (visit : Visit)
    (scores : List Float) : List Float :=
  List.zipWith (fun row score => addVisit leaves row visit score) rows scores

theorem add_leaves_of_rows_eq_ok {offset : Nat} {rows : List Row} {positions : Row → List Nat}
    (inside : ∀ row ∈ rows, ∀ position ∈ positions row, offset + position < leaves.size)
    (scores : List Float) :
    addLeavesOfRows leaves offset scores (rows.map positions) =
      .ok (List.zipWith (fun row score => (positions row).foldl
        (fun score position => score + leafAt leaves (offset + position)) score) rows scores) := by
  induction rows generalizing scores with
  | nil => cases scores <;> rfl
  | cons row rest induction =>
      obtain ⟨here, others⟩ := List.forall_mem_cons.mp inside
      cases scores with
      | nil => rfl
      | cons score scores =>
          simp only [List.map_cons, addLeavesOfRows, add_leaves_eq_ok here, induction others,
            List.zipWith_cons_cons]

theorem batch_walker_follows (laneWise : ops.LaneWise) (rows : List Row) :
    (batchWalker ops leaves rows).Follows (fun visit => ∀ row ∈ rows, Suits leaves row visit)
      (addVisitToRows leaves rows) where
  next_block := next_or_end_block
  next_end := next_or_end_end
  visit_eq := by
    intro visit after suits taken scores
    have positions := leaf_positions_of_rows_eq laneWise taken fun row member =>
      (suits row member).features
    have added := add_leaves_of_rows_eq_ok
      (fun row member => (suits row member).positions_lt taken) scores
    exact Outcome.bind_eq_ok_iff.mpr ⟨_, positions, Outcome.bind_eq_ok_iff.mpr ⟨_, added, rfl⟩⟩

/-- Every row of a batch gets the score that it has alone. -/
theorem foldl_add_visit_to_rows (rows : List Row) (visits : List Visit) (score : Row → Float) :
    visits.foldl (fun scores visit => addVisitToRows leaves rows visit scores) (rows.map score) =
      rows.map fun row =>
        visits.foldl (fun score visit => addVisit leaves row visit score) (score row) := by
  induction visits generalizing score with
  | nil => rfl
  | cons visit rest induction =>
      have step : addVisitToRows leaves rows visit (rows.map score) =
          rows.map fun row => addVisit leaves row visit (score row) := by
        rw [addVisitToRows, List.zipWith_map_right, List.zipWith_self]
      rw [List.foldl_cons, step, induction]
      rfl

end SymmetricTrees.Scoring
