import SymmetricTrees.Scoring.Row

/-!
Scoring many rows. Up to eight rows share one walk of the stream: each record
is read once and then changes what every row of the batch has collected. The
additions of each row keep their order.
-/

set_option autoImplicit false

namespace SymmetricTrees

open BlockStream

namespace Scoring

def maxBatchWidth : Nat := 8

def forRows {State Changed : Type} (change : Row → State → Except Trap Changed) :
    List Row → List State → Except Trap (List Changed)
  | row :: rows, state :: states =>
      match change row state with
      | .error trap => .error trap
      | .ok changed =>
          match forRows change rows states with
          | .error trap => .error trap
          | .ok others => .ok (changed :: others)
  | _, _ => .ok []

/-- The weights depend on the place of a record and are shared by the rows. -/
def testWideRows (ops : LaneOps) (rows : List Row) (weights : Nat → Except Trap ops.Words)
    (place : Nat) (selected : List ops.Words) (record : WideSplit) :
    Except Trap (List ops.Words) :=
  match weights place with
  | .error trap => .error trap
  | .ok weights => forRows (fun row chosen => testWide ops row weights chosen record) rows selected

def testSplitRows (rows : List Row) (level : Nat) (indices : List UInt32) (split : Split) :
    Except Trap (List UInt32) :=
  forRows (fun row index => testSplit row level index split) rows indices

/-- Reads the records of a block once. Yields for every row the leaf positions
of the block's trees inside the block's part of the table. -/
def leafPositionsOfRows (ops : LaneOps) (rows : List Row) (block : Block) (reader : Reader) :
    Except Trap (List (List Nat) × Reader) :=
  match block.kind with
  | .scalar => do
      let (indices, after) ← reader.foldRecords .missingRecord splitLayout
        (testSplitRows rows) block.depth 0 (rows.map fun _ => 0)
      return (indices.map fun index => [index.toNat], after)
  | .chunks => do
      let (selected, afterWide) ← reader.foldRecords .missingRecord WideSplit.layout
        (testWideRows ops rows (chunkWeights ops)) block.wideCount 0 (rows.map fun _ => ops.zero)
      let (indices, after) ← afterWide.foldRecords .missingRecord splitLayout
        (fun tail => testSplitRows rows (4 * block.wideCount + tail)) block.singleCount 0
        (selected.map ops.sum)
      return (indices.map fun index => [index.toNat], after)
  | .grouped => do
      let (selected, after) ← reader.foldRecords .missingRecord WideSplit.layout
        (testWideRows ops rows (levelWeights ops)) block.depth 0 (rows.map fun _ => ops.zero)
      return (selected.map fun chosen => groupPositions block.depth (ops.toQuad chosen), after)

def addLeavesOfRows (leaves : Array Float) (offset : Nat) :
    List Float → List (List Nat) → Except Trap (List Float)
  | score :: scores, positions :: others =>
      match addLeaves leaves offset score positions with
      | .error trap => .error trap
      | .ok total =>
          match addLeavesOfRows leaves offset scores others with
          | .error trap => .error trap
          | .ok totals => .ok (total :: totals)
  | _, _ => .ok []

def addBlockToRows (ops : LaneOps) (leaves : Array Float) (rows : List Row) (offset : Nat)
    (block : Block) (scores : List Float) (reader : Reader) :
    Except Trap (List Float × Reader) := do
  let (positions, after) ← leafPositionsOfRows ops rows block reader
  let totals ← addLeavesOfRows leaves offset scores positions
  return (totals, after)

theorem leaf_positions_of_rows_length {ops : LaneOps} {rows : List Row} {block : Block}
    {reader after : Reader} {positions : List (List Nat)}
    (taken : leafPositionsOfRows ops rows block reader = .ok (positions, after)) :
    after.rest.length ≤ reader.rest.length := by
  unfold leafPositionsOfRows at taken
  split at taken
  case h_1 =>
    obtain ⟨_, single, same⟩ := Outcome.bind_eq_ok_iff.mp taken
    cases same
    exact Reader.fold_records_length single
  case h_2 =>
    obtain ⟨_, wide, rest⟩ := Outcome.bind_eq_ok_iff.mp taken
    obtain ⟨_, single, same⟩ := Outcome.bind_eq_ok_iff.mp rest
    cases same
    exact Nat.le_trans (Reader.fold_records_length single) (Reader.fold_records_length wide)
  case h_3 =>
    obtain ⟨_, wide, same⟩ := Outcome.bind_eq_ok_iff.mp taken
    cases same
    exact Reader.fold_records_length wide

def batchWalker (ops : LaneOps) (leaves : Array Float) (rows : List Row) :
    Walker Trap (List Float) where
  next := nextOrEnd
  visit := addBlockToRows ops leaves rows
  next_length := next_or_end_length
  visit_length := by
    intro offset block scores totals reader after visited
    obtain ⟨_, taken, rest⟩ := Outcome.bind_eq_ok_iff.mp visited
    obtain ⟨_, _, same⟩ := Outcome.bind_eq_ok_iff.mp rest
    cases same
    exact leaf_positions_of_rows_length taken

def clampWidth (width : Nat) : Nat := max 1 (min width maxBatchWidth)

theorem clamp_width_pos (width : Nat) : 0 < clampWidth width :=
  Nat.le_max_left 1 (min width maxBatchWidth)

end Scoring

namespace EncodedForest

open Scoring

/-- Scores a batch of exactly `width` rows over its part of the output. Any
other number of rows leaves the output as it is. -/
def runBatch (encoded : EncodedForest) (ops : LaneOps) (width : Nat) (rows : List Row)
    (output : List Float) : List Float :=
  if rows.length = width then
    match (batchWalker ops encoded.leaves rows).walk (Reader.ofBytes encoded.stream) 0
        (rows.map fun _ => 0.0) with
    | .ok arrival => arrival.state
    | .error _ => rows.map fun _ => unknownScore
  else output

/-- Hands a batch to the walk of its width. Without rows nothing is to be done. -/
def dispatch (encoded : EncodedForest) (ops : LaneOps) (rows : List Row) (output : List Float) :
    List Float :=
  if rows.isEmpty then output
  else encoded.runBatch ops (min rows.length maxBatchWidth) rows output

def fillScores (encoded : EncodedForest) (ops : LaneOps) (width : Nat) (positive : 0 < width)
    (rows : List Row) (output : List Float) : List Float :=
  if width ≤ rows.length then
    encoded.dispatch ops (rows.take width) (output.take width) ++
      encoded.fillScores ops width positive (rows.drop width) (output.drop width)
  else encoded.dispatch ops rows output
termination_by rows.length
decreasing_by
  rw [List.length_drop]
  omega

def rawScores (encoded : EncodedForest) (ops : LaneOps) (width : Nat) (rows : List Row)
    (output : List Float) : List Float :=
  encoded.fillScores ops (clampWidth width) (clamp_width_pos width) rows output

/-- Scores rows into an output of the same length, whatever it held. The output
is judged before the rows, the rows in order. -/
def scoreIntoOn (encoded : EncodedForest) (ops : LaneOps) (width : Nat) (rows : List Row)
    (output : Array Float) : Except Refusal (Array Float) :=
  if output.size = rows.length then
    match rows.zipIdx.find? fun (row, _) => decide (row.size < encoded.featureCount) with
    | some (row, index) => .error (.shortBatchRow index row.size encoded.featureCount)
    | none => .ok (encoded.rawScores ops width rows output.toList).toArray
  else .error .outputLength

def scoreInto (encoded : EncodedForest) (backend : LaneBackend) (width : Nat) (rows : List Row)
    (output : Array Float) : Except Refusal (Array Float) :=
  encoded.scoreIntoOn backend.ops width rows output

end EncodedForest

end SymmetricTrees
