import SymmetricTrees.Encoded
import SymmetricTrees.BlockStream.Walk
import SymmetricTrees.Lanes
import SymmetricTrees.Outcome

/-!
Scoring one row by a walk of the block stream. Each block yields the leaf
positions of its trees from the split outcomes, its records being read one by
one; the leaf values found there are added to the running score in tree order,
starting from positive zero.
-/

set_option autoImplicit false

namespace SymmetricTrees

open BlockStream

namespace Scoring

/-- What ends a walk before the end of the stream. -/
inductive Trap where
  | missingRecord
  | missingFeature
  | missingLeaf
  /-- A shift by the width of a word or more. -/
  | wideShift
deriving DecidableEq

def shiftLeft (word : UInt32) (amount : Nat) : Except Trap UInt32 :=
  if amount < 32 then .ok (word <<< UInt32.ofNat amount) else .error .wideShift

def testSplit (row : Row) (level : Nat) (index : UInt32) (split : Split) :
    Except Trap UInt32 :=
  match split.outcome? row with
  | none => .error .missingFeature
  | some outcome =>
      match shiftLeft outcome.toUInt32 level with
      | .error trap => .error trap
      | .ok bit => .ok (index ||| bit)

/-- In chunk `c` of a tree, lane `k` holds split `4 c + k`. -/
def chunkWeights (ops : LaneOps) (chunk : Nat) : Except Trap ops.Words :=
  if 4 * chunk < 32 then
    .ok (ops.shiftLeft (ops.ofQuad ⟨1, 2, 4, 8⟩) (UInt32.ofNat (4 * chunk)))
  else .error .wideShift

/-- In a group of trees, every lane holds a split of the same level. -/
def levelWeights (ops : LaneOps) (level : Nat) : Except Trap ops.Words :=
  match shiftLeft 1 level with
  | .error trap => .error trap
  | .ok bit => .ok (ops.splat bit)

def testWide (ops : LaneOps) (row : Row) (weights selected : ops.Words) (record : WideSplit) :
    Except Trap ops.Words :=
  match record.gather? row with
  | none => .error .missingFeature
  | some values =>
      .ok (ops.or selected
        (ops.selectGreater (ops.load values) (ops.load (record.thresholds.map Binary32.value))
          weights))

def testWideAt (ops : LaneOps) (row : Row) (weights : Nat → Except Trap ops.Words)
    (place : Nat) (selected : ops.Words) (record : WideSplit) : Except Trap ops.Words :=
  match weights place with
  | .error trap => .error trap
  | .ok weights => testWide ops row weights selected record

/-- The place of each lane's leaf, the leaf tables of the lanes being adjacent. -/
def groupPositions (depth : Nat) (indices : Quad UInt32) : List Nat :=
  indices.toList.zipIdx.map fun (index, lane) => lane * (1 <<< depth) + index.toNat

/-- Reads the records of a block. Yields the leaf positions of its trees inside
the block's part of the table. -/
def leafPositions (ops : LaneOps) (row : Row) (block : Block) (reader : Reader) :
    Except Trap (List Nat × Reader) :=
  match block.kind with
  | .scalar => do
      let (index, after) ←
        reader.foldRecords .missingRecord splitLayout (testSplit row) block.depth 0 0
      return ([index.toNat], after)
  | .chunks => do
      let (selected, afterWide) ← reader.foldRecords .missingRecord WideSplit.layout
        (testWideAt ops row (chunkWeights ops)) block.wideCount 0 ops.zero
      let (index, after) ← afterWide.foldRecords .missingRecord splitLayout
        (fun tail => testSplit row (4 * block.wideCount + tail)) block.singleCount 0
        (ops.sum selected)
      return ([index.toNat], after)
  | .grouped => do
      let (selected, after) ← reader.foldRecords .missingRecord WideSplit.layout
        (testWideAt ops row (levelWeights ops)) block.depth 0 ops.zero
      return (groupPositions block.depth (ops.toQuad selected), after)

def addLeaves (leaves : Array Float) (offset : Nat) : Float → List Nat → Except Trap Float
  | score, [] => .ok score
  | score, position :: rest =>
      match leaves[offset + position]? with
      | none => .error .missingLeaf
      | some value => addLeaves leaves offset (score + value) rest

def addBlock (ops : LaneOps) (leaves : Array Float) (row : Row) (offset : Nat) (block : Block)
    (score : Float) (reader : Reader) : Except Trap (Float × Reader) := do
  let (positions, after) ← leafPositions ops row block reader
  let total ← addLeaves leaves offset score positions
  return (total, after)

theorem leaf_positions_length {ops : LaneOps} {row : Row} {block : Block} {reader after : Reader}
    {positions : List Nat} (taken : leafPositions ops row block reader = .ok (positions, after)) :
    after.rest.length ≤ reader.rest.length := by
  unfold leafPositions at taken
  split at taken
  case h_1 =>
    obtain ⟨_, single, same⟩ := Outcome.bind_eq_ok_iff.mp taken
    cases same
    exact Reader.fold_records_length single
  case h_2 =>
    obtain ⟨_, wide, rest⟩ := Outcome.bind_eq_ok_iff.mp taken
    obtain ⟨_, single, same⟩ := Outcome.bind_eq_ok_iff.mp rest
    cases same
    exact Nat.le_trans (Reader.fold_records_length single) (Reader.fold_records_length wide)
  case h_3 =>
    obtain ⟨_, wide, same⟩ := Outcome.bind_eq_ok_iff.mp taken
    cases same
    exact Reader.fold_records_length wide

def rowWalker (ops : LaneOps) (leaves : Array Float) (row : Row) : Walker Trap Float where
  next := nextOrEnd
  visit := addBlock ops leaves row
  next_length := next_or_end_length
  visit_length := by
    intro offset block score total reader after visited
    obtain ⟨_, taken, rest⟩ := Outcome.bind_eq_ok_iff.mp visited
    obtain ⟨_, _, same⟩ := Outcome.bind_eq_ok_iff.mp rest
    cases same
    exact leaf_positions_length taken

inductive Refusal where
  | shortRow (got needed : Nat)
  | shortBatchRow (index got needed : Nat)
  | outputLength
deriving DecidableEq

def Refusal.message : Refusal → String
  | shortRow got needed => s!"example has {got} features, forest needs {needed}"
  | shortBatchRow index got needed => s!"row {index} has {got} features, forest needs {needed}"
  | outputLength => "output length must equal the number of rows"

/-- What a walk would answer on a stream that the check had not seen. -/
def unknownScore : Float := 0.0 / 0.0

end Scoring

namespace EncodedForest

def rawScore (encoded : EncodedForest) (ops : LaneOps) (row : Row) : Float :=
  match (Scoring.rowWalker ops encoded.leaves row).walk (Reader.ofBytes encoded.stream) 0 0.0 with
  | .ok arrival => arrival.state
  | .error _ => Scoring.unknownScore

/-- Scores a row that has all declared features; further ones are ignored. -/
def scoreOn (encoded : EncodedForest) (ops : LaneOps) (row : Row) :
    Except Scoring.Refusal Float :=
  if encoded.featureCount ≤ row.size then .ok (encoded.rawScore ops row)
  else .error (.shortRow row.size encoded.featureCount)

def score (encoded : EncodedForest) (backend : LaneBackend) (row : Row) :
    Except Scoring.Refusal Float :=
  encoded.scoreOn backend.ops row

end EncodedForest

end SymmetricTrees
