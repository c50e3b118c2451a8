import SymmetricTrees.BlockStream.Check
import SymmetricTrees.BlockStream.Records

/-!
Encoded forests: a block stream, the leaf table that its blocks take from front
to back, and the number of declared features. Only streams that pass the check
become encoded forests, so every walk may rely on it.
-/

set_option autoImplicit false

namespace SymmetricTrees

open BlockStream

/-- A stream that passed the check, with its leaf table. -/
structure EncodedForest where
  stream : List UInt8
  leaves : Array Float
  featureCount : Nat
  blockCount : Nat
  checked : BlockStream.check stream leaves.size featureCount = .ok blockCount

structure Statistics where
  treeCount : Nat
  scalarBlocks : Nat
  chunkBlocks : Nat
  groupBlocks : Nat
  leafCount : Nat
deriving DecidableEq

def Statistics.blockCount (statistics : Statistics) : Nat :=
  statistics.scalarBlocks + statistics.chunkBlocks + statistics.groupBlocks

namespace EncodedForest

def ofParts (stream : List UInt8) (leaves : Array Float) (featureCount : Nat) :
    Except Fault EncodedForest :=
  match checked : BlockStream.check stream leaves.size featureCount with
  | .error fault => .error fault
  | .ok blockCount => .ok ⟨stream, leaves, featureCount, blockCount, checked⟩

def blocks (encoded : EncodedForest) : List Block :=
  (BlockStream.blocksFrom (Reader.ofBytes encoded.stream)).1

def treeCount (encoded : EncodedForest) : Nat :=
  encoded.blocks.foldl (fun total block => total + block.kind.treeCount) 0

def statistics (encoded : EncodedForest) : Statistics :=
  let kinds := encoded.blocks.map Block.kind
  { treeCount := encoded.treeCount
    scalarBlocks := kinds.count .scalar
    chunkBlocks := kinds.count .chunks
    groupBlocks := kinds.count .grouped
    leafCount := encoded.leaves.size }

end EncodedForest

end SymmetricTrees
