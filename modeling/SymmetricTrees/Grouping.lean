import SymmetricTrees.Forest
import SymmetricTrees.Encoded
import SymmetricTrees.BlockStream.Writer

/-!
Encoding a forest. Trees are taken by ascending depth. Within one depth they
are packed four at a time; each of the at most three trees left over becomes a
block of chunks when it has four splits or more, and a scalar block otherwise.
-/

set_option autoImplicit false

namespace SymmetricTrees

open BlockStream

/-- The order in which trees of one depth are packed. -/
inductive GroupingOrder where
  /-- As they come in the forest. -/
  | encounter
  /-- By their tested features, level by level; equal ones as they come. -/
  | sorted
deriving DecidableEq

namespace Grouping

/-- The least depth at which a single tree is packed in chunks of four splits. -/
def minimumChunkedDepth : Nat := 4

def arrange (order : GroupingOrder) (trees : List Tree) : List Tree :=
  match order with
  | .encounter => trees
  | .sorted => trees.mergeSort fun left right => decide (left.features ≤ right.features)

def bucket (order : GroupingOrder) (trees : List Tree) (depth : Nat) : List Tree :=
  arrange order (trees.filter fun tree => tree.depth == depth)

structure Output where
  writer : Writer := {}
  leaves : Array Float := #[]

namespace Output

def header (output : Output) (kind : Kind) (depth : Nat) : Output :=
  { output with writer := output.writer.write Header.layout (.ofKind kind (UInt32.ofNat depth)) }

def wide (output : Output) (splits : Quad Split) : Output :=
  { output with writer := output.writer.write WideSplit.layout (.ofSplits splits) }

def single (output : Output) (split : Split) : Output :=
  { output with writer := output.writer.write splitLayout split }

def appendLeaves (output : Output) (tree : Tree) : Output :=
  { output with leaves := output.leaves ++ tree.leaves }

/-- Four trees of one depth, level by level. -/
def group (output : Output) (depth : Nat) (trees : Quad Tree) : Output :=
  let levels := Quad.zip trees.lane0.splits trees.lane1.splits trees.lane2.splits trees.lane3.splits
  let written := levels.foldl wide (output.header .grouped depth)
  trees.toList.foldl appendLeaves written

/-- One tree, four splits at a time and the last ones singly. -/
def chunked (output : Output) (tree : Tree) : Output :=
  let (chunks, tail) := Quad.groups tree.splits
  let written := chunks.foldl wide (output.header .chunks tree.depth)
  (tail.foldl single written).appendLeaves tree

def unchunked (output : Output) (tree : Tree) : Output :=
  (tree.splits.foldl single (output.header .scalar tree.depth)).appendLeaves tree

def leftover (output : Output) (tree : Tree) : Output :=
  if minimumChunkedDepth ≤ tree.depth then output.chunked tree else output.unchunked tree

def depthClass (output : Output) (depth : Nat) (trees : List Tree) : Output :=
  let (groups, leftovers) := Quad.groups trees
  leftovers.foldl leftover (groups.foldl (fun written trees => written.group depth trees) output)

end Output

def depths : List Nat := List.range (maxDepth + 1)

end Grouping

/-- Encodes a forest and checks the stream. The check refuses four trees that
together have more leaf values than a header can count. -/
def Forest.encode (forest : Forest) (order : GroupingOrder) : Except Fault EncodedForest :=
  let output := Grouping.depths.foldl
    (fun output depth => output.depthClass depth (Grouping.bucket order forest.trees.toList depth))
    ({} : Grouping.Output)
  EncodedForest.ofParts output.writer.toList output.leaves forest.featureCount

end SymmetricTrees
