import SymmetricTrees.Tree
import SymmetricTrees.BlockStream.Layout

/-!
Blocks of a stream. A block opens with a header that names its kind and the
depth shared by its trees; kind and depth fix how many split records follow and
how many values the block takes from the leaf table.
-/

set_option autoImplicit false

namespace SymmetricTrees.BlockStream

inductive Kind where
  /-- One tree, one split per record. -/
  | scalar
  /-- One tree, four splits per wide record and the rest one by one. -/
  | chunks
  /-- Four trees of equal depth, one wide record per level. -/
  | grouped
deriving DecidableEq

namespace Kind

/-- Zero is no tag, so that zeroed memory never opens a block. -/
def tag : Kind → UInt32
  | scalar => 1
  | chunks => 2
  | grouped => 3

def ofTag? (tag : UInt32) : Option Kind :=
  if tag = 1 then some scalar
  else if tag = 2 then some chunks
  else if tag = 3 then some grouped
  else none

def treeCount : Kind → Nat
  | scalar => 1
  | chunks => 1
  | grouped => 4

def wideCount (kind : Kind) (depth : Nat) : Nat :=
  match kind with
  | scalar => 0
  | chunks => depth / 4
  | grouped => depth

def singleCount (kind : Kind) (depth : Nat) : Nat :=
  match kind with
  | scalar => depth
  | chunks => depth % 4
  | grouped => 0

/-- The leaf values that a block takes, counted in a 64-bit word by a shift. -/
def leafWord (kind : Kind) (depth : UInt32) : UInt64 :=
  kind.treeCount.toUInt64 <<< depth.toUInt64

end Kind

structure Header where
  tag : UInt32
  depth : UInt32
  recordCount : UInt32
  leafCount : UInt32
deriving DecidableEq

namespace Header

/-- The header of a block. Its leaf count keeps the low 32 bits only. -/
def ofKind (kind : Kind) (depth : UInt32) : Header where
  tag := kind.tag
  depth := depth
  recordCount := UInt32.ofNat (kind.wideCount depth.toNat + kind.singleCount depth.toNat)
  leafCount := (kind.leafWord depth).toUInt32

def kind? (header : Header) : Option Kind := Kind.ofTag? header.tag

/-- The record count and the whole leaf count are those of the kind and depth. -/
def agrees (header : Header) (kind : Kind) : Bool :=
  header.recordCount.toNat ==
      kind.wideCount header.depth.toNat + kind.singleCount header.depth.toNat &&
    header.leafCount.toUInt64 == kind.leafWord header.depth

def layout : Layout Header :=
  (Layout.word.pair (Layout.word.pair (Layout.word.pair Layout.word))).relabel
    (fun words => ⟨words.1, words.2.1, words.2.2.1, words.2.2.2⟩)
    (fun header => (header.tag, header.depth, header.recordCount, header.leafCount))
    (fun _ => rfl) (fun _ => rfl)

end Header

/-- What a good header tells: a kind and a depth that the reader admits. -/
structure Block where
  kind : Kind
  depth : Nat
  depth_le : depth ≤ maxDepth := by decide
deriving DecidableEq

namespace Block

def wideCount (block : Block) : Nat := block.kind.wideCount block.depth

def singleCount (block : Block) : Nat := block.kind.singleCount block.depth

def leafCount (block : Block) : Nat := block.kind.treeCount <<< block.depth

end Block

end SymmetricTrees.BlockStream
