import SymmetricTrees.Binary32

/-!
Symmetric decision trees: one split per level, shared by every node of that
level, and a dense table with one leaf value per pattern of split outcomes.
A tree of depth `d` has exactly `2 ^ d` leaf values, and `d` is at most 31.
-/

set_option autoImplicit false

namespace SymmetricTrees

abbrev Row := Array Float32

/-- One level test: does the feature exceed the threshold? -/
structure Split where
  feature : UInt32
  threshold : Binary32
deriving DecidableEq, Inhabited

/-- The outcome of a split, absent when the row lacks the feature. The
comparison is strict, and a NaN on either side never exceeds anything. -/
def Split.outcome? (split : Split) (row : Row) : Option Bool :=
  row[split.feature.toNat]?.map fun value => decide (split.threshold.value < value)

/-- Leaf indices are accumulated in 32-bit words, one bit per level. -/
def maxDepth : Nat := 31

/-- A symmetric tree. Leaves are indexed by the split outcomes, the outcome of
the first split being the lowest bit. -/
structure Tree where
  splits : List Split
  leaves : Array Float
  depth_le : splits.length ≤ maxDepth
  leaves_size : leaves.size = 1 <<< splits.length

inductive TreeError where
  | depthTooLarge (depth : Nat)
  | leafCountMismatch (depth leafCount : Nat)
  | featureOutOfRange (level : Nat) (feature : UInt32) (featureCount : Nat)
deriving DecidableEq

def TreeError.message : TreeError → String
  | depthTooLarge depth => s!"tree depth {depth} exceeds the maximum of {maxDepth}"
  | leafCountMismatch depth leafCount =>
      s!"tree of depth {depth} needs {1 <<< depth} leaf values, got {leafCount}"
  | featureOutOfRange level feature featureCount =>
      s!"split {level} uses feature {feature} but the model declares {featureCount} features"

namespace Tree

/-- Accepts splits and leaf values that form a tree. The depth is judged
before the leaf count. -/
def ofParts (splits : List Split) (leaves : Array Float) : Except TreeError Tree :=
  if shallow : splits.length ≤ maxDepth then
    if dense : leaves.size = 1 <<< splits.length then
      .ok ⟨splits, leaves, shallow, dense⟩
    else
      .error (.leafCountMismatch splits.length leaves.size)
  else
    .error (.depthTooLarge splits.length)

def depth (tree : Tree) : Nat := tree.splits.length

def features (tree : Tree) : List UInt32 := tree.splits.map Split.feature

def Fits (tree : Tree) (featureCount : Nat) : Prop :=
  ∀ split ∈ tree.splits, split.feature.toNat < featureCount

instance (tree : Tree) (featureCount : Nat) : Decidable (tree.Fits featureCount) :=
  inferInstanceAs (Decidable (∀ split ∈ tree.splits, split.feature.toNat < featureCount))

def firstMisfit? (tree : Tree) (featureCount : Nat) : Option (Split × Nat) :=
  tree.splits.zipIdx.find? fun (split, _) => decide (featureCount ≤ split.feature.toNat)

def checkFeatures (tree : Tree) (featureCount : Nat) : Except TreeError Unit :=
  match tree.firstMisfit? featureCount with
  | some (split, level) => .error (.featureOutOfRange level split.feature featureCount)
  | none => .ok ()

theorem first_misfit?_eq_none_iff (tree : Tree) (featureCount : Nat) :
    tree.firstMisfit? featureCount = none ↔ tree.Fits featureCount := by
  simp only [firstMisfit?, List.find?_eq_none, Fits, decide_eq_true_eq, Nat.not_le]
  constructor
  · intro inside split member
    obtain ⟨level, bound, found⟩ := List.mem_iff_getElem.mp member
    have indexed : (split, level) ∈ tree.splits.zipIdx := by
      rw [List.mem_zipIdx_iff_getElem?, List.getElem?_eq_getElem bound, found]
    exact inside _ indexed
  · rintro inside ⟨split, level⟩ member
    rw [List.mem_zipIdx_iff_getElem?] at member
    exact inside split (List.mem_of_getElem? member)

def setOutcome? (row : Row) (word : UInt32) (test : Split × Nat) : Option UInt32 :=
  (test.1.outcome? row).map fun outcome =>
    word ||| (outcome.toUInt32 <<< UInt32.ofNat test.2)

def leafWord? (row : Row) (splits : List Split) : Option UInt32 :=
  splits.zipIdx.foldlM (setOutcome? row) 0

def leafIndex? (tree : Tree) (row : Row) : Option Nat :=
  (leafWord? row tree.splits).map UInt32.toNat

def predict? (tree : Tree) (row : Row) : Option Float := do
  let index ← tree.leafIndex? row
  tree.leaves[index]?

end Tree

end SymmetricTrees
