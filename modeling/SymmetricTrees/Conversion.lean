import SymmetricTrees.Forest
import SymmetricTrees.Description.Model
import SymmetricTrees.Text.Quoted

/-!
From a description to a forest. Trees are converted in order, the splits of a
tree before the tree as a whole; the first violation is reported at its place
in the description.
-/

set_option autoImplicit false

namespace SymmetricTrees

open Description

inductive ConversionError where
  | invalidTree (tree : Nat) (cause : TreeError)
  | unsupportedSplitType (tree split : Nat) (splitType : String)
  | missingFeatureIndex (tree split : Nat)
deriving DecidableEq

def ConversionError.message : ConversionError → String
  | invalidTree tree cause => s!"tree {tree}: {cause.message}"
  | unsupportedSplitType tree split splitType =>
      s!"tree {tree}, split {split}: unsupported split type {Text.quoted splitType}"
  | missingFeatureIndex tree split =>
      s!"tree {tree}, split {split}: missing float_feature_index"

namespace Conversion

/-- The only kind of split that rows of float features can decide. -/
def floatSplitType : String := "FloatFeature"

/-- A split without a type is a float split. The type is judged before the
feature index. -/
def split (tree position : Nat) (entry : SplitEntry) : Except ConversionError Split :=
  match entry.splitType.filter (· != floatSplitType) with
  | some splitType => .error (.unsupportedSplitType tree position splitType)
  | none =>
      match entry.featureIndex with
      | none => .error (.missingFeatureIndex tree position)
      | some feature => .ok ⟨feature, entry.border⟩

def splits (tree : Nat) : Nat → List SplitEntry → Except ConversionError (List Split)
  | _, [] => .ok []
  | position, entry :: rest => do
      let first ← split tree position entry
      let others ← splits tree (position + 1) rest
      return first :: others

def tree (position : Nat) (entry : TreeEntry) : Except ConversionError Tree := do
  let levels ← splits position 0 entry.splits
  (Tree.ofParts levels entry.leafValues.toArray).mapError (.invalidTree position)

def trees (forest : Forest) : Nat → List TreeEntry → Except ConversionError Forest
  | _, [] => .ok forest
  | position, entry :: rest => do
      let converted ← tree position entry
      let larger ← (forest.push converted).mapError fun error => .invalidTree error.tree error.cause
      trees larger (position + 1) rest

end Conversion

/-- The forest of a description. Without a transform in the description the raw
score is kept. -/
def Description.Model.toForest (model : Description.Model) : Except ConversionError Forest :=
  let transform := model.transform.getD ⟨1.0, 0.0⟩
  Conversion.trees
    ((Forest.empty model.features.length).withTransform transform.scale transform.bias) 0
    model.trees

end SymmetricTrees
