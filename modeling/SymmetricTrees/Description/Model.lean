import SymmetricTrees.Description.Shape
import SymmetricTrees.Description.FreeValue

/-!
Model descriptions: the declared float features, the trees, and the affine
transform of the summed leaf values. Other parts of a description are skipped. A
slot of a draft is filled when its field has been read.
-/

set_option autoImplicit false

namespace SymmetricTrees.Description

open Scan

structure Transform where
  scale : Float
  bias : Float

/-- One declared float feature. Scoring needs no more of it than its place. -/
structure FloatFeature where
  featureIndex : Option UInt32 := none
  flatFeatureIndex : Option UInt32 := none
  borders : List Binary32 := []
  hasNans : Bool := false
  nanTreatment : Option String := none

structure SplitEntry where
  border : Binary32
  featureIndex : Option UInt32 := none
  splitIndex : Option UInt32 := none
  splitType : Option String := none

structure TreeEntry where
  splits : List SplitEntry
  leafValues : List Float

structure Model where
  features : List FloatFeature
  trees : List TreeEntry
  transform : Option Transform := none

structure FeatureDraft where
  featureIndex : Option (Option UInt32) := none
  flatFeatureIndex : Option (Option UInt32) := none
  borders : Option (List Binary32) := none
  hasNans : Option Bool := none
  nanTreatment : Option (Option String) := none

def featureShape : Shape FeatureDraft FloatFeature where
  blank := {}
  fields :=
    [.slot "feature_index" false FeatureDraft.featureIndex
      (fun draft value => { draft with featureIndex := some value }) (optionalField indexField),
    .slot "flat_feature_index" false FeatureDraft.flatFeatureIndex
      (fun draft value => { draft with flatFeatureIndex := some value })
      (optionalField indexField),
    .slot "borders" false FeatureDraft.borders
      (fun draft value => { draft with borders := some value }) (listField singleField),
    .slot "has_nans" false FeatureDraft.hasNans
      (fun draft value => { draft with hasNans := some value }) booleanField,
    .slot "nan_value_treatment" false FeatureDraft.nanTreatment
      (fun draft value => { draft with nanTreatment := some value }) (optionalField textField)]
  build? draft := some
    { featureIndex := draft.featureIndex.join
      flatFeatureIndex := draft.flatFeatureIndex.join
      borders := draft.borders.getD []
      hasNans := draft.hasNans.getD false
      nanTreatment := draft.nanTreatment.join }

structure CatalogDraft where
  floatFeatures : Option (List FloatFeature) := none

def catalogShape : Shape CatalogDraft (List FloatFeature) where
  blank := {}
  fields :=
    [.slot "float_features" true CatalogDraft.floatFeatures
      (fun draft value => { draft with floatFeatures := some value })
      (listField featureShape.read)]
  build? draft := draft.floatFeatures

structure SplitDraft where
  border : Option Binary32 := none
  featureIndex : Option (Option UInt32) := none
  splitIndex : Option (Option UInt32) := none
  splitType : Option (Option String) := none

def splitShape : Shape SplitDraft SplitEntry where
  blank := {}
  fields :=
    [.slot "border" true SplitDraft.border
      (fun draft value => { draft with border := some value }) singleField,
    .slot "float_feature_index" false SplitDraft.featureIndex
      (fun draft value => { draft with featureIndex := some value }) (optionalField indexField),
    .slot "split_index" false SplitDraft.splitIndex
      (fun draft value => { draft with splitIndex := some value }) (optionalField indexField),
    .slot "split_type" false SplitDraft.splitType
      (fun draft value => { draft with splitType := some value }) (optionalField textField)]
  build? draft := do
    let border ← draft.border
    some
      { border
        featureIndex := draft.featureIndex.join
        splitIndex := draft.splitIndex.join
        splitType := draft.splitType.join }

structure TreeDraft where
  splits : Option (List SplitEntry) := none
  leafValues : Option (List Float) := none

def treeShape : Shape TreeDraft TreeEntry where
  blank := {}
  fields :=
    [.slot "splits" true TreeDraft.splits
      (fun draft value => { draft with splits := some value }) (listField splitShape.read),
    .slot "leaf_values" true TreeDraft.leafValues
      (fun draft value => { draft with leafValues := some value }) (listField doubleField)]
  build? draft := do
    let splits ← draft.splits
    let leafValues ← draft.leafValues
    some { splits, leafValues }

/-- The bias is a number, or the first of a list of numbers. -/
def biasOf : FreeValue → Except Mismatch Float
  | .number bias => .ok bias.toFloat
  | .array items =>
      match items.mapM fun item =>
          match item with
          | .number bias => some bias.toFloat
          | _ => none with
      | none => .error .wrongValue
      | some [] => .error .biasEmpty
      | some (bias :: _) => .ok bias
  | _ => .error .wrongValue

/-- A pair of scale and bias. A list of any other length, whatever it holds,
stands for no transform. -/
def transformOf : FreeValue → Except Mismatch (Option Transform)
  | .null => .ok none
  | .array [scale, bias] =>
      match scale with
      | .number scale =>
          match biasOf bias with
          | .ok bias => .ok (some ⟨scale.toFloat, bias⟩)
          | .error mismatch => .error mismatch
      | _ => .error .scaleNotNumber
  | .array _ => .ok none
  | _ => .error .transformNotArray

/-- With the record around it, a free value has at most 127 arrays and objects
open at a time. -/
def maxNesting : Nat := 126

def transformField : Scan (Option Transform) := do
  match transformOf (← freeValue maxNesting) with
  | .ok transform => return transform
  | .error mismatch => fail (.unsuited mismatch)

structure ModelDraft where
  features : Option (List FloatFeature) := none
  trees : Option (List TreeEntry) := none
  transform : Option (Option Transform) := none

def modelShape : Shape ModelDraft Model where
  blank := {}
  fields :=
    [.slot "features_info" true ModelDraft.features
      (fun draft value => { draft with features := some value }) catalogShape.read,
    .slot "oblivious_trees" true ModelDraft.trees
      (fun draft value => { draft with trees := some value }) (listField treeShape.read),
    .slot "scale_and_bias" false ModelDraft.transform
      (fun draft value => { draft with transform := some value }) transformField]
  build? draft := do
    let features ← draft.features
    let trees ← draft.trees
    some { features, trees, transform := draft.transform.join }

def trailer : Scan Unit := do
  let _ ← takeRun isBlank
  match ← peek? with
  | none => return ()
  | some _ => fail .malformed

/-- Reads a whole description, or tells the first problem in reading order. -/
def Model.read (source : Source) : Except Fault Model :=
  match modelShape.read source with
  | .error fault => .error fault
  | .ok (model, after) =>
      match trailer after with
      | .error fault => .error fault
      | .ok _ => .ok model

end SymmetricTrees.Description
