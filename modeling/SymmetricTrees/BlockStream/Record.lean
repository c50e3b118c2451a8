import SymmetricTrees.Quad
import SymmetricTrees.BlockStream.Block

/-!
Split records of a stream. A single record holds one split, its threshold
first. A wide record holds four splits, the four thresholds first: its lanes
belong to four trees at one level, or to four consecutive splits of one tree.
-/

set_option autoImplicit false

namespace SymmetricTrees.BlockStream

def thresholdLayout : Layout Binary32 :=
  Layout.word.relabel Binary32.mk Binary32.bits (fun _ => rfl) (fun _ => rfl)

def splitLayout : Layout Split :=
  (thresholdLayout.pair Layout.word).relabel
    (fun words => ⟨words.2, words.1⟩) (fun split => (split.threshold, split.feature))
    (fun _ => rfl) (fun _ => rfl)

def quadLayout {Value : Type} (lane : Layout Value) : Layout (Quad Value) :=
  (lane.pair (lane.pair (lane.pair lane))).relabel
    (fun values => ⟨values.1, values.2.1, values.2.2.1, values.2.2.2⟩)
    (fun quad => (quad.lane0, quad.lane1, quad.lane2, quad.lane3))
    (fun _ => rfl) (fun _ => rfl)

/-- Four splits that are tested together. -/
structure WideSplit where
  thresholds : Quad Binary32
  features : Quad UInt32
deriving DecidableEq

namespace WideSplit

def ofSplits (splits : Quad Split) : WideSplit :=
  ⟨splits.map Split.threshold, splits.map Split.feature⟩

/-- The four tested values, absent when the row lacks one of the features. -/
def gather? (record : WideSplit) (row : Row) : Option (Quad Float32) :=
  record.features.traverse? fun feature => row[feature.toNat]?

def layout : Layout WideSplit :=
  ((quadLayout thresholdLayout).pair (quadLayout Layout.word)).relabel
    (fun quads => ⟨quads.1, quads.2⟩) (fun record => (record.thresholds, record.features))
    (fun _ => rfl) (fun _ => rfl)

end WideSplit

end SymmetricTrees.BlockStream
