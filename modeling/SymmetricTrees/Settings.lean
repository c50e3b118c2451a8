import SymmetricTrees.Grouping
import SymmetricTrees.Scoring.Batch

/-!
Settings of the engine: how trees are packed, how lanes are compared, how many
rows share a walk, and how many rows of a matrix one worker takes at a time.
-/

set_option autoImplicit false

namespace SymmetricTrees

structure Settings where
  grouping : GroupingOrder := .encounter
  lanes : LaneBackend := .simd
  batchWidth : Nat := Scoring.maxBatchWidth
  blockSize : Nat := 64
deriving DecidableEq

inductive SettingsError where
  | invalidBatchWidth (width : Nat)
  | invalidBlockSize
deriving DecidableEq

def SettingsError.message : SettingsError → String
  | invalidBatchWidth width =>
      s!"batch_width must be in 1..={Scoring.maxBatchWidth}, got {width}"
  | invalidBlockSize => "block_size must be at least 1"

/-- Accepts settings whose widths are usable. The batch width is judged first. -/
def Settings.check (settings : Settings) : Except SettingsError Settings :=
  if 1 ≤ settings.batchWidth ∧ settings.batchWidth ≤ Scoring.maxBatchWidth then
    if 1 ≤ settings.blockSize then .ok settings else .error .invalidBlockSize
  else .error (.invalidBatchWidth settings.batchWidth)

end SymmetricTrees
