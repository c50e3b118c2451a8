import SymmetricTrees.Tree

/-!
What can be wrong with a block stream. An offset is the byte position at which
the offending header or record starts.
-/

set_option autoImplicit false

namespace SymmetricTrees.BlockStream

inductive Fault where
  | unknownKind (offset : Nat) (tag : UInt32)
  | truncated (offset : Nat)
  | inconsistentHeader (offset : Nat)
  | depthTooLarge (offset : Nat) (depth : UInt32)
  | featureOutOfRange (offset : Nat) (feature : UInt32) (featureCount : Nat)
  | leafTableMismatch (expected got : Nat)
deriving DecidableEq

def Fault.message : Fault → String
  | unknownKind offset tag => s!"unknown block kind tag {tag} at offset {offset}"
  | truncated offset => s!"block stream truncated at offset {offset}"
  | inconsistentHeader offset =>
      s!"block header at offset {offset} is inconsistent with its kind and depth"
  | depthTooLarge offset depth =>
      s!"block at offset {offset} has depth {depth}, maximum is {maxDepth}"
  | featureOutOfRange offset feature featureCount =>
      s!"split at offset {offset} uses feature {feature}, model has {featureCount}"
  | leafTableMismatch expected got =>
      s!"blocks consume {expected} leaf values but the table holds {got}"

end SymmetricTrees.BlockStream
