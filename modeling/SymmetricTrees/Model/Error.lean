import SymmetricTrees.Conversion
import SymmetricTrees.Encoded

/-!
What can fail when a model is loaded or applied.
-/

set_option autoImplicit false

namespace SymmetricTrees

inductive InvalidModel where
  | conversion (error : ConversionError)
  | forest (error : ForestError)
  | stream (fault : BlockStream.Fault)
  | missingArgument (name : String)
deriving DecidableEq

def InvalidModel.message : InvalidModel → String
  | conversion error => error.message
  | forest error => error.message
  | stream fault => fault.message
  | missingArgument name => s!"{name} is null"

inductive ModelError where
  | parse (fault : Description.Fault)
  | invalid (cause : InvalidModel)
  | notLoaded
  | insufficientFeatures (expected got : Nat)
  /-- The source of the description failed. -/
  | unreadable (reason : String)
deriving DecidableEq

namespace ModelError

/-- A failure of the source is told apart from a bad text. -/
def ofFault : Description.Fault → ModelError
  | .unreadable reason => unreadable reason
  | fault => parse fault

def messageWith (wording : Description.Fault → String) : ModelError → String
  | parse fault => s!"failed to parse model description: {wording fault}"
  | invalid cause => s!"invalid model: {cause.message}"
  | notLoaded => "model is not loaded"
  | insufficientFeatures expected got =>
      s!"not enough features: expected at least {expected}, got {got}"
  | unreadable reason => s!"failed to read model description: {reason}"

def message : ModelError → String := messageWith Description.Fault.message

end ModelError

end SymmetricTrees
