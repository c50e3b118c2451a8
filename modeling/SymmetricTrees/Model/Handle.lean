import SymmetricTrees.Model.Compiled

/-!
Handles: a model may be loaded into a handle again and again. A load that fails
leaves the model before it in place.
-/

set_option autoImplicit false

namespace SymmetricTrees

structure Handle where
  settings : Settings := {}
  model : Option CompiledModel := none

namespace Handle

def isLoaded (handle : Handle) : Bool := handle.model.isSome

def install (handle : Handle) : Except ModelError CompiledModel → Except ModelError Unit × Handle
  | .ok model => (.ok (), { handle with model := some model })
  | .error error => (.error error, handle)

def load (handle : Handle) (source : Description.Source) : Except ModelError Unit × Handle :=
  handle.install (CompiledModel.ofSource handle.settings source)

def loadForest (handle : Handle) (forest : Forest) : Except ModelError Unit × Handle :=
  handle.install (CompiledModel.ofForest handle.settings forest)

def loaded (handle : Handle) : Except ModelError CompiledModel :=
  match handle.model with
  | some model => .ok model
  | none => .error .notLoaded

def score (handle : Handle) (row : Row) : Except ModelError Float := do
  (← handle.loaded).score row

def scoreMany (handle : Handle) (rows : List Row) : Except ModelError (List Float) := do
  (← handle.loaded).scoreMany rows

def scoreInto (handle : Handle) (rows : List Row) (output : Array Float) :
    Except BatchError Unit × Array Float :=
  match handle.loaded with
  | .ok model => model.scoreInto rows output
  | .error error => (.error (.model error), output)

def featureCount (handle : Handle) : Nat :=
  match handle.model with
  | some model => model.featureCount
  | none => 0

end Handle

end SymmetricTrees
