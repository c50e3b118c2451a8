import SymmetricTrees.Matrix
import SymmetricTrees.Settings
import SymmetricTrees.Workers
import SymmetricTrees.Model.Error

/-!
Compiled models: an encoded forest with its affine transform and the settings
it was compiled under. Every way of scoring rows judges the features before it
scores, and applies the transform once to each raw score.
-/

set_option autoImplicit false

namespace SymmetricTrees

structure CompiledModel where
  encoded : EncodedForest
  scale : Float
  bias : Float
  settings : Settings

inductive BatchError where
  | model (error : ModelError)
  | outputLength
  | blockSize
  /-- The scores of a block do not fit into its part of the output. -/
  | blockShape
deriving DecidableEq

def BatchError.message : BatchError → String
  | model error => error.message
  | outputLength => Scoring.Refusal.outputLength.message
  | blockSize => SettingsError.invalidBlockSize.message
  | blockShape => "could not assign the scores of a block to the output"

namespace CompiledModel

def ofForest (settings : Settings) (forest : Forest) : Except ModelError CompiledModel :=
  match forest.check with
  | .error error => .error (.invalid (.forest error))
  | .ok () =>
      match forest.encode settings.grouping with
      | .error fault => .error (.invalid (.stream fault))
      | .ok encoded => .ok ⟨encoded, forest.scale, forest.bias, settings⟩

def ofSource (settings : Settings) (source : Description.Source) :
    Except ModelError CompiledModel :=
  match Description.Model.read source with
  | .error fault => .error (.ofFault fault)
  | .ok model =>
      match model.toForest with
      | .error error => .error (.invalid (.conversion error))
      | .ok forest => ofForest settings forest

def featureCount (model : CompiledModel) : Nat := model.encoded.featureCount

def transform (model : CompiledModel) (raw : Float) : Float := model.scale * raw + model.bias

def checkFeatures (model : CompiledModel) (got : Nat) : Except ModelError Unit :=
  if got < model.featureCount then .error (.insufficientFeatures model.featureCount got)
  else .ok ()

def score (model : CompiledModel) (row : Row) : Except ModelError Float := do
  model.checkFeatures row.size
  return model.transform (model.encoded.rawScore model.settings.lanes.ops row)

/-- Scores rows that have been judged over an output: the raw scores first, then
the transform of each in place. -/
def fillScores (model : CompiledModel) (rows : List Row) (output : List Float) : List Float :=
  (model.encoded.rawScores model.settings.lanes.ops model.settings.batchWidth rows output).map
    model.transform

/-- Scores many rows into an output. The output changes only if all are scored. -/
def scoreInto (model : CompiledModel) (rows : List Row) (output : Array Float) :
    Except BatchError Unit × Array Float :=
  if output.size = rows.length then
    match rows.forM fun row => model.checkFeatures row.size with
    | .ok () => (.ok (), (model.fillScores rows output.toList).toArray)
    | .error error => (.error (.model error), output)
  else (.error .outputLength, output)

/-- Scores many rows, or none when one of them is too short. -/
def scoreMany (model : CompiledModel) (rows : List Row) : Except ModelError (List Float) :=
  match model.scoreInto rows (rows.map fun _ => 0.0).toArray with
  | (.ok (), filled) => .ok filled.toList
  | (.error (.model error), _) => .error error
  | (.error _, unfilled) => .ok unfilled.toList

section Matrix

variable {View : Type}

/-- The rows of a block of a matrix. Rows without values are counted, since there is
nothing to cut them from. -/
def blockRows (library : MatrixLibrary View) (columnCount : Nat) (block : View) : List Row :=
  let values := (library.rowMajor? block).getD []
  if positive : 0 < columnCount then rowsOfLength columnCount positive values
  else List.replicate (library.rowCount block) #[]

def scoreBlock (model : CompiledModel) (library : MatrixLibrary View) (columnCount : Nat)
    (output : Array Float) (part : View × Span) : Except BatchError (Array Float) :=
  let rows := blockRows library columnCount part.1
  match library.assign? output part.2 (model.fillScores rows (rows.map fun _ => 0.0)) with
  | some filled => .ok filled
  | none => .error .blockShape

/-- Scores a matrix in blocks of rows that workers share. The number of columns is
judged even if there is no row. The matrix and the output are cut apart from each
other; each block of rows goes with one part of the output. -/
def scoreMatrixOn (model : CompiledModel) (library : MatrixLibrary View) (machine : Machine)
    (threads : Nat) (matrix : View) : Except BatchError (List Float) :=
  let columnCount := library.columnCount matrix
  match model.checkFeatures columnCount with
  | .error error => .error (.model error)
  | .ok () =>
      let output := Array.replicate (library.rowCount matrix) 0.0
      let blockSize := model.settings.blockSize
      if library.rowCount matrix = 0 then .ok output.toList
      else if 0 < blockSize then do
        let blocks := (library.blocks blockSize (library.rowCount matrix)).map
          (library.rowsOf matrix)
        let parts := blocks.zip (library.blocks blockSize output.size)
        let filled ← (machine.visits parts (machine.schedule threads)).foldlM
          (model.scoreBlock library columnCount) output
        return filled.toList
      else .error .blockSize

end Matrix

def scoreMatrix (model : CompiledModel) (threads : Nat) (matrix : Matrix) :
    Except BatchError (List Float) :=
  model.scoreMatrixOn Matrix.library .ordinary threads matrix

end CompiledModel

end SymmetricTrees
