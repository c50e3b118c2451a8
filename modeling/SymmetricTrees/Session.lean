import SymmetricTrees.Model.Handle

/-!
Sessions of callers that cannot take an error as a value. Any argument may be
absent. A call that fails answers with a fixed fallback and leaves its message
as the session's last error; a call that succeeds leaves the last error alone.
-/

set_option autoImplicit false

namespace SymmetricTrees

/-- The message of the last failure, empty if there is none. Callers read up to the
first zero character, so there is none inside. -/
structure LastError where
  text : String := ""
  unbroken : '\x00' ∉ text.toList := by exact List.not_mem_nil
deriving DecidableEq

namespace LastError

def blank : LastError := {}

/-- Takes no text that callers would read but a part of. -/
def ofText? (text : String) : Option LastError :=
  if unbroken : '\x00' ∉ text.toList then some ⟨text, unbroken⟩ else none

end LastError

abbrev Session := StateM LastError

namespace Session

variable {Value : Type}

def readable (message : String) : String :=
  message.map fun character => if character = '\x00' then ' ' else character

/-- A message that cannot be kept leaves no message. -/
def note (message : String) : Session Unit :=
  set ((LastError.ofText? (readable message)).getD .blank)

/-- Answers with a value, or with the fallback after noting the failure. Of a call
that did not come to its end nothing is known. -/
def guarded (describe : ModelError → String) (fallback : Value) :
    Except BatchError Value → Session Value
  | .ok value => return value
  | .error (.model error) => do
      note (describe error)
      return fallback
  | .error _ => do
      note "unknown error"
      return fallback

def argument (name : String) : Option Value → Except BatchError Value
  | some value => .ok value
  | none => .error (.model (.invalid (.missingArgument name)))

/-- Loads a description into a new handle. The reader of the text has its own words
for what is wrong with it. -/
def loadWith (wording : Description.Fault → String) (name : String)
    (source : Option Description.Source) : Session (Option Handle) :=
  guarded (ModelError.messageWith wording) none do
    match ({} : Handle).load (← argument name source) with
    | (.ok (), handle) => return some handle
    | (.error error, _) => .error (.model error)

def load (name : String) (source : Option Description.Source) : Session (Option Handle) :=
  loadWith Description.Fault.message name source

/-- The score of a failed call is a NaN. -/
def score (handle : Option Handle) (row : Option Row) : Session Float :=
  guarded ModelError.message Scoring.unknownScore do
    let handle ← argument "model" handle
    let row ← argument "features" row
    (handle.score row).mapError BatchError.model

/-- Rows of which the first `count` values are read. -/
structure RowList where
  rows : List (Option Row)
  count : Nat

structure Batch where
  handle : Handle
  rows : List Row
  output : Array Float

/-- The batch of a call. Without rows neither the rows nor the output need to be
present, and there is no batch. -/
def batch? (handle : Option Handle) (size : Nat) (rows : Option RowList)
    (output : Option (Array Float)) : Except BatchError (Option Batch) := do
  let handle ← argument "model" handle
  if size = 0 then do
    let _ ← (handle.scoreMany []).mapError BatchError.model
    return none
  else do
    let given ← argument "features" rows
    let output ← argument "out" output
    let rows ← (given.rows.take size).mapM (argument "feature row")
    return some ⟨handle, rows.map fun row => row.extract 0 given.count, output⟩

def Batch.fill (batch : Batch) (size : Nat) : Except BatchError Unit × Array Float :=
  let scored := batch.handle.scoreInto batch.rows (batch.output.extract 0 size)
  (scored.1, scored.2 ++ batch.output.extract size)

def scoreRows (handle : Option Handle) (size : Nat) (rows : Option RowList)
    (output : Option (Array Float)) : Except BatchError Unit × Option (Array Float) :=
  match batch? handle size rows output with
  | .error error => (.error error, output)
  | .ok none => (.ok (), output)
  | .ok (some batch) => (batch.fill size).map id some

/-- The status is zero after success and minus one after a failure. -/
def scoreMany (handle : Option Handle) (size : Nat) (rows : Option RowList)
    (output : Option (Array Float)) : Session (Int × Option (Array Float)) := do
  let scored := scoreRows handle size rows output
  let status ← guarded ModelError.message (-1) (scored.1.map fun _ => 0)
  return (status, scored.2)

def featureCount (handle : Option Handle) : Nat :=
  match handle with
  | some handle => handle.featureCount
  | none => 0

def lastError : Session String := return (← get).text

def clear : Session Unit := set LastError.blank

end Session

end SymmetricTrees
