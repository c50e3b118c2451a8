import SymmetricTrees.Description.Skipped

/-!
Typed values and records. A record is written as an object, whose members may
come in any order and among unknown ones, or as an array of its fields' values
in the order of declaration. Records of all kinds are read by one loop.
-/

set_option autoImplicit false

namespace SymmetricTrees.Description

open Scan

/-- Reads a value that is neither array nor object to its end and drops it; an
array or object stays in place. -/
def dropScalar (first : UInt8) : Scan Unit := do
  if first = 'n'.toUInt8 then nullWord
  else if first = 't'.toUInt8 then trueWord
  else if first = 'f'.toUInt8 then falseWord
  else if first = quote then do
    let _ ← text
  else if startsNumber first then do
    let _ ← number first
  else if first = openBracket ∨ first = openBrace then return ()
  else fail .malformed

/-- Refuses a value of another type. A value that is neither array nor object
is first read to its end, where it may be malformed. -/
def mismatch {Value : Type} (first : UInt8) : Scan Value := do
  dropScalar first
  fail (.unsuited .wrongValue)

def numberField : Scan Number := do
  let byte ← token
  if startsNumber byte then number byte else mismatch byte

def singleField : Scan Binary32 := return (← numberField).toBinary32

def doubleField : Scan Float := return (← numberField).toFloat

def indexField : Scan UInt32 := do
  match (← numberField).toIndex? with
  | some index => return index
  | none => fail (.unsuited .wrongValue)

def booleanField : Scan Bool := do
  let byte ← token
  if byte = 't'.toUInt8 then do
    trueWord
    return true
  else if byte = 'f'.toUInt8 then do
    falseWord
    return false
  else mismatch byte

def textField : Scan String := do
  let byte ← token
  if byte = quote then text else mismatch byte

def listField {Value : Type} (element : Scan Value) : Scan (List Value) := do
  let byte ← token
  if byte = openBracket then array element else mismatch byte

def optionalField {Value : Type} (field : Scan Value) : Scan (Option Value) := do
  let byte ← token
  if byte = 'n'.toUInt8 then do
    nullWord
    return none
  else return some (← field)

structure Field (Draft : Type) where
  name : String
  required : Bool
  isPresent : Draft → Bool
  read : Draft → Scan Draft

def Field.slot {Draft Value : Type} (name : String) (required : Bool)
    (get : Draft → Option Value) (set : Draft → Value → Draft) (value : Scan Value) :
    Field Draft where
  name := name
  required := required
  isPresent draft := (get draft).isSome
  read draft := return set draft (← value)

/-- How a record is read: its fields, and the value of a draft that has all
required ones. -/
structure Shape (Draft Value : Type) where
  blank : Draft
  fields : List (Field Draft)
  build? : Draft → Option Value

namespace Shape

variable {Draft Value : Type}

def missing? (shape : Shape Draft Value) (draft : Draft) : Option (Field Draft) :=
  shape.fields.find? fun field => field.required && !field.isPresent draft

/-- The members of an object, the opening brace being passed and the closing
one left in place. A known name that comes again is refused before its value. -/
def members (shape : Shape Draft Value) : List UInt8 → Bool → Draft → Scan Draft
  | [], _, _ => fail .malformed
  | _ :: rounds, first, draft => do
      if ← anotherMember first then
        let name ← text
        match shape.fields.find? fun field => field.name == name with
        | some field =>
            if field.isPresent draft then fail (.unsuited (.duplicateField name))
            else do
              expect colon
              let larger ← field.read draft
              members shape rounds false larger
        | none =>
            expect colon
            skipValue
            members shape rounds false draft
      else return draft

def positions : Bool → List (Field Draft) → Draft → Scan Draft
  | _, [], draft => return draft
  | first, field :: rest, draft => do
      if ← anotherElement first then
        let larger ← field.read draft
        positions false rest larger
      else return draft

def built (shape : Shape Draft Value) (draft : Draft) : Scan Value :=
  match shape.build? draft with
  | some value => return value
  | none => fail (.unsuited .wrongValue)

def read (shape : Shape Draft Value) : Scan Value := do
  let byte ← token
  if byte = openBrace then do
    skip
    let draft ← budgeted fun rounds => shape.members rounds true shape.blank
    match shape.missing? draft with
    | some field => fail (.unsuited (.missingField field.name))
    | none => do
        let value ← shape.built draft
        expect closeBrace
        return value
  else if byte = openBracket then do
    skip
    let draft ← positions true shape.fields shape.blank
    let value ← shape.built draft
    expect closeBracket
    return value
  else mismatch byte

end Shape

end SymmetricTrees.Description
