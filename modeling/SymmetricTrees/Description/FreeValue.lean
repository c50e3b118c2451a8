import SymmetricTrees.Description.Text
import SymmetricTrees.Description.Number

/-!
Free values: the one part of a description that is read before its shape is
judged. Arrays and objects may be nested to a limit only.
-/

set_option autoImplicit false

namespace SymmetricTrees.Description

open Scan

inductive FreeValue where
  | null
  | boolean (value : Bool)
  | number (value : Number)
  | text (value : String)
  | array (items : List FreeValue)
  | object (members : List (String × FreeValue))

/-- The members of an object, the opening brace being passed. A name may occur
again. -/
def freeMembers (value : Scan FreeValue) :
    List UInt8 → Bool → List (String × FreeValue) → Scan (List (String × FreeValue))
  | [], _, _ => fail .malformed
  | _ :: rounds, first, reversed => do
      if ← anotherMember first then
        let name ← text
        expect colon
        let item ← value
        freeMembers value rounds false ((name, item) :: reversed)
      else
        expect closeBrace
        return reversed.reverse

/-- A value in which so many arrays and objects may be open at a time. -/
def freeValue (nesting : Nat) : Scan FreeValue := do
  let byte ← token
  if byte = 'n'.toUInt8 then do
    nullWord
    return .null
  else if byte = 't'.toUInt8 then do
    trueWord
    return .boolean true
  else if byte = 'f'.toUInt8 then do
    falseWord
    return .boolean false
  else if byte = quote then return .text (← text)
  else if startsNumber byte then return .number (← number byte)
  else if byte = openBracket ∨ byte = openBrace then
    match nesting with
    | 0 => fail .malformed
    | deeper + 1 =>
        if byte = openBracket then return .array (← array (freeValue deeper))
        else do
          skip
          return .object (← budgeted fun rounds => freeMembers (freeValue deeper) rounds true [])
  else fail .malformed

end SymmetricTrees.Description
