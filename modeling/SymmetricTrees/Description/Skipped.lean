import SymmetricTrees.Description.Text
import SymmetricTrees.Description.Number

/-!
Values that are not used. Only their grammar is judged: numbers may be out of
range, texts may hold lone surrogates or any bytes, and arrays and objects may
be nested to any depth, since the open ones are kept in a list.
-/

set_option autoImplicit false

namespace SymmetricTrees.Description

open Scan

inductive Frame where
  | array
  | object
deriving DecidableEq

def skipEscape : Scan Unit := do
  let letter ← next
  if letter = 'u'.toUInt8 then do
    let _ ← hexUnit
  else if (plainEscape? letter).isSome then return ()
  else fail .malformed

def skipTextBytes : List UInt8 → Scan Unit
  | [] => fail .malformed
  | _ :: rounds => do
      let byte ← next
      if byte = quote then return ()
      else if byte = backslash then do
        skipEscape
        skipTextBytes rounds
      else if byte < 0x20 then fail .malformed
      else skipTextBytes rounds

def skipText : Scan Unit := do
  skip
  budgeted skipTextBytes

/-- Refuses a number that is cut short, also by the end of a complete text. -/
def cutNumber : Scan Unit := do
  let _ ← peek?
  fail .malformed

def skipExponentPart : Scan Unit := do
  skip
  let _ ← exponentSign
  let taken ← digits
  if taken.isEmpty then cutNumber
  else do
    let _ ← peek?

def skipFractionPart : Scan Unit := do
  skip
  let taken ← digits
  if taken.isEmpty then cutNumber
  else
    match ← peek? with
    | none => return ()
    | some byte => if isExponentMark byte then skipExponentPart else return ()

def skipUnsignedNumber : Scan Unit := do
  match ← digits with
  | [] => cutNumber
  | 0 :: _ :: _ => fail .malformed
  | _ =>
      match ← peek? with
      | none => return ()
      | some byte =>
          if byte = point then skipFractionPart
          else if isExponentMark byte then skipExponentPart
          else return ()

def skipScalar (first : UInt8) : Scan Unit := do
  if first = 'n'.toUInt8 then nullWord
  else if first = 't'.toUInt8 then trueWord
  else if first = 'f'.toUInt8 then falseWord
  else if first = quote then skipText
  else if first = minus then do
    skip
    skipUnsignedNumber
  else if isDigit first then skipUnsignedNumber
  else fail .malformed

def skipName : Scan Unit := do
  if (← token) = quote then do
    skipText
    expect colon
  else fail .malformed

/-- Skips values until all frames are closed. Either a value is due, or one has
just been passed and the innermost frame goes on or closes. -/
def skipFrames : List UInt8 → (valueDue : Bool) → List Frame → Scan Unit
  | [], _, _ => fail .malformed
  | _ :: rounds, true, frames => do
      let byte ← token
      if byte = openBracket then do
        skip
        if (← token) = closeBracket then do
          skip
          skipFrames rounds false frames
        else skipFrames rounds true (.array :: frames)
      else if byte = openBrace then do
        skip
        if (← token) = closeBrace then do
          skip
          skipFrames rounds false frames
        else do
          skipName
          skipFrames rounds true (.object :: frames)
      else do
        skipScalar byte
        skipFrames rounds false frames
  | _ :: _, false, [] => return ()
  | _ :: rounds, false, .array :: frames => do
      let byte ← token
      if byte = comma then do
        skip
        skipFrames rounds true (.array :: frames)
      else if byte = closeBracket then do
        skip
        skipFrames rounds false frames
      else fail .malformed
  | _ :: rounds, false, .object :: frames => do
      let byte ← token
      if byte = comma then do
        skip
        skipName
        skipFrames rounds true (.object :: frames)
      else if byte = closeBrace then do
        skip
        skipFrames rounds false frames
      else fail .malformed

def skipValue : Scan Unit := budgeted fun rounds => skipFrames rounds true []

end SymmetricTrees.Description
