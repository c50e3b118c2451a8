import SymmetricTrees.Binary32
import SymmetricTrees.Description.Source

/-!
Numbers. Integers stay exact while they fit 64 bits. Every other number is a
significand of at most 64 bits, its further digits dropped, times a power of
ten; the product or quotient is rounded once per step, so the result may differ
from the nearest double in its last bits.
-/

set_option autoImplicit false

namespace SymmetricTrees.Description

open Scan

inductive Number where
  | natural (value : UInt64)
  | negative (value : Int64)
  | real (value : Float)

namespace Number

def toFloat : Number → Float
  | natural value => value.toFloat
  | negative value => value.toFloat
  | real value => value

/-- An integer is rounded once, a real number a second time. -/
def toBinary32 : Number → Binary32
  | natural value => .ofFloat32 value.toFloat32
  | negative value => .ofFloat32 value.toFloat32
  | real value => .ofFloat value

def toIndex? : Number → Option UInt32
  | natural value => if value < 0x100000000 then some value.toUInt32 else none
  | negative _ => none
  | real _ => none

/-- An integer token. Zero with a sign and what exceeds 64 bits are real. -/
def ofInteger (isNegative : Bool) (magnitude : Nat) : Number :=
  if isNegative then
    if 0 < magnitude ∧ magnitude ≤ 0x8000000000000000 then negative (Int64.ofInt (-magnitude))
    else real (-magnitude.toUInt64.toFloat)
  else natural magnitude.toUInt64

end Number

def maxSignificand : Nat := 0xFFFFFFFFFFFFFFFF

/-- Appends digits to a significand as long as it fits 64 bits. Yields the
digits that are left, too. -/
def accumulate (significand : Nat) : List Nat → Nat × List Nat
  | [] => (significand, [])
  | digit :: rest =>
      if significand * 10 + digit ≤ maxSignificand then
        accumulate (significand * 10 + digit) rest
      else (significand, digit :: rest)

def maxPower : Nat := 308

def powerOfTen (exponent : Nat) : Float := Float.ofScientific 1 false exponent

/-- A value times a power of ten; absent when the product is too large. Very
small powers are divided out in steps. -/
def scale? (value : Float) (exponent : Int) : Option Float :=
  if exponent.natAbs ≤ maxPower then
    if 0 ≤ exponent then
      let product := value * powerOfTen exponent.natAbs
      if product.isInf then none else some product
    else some (value / powerOfTen exponent.natAbs)
  else if value == 0.0 then some value
  else if 0 ≤ exponent then none
  else scale? (value / powerOfTen maxPower) (exponent + maxPower)
termination_by exponent.natAbs
decreasing_by
  simp only [maxPower] at *
  omega

def digits : Scan (List Nat) := do
  let taken ← takeRun isDigit
  return taken.map fun byte => byte.toNat - 0x30

def isExponentMark (byte : UInt8) : Bool := byte == 'e'.toUInt8 || byte == 'E'.toUInt8

def missingDigits {Value : Type} : Scan Value := do
  match ← peek? with
  | none => fail .ended
  | some _ => fail .malformed

def signed (isNegative : Bool) (magnitude : Float) : Number :=
  .real (if isNegative then -magnitude else magnitude)

def realNumber (isNegative : Bool) (significand : Nat) (exponent : Int) : Scan Number :=
  match scale? significand.toUInt64.toFloat exponent with
  | some magnitude => return signed isNegative magnitude
  | none => fail .malformed

/-- Whether the exponent counts upward, its sign being passed. -/
def exponentSign : Scan Bool := do
  match ← peek? with
  | none => return true
  | some byte =>
      if byte = '+'.toUInt8 then do
        skip
        return true
      else if byte = minus then do
        skip
        return false
      else return true

def maxExponent : Nat := 0x7FFFFFFF

/-- The magnitude of an explicit exponent, held at the first number past 32 bits. -/
def exponentMagnitude (digits : List Nat) : Nat :=
  digits.foldl (fun value digit => min (value * 10 + digit) (maxExponent + 1)) 0

/-- The explicit exponent and with it the end of a number, the mark in place.
An exponent beyond 32 bits is refused before anything behind it is looked at,
unless the number is zero or vanishes. -/
def exponentPart (isNegative : Bool) (significand : Nat) (start : Int) : Scan Number := do
  skip
  let upward ← exponentSign
  let taken ← digits
  if taken.isEmpty then missingDigits
  else
    let magnitude := exponentMagnitude taken
    if maxExponent < magnitude then
      if upward && significand != 0 then fail .malformed
      else do
        let _ ← peek?
        return signed isNegative 0.0
    else do
      let _ ← peek?
      realNumber isNegative significand (if upward then start + magnitude else start - magnitude)

def fractionPart (isNegative : Bool) (significand : Nat) (start : Int) : Scan Number := do
  skip
  let taken ← digits
  if taken.isEmpty then missingDigits
  else
    let (larger, dropped) := accumulate significand taken
    let exponent := start - (taken.length - dropped.length : Nat)
    match ← peek? with
    | none => realNumber isNegative larger exponent
    | some byte =>
        if isExponentMark byte then exponentPart isNegative larger exponent
        else realNumber isNegative larger exponent

def unsignedNumber (isNegative : Bool) : Scan Number := do
  match ← digits with
  | [] => missingDigits
  | 0 :: _ :: _ => fail .malformed
  | taken =>
      let (significand, dropped) := accumulate 0 taken
      let plain : Scan Number :=
        if dropped.isEmpty then return .ofInteger isNegative significand
        else realNumber isNegative significand dropped.length
      match ← peek? with
      | none => plain
      | some byte =>
          if byte = point then fractionPart isNegative significand dropped.length
          else if isExponentMark byte then exponentPart isNegative significand dropped.length
          else plain

/-- A number that starts with the given byte, which is in place. -/
def number (first : UInt8) : Scan Number := do
  if first = minus then do
    skip
    unsignedNumber true
  else unsignedNumber false

def startsNumber (byte : UInt8) : Bool := byte == minus || isDigit byte

end SymmetricTrees.Description
