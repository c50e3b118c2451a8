import SymmetricTrees.Description.Source

/-!
Quoted texts. A text that is used is decoded strictly: escapes are resolved,
surrogates must come in pairs, and the bytes must be valid UTF-8, which is
judged at the closing quote.
-/

set_option autoImplicit false

namespace SymmetricTrees.Description

open Scan

def hexDigit? (byte : UInt8) : Option Nat :=
  let code := byte.toNat
  if 0x30 ≤ code ∧ code ≤ 0x39 then some (code - 0x30)
  else if 0x41 ≤ code ∧ code ≤ 0x46 then some (code - 0x37)
  else if 0x61 ≤ code ∧ code ≤ 0x66 then some (code - 0x57)
  else none

/-- Four hexadecimal digits. All four bytes are taken before they are judged. -/
def hexUnit : Scan Nat := do
  let byte3 ← next
  let byte2 ← next
  let byte1 ← next
  let byte0 ← next
  match hexDigit? byte3, hexDigit? byte2, hexDigit? byte1, hexDigit? byte0 with
  | some digit3, some digit2, some digit1, some digit0 =>
      return ((digit3 * 16 + digit2) * 16 + digit1) * 16 + digit0
  | _, _, _, _ => fail .malformed

def isLeadingSurrogate (unit : Nat) : Bool := 0xD800 ≤ unit && unit ≤ 0xDBFF

def isTrailingSurrogate (unit : Nat) : Bool := 0xDC00 ≤ unit && unit ≤ 0xDFFF

def surrogatePair (leading trailing : Nat) : Nat :=
  0x10000 + (leading - 0xD800) * 0x400 + (trailing - 0xDC00)

def encodePoint (code : Nat) : List UInt8 := String.utf8EncodeChar (Char.ofNat code)

def trailingSurrogate : Scan Nat := do
  literal [backslash]
  literal ['u'.toUInt8]
  let unit ← hexUnit
  if isTrailingSurrogate unit then return unit else fail .malformed

/-- The bytes of a code point given by its number, or by two surrogates. -/
def pointEscape : Scan (List UInt8) := do
  let unit ← hexUnit
  if isTrailingSurrogate unit then fail .malformed
  else if isLeadingSurrogate unit then do
    let trailing ← trailingSurrogate
    return encodePoint (surrogatePair unit trailing)
  else return encodePoint unit

def plainEscape? (letter : UInt8) : Option UInt8 :=
  if letter = quote ∨ letter = backslash ∨ letter = '/'.toUInt8 then some letter
  else if letter = 'b'.toUInt8 then some 0x08
  else if letter = 'f'.toUInt8 then some 0x0C
  else if letter = 'n'.toUInt8 then some 0x0A
  else if letter = 'r'.toUInt8 then some 0x0D
  else if letter = 't'.toUInt8 then some 0x09
  else none

def escape : Scan (List UInt8) := do
  let letter ← next
  if letter = 'u'.toUInt8 then pointEscape
  else
    match plainEscape? letter with
    | some byte => return [byte]
    | none => fail .malformed

def textBytes : List UInt8 → List UInt8 → Scan (List UInt8)
  | [], _ => fail .malformed
  | _ :: rounds, reversed => do
      let byte ← next
      if byte = quote then return reversed.reverse
      else if byte = backslash then do
        let bytes ← escape
        textBytes rounds (bytes.reverse ++ reversed)
      else if byte < 0x20 then fail .malformed
      else textBytes rounds (byte :: reversed)

def text : Scan String := do
  skip
  let bytes ← budgeted fun rounds => textBytes rounds []
  match String.fromUTF8? bytes.toByteArray with
  | some decoded => return decoded
  | none => fail .malformed

end SymmetricTrees.Description
