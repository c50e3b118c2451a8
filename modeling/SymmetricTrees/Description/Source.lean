/-!
The bytes of a description and the steps that read them. A reading step takes
bytes from the front and either yields a value or the first problem met; it
never takes a byte back. A text may be complete, or its source may fail behind
the bytes that it gave; every look behind the last byte then is that failure.
-/

set_option autoImplicit false

namespace SymmetricTrees.Description

inductive Ending where
  | complete
  | failing (reason : String)
deriving DecidableEq

structure Source where
  rest : List UInt8
  ending : Ending := .complete

/-- A well-formed text that is no description. -/
inductive Mismatch where
  /-- A value of another type, out of range, or an array with too few elements. -/
  | wrongValue
  | missingField (name : String)
  | duplicateField (name : String)
  | transformNotArray
  | scaleNotNumber
  | biasEmpty
deriving DecidableEq

/-- The first problem of a description in reading order. -/
inductive Fault where
  | ended
  | malformed
  | unsuited (mismatch : Mismatch)
  | unreadable (reason : String)
deriving DecidableEq

def Mismatch.message : Mismatch → String
  | wrongValue => "value of the wrong type or out of range"
  | missingField name => s!"missing field `{name}`"
  | duplicateField name => s!"duplicate field `{name}`"
  | transformNotArray => "scale_and_bias must be an array"
  | scaleNotNumber => "scale must be a number"
  | biasEmpty => "bias array is empty"

def Fault.message : Fault → String
  | ended => "the text ends inside a value"
  | malformed => "the text is malformed"
  | unsuited mismatch => mismatch.message
  | unreadable reason => reason

abbrev Scan := StateT Source (Except Fault)

namespace Scan

variable {Value : Type}

def fail (fault : Fault) : Scan Value := fun _ => .error fault

/-- The next byte, left in place; absent at the end of a complete text. -/
def peek? : Scan (Option UInt8) := fun source =>
  match source.rest, source.ending with
  | byte :: _, _ => .ok (some byte, source)
  | [], .complete => .ok (none, source)
  | [], .failing reason => .error (.unreadable reason)

def skip : Scan Unit := fun source => .ok ((), { source with rest := source.rest.tail })

def next : Scan UInt8 := do
  match ← peek? with
  | none => fail .ended
  | some byte => do
      skip
      return byte

def takeRun (test : UInt8 → Bool) : Scan (List UInt8) := fun source =>
  .ok (source.rest.takeWhile test, { source with rest := source.rest.dropWhile test })

/-- Runs a loop for one round more than there are bytes, so that a loop whose
rounds each take a byte ends by itself. The bytes left at the start only count
the rounds. -/
def budgeted (loop : List UInt8 → Scan Value) : Scan Value := fun source =>
  loop (0 :: source.rest) source

end Scan

open Scan

def quote : UInt8 := 0x22
def comma : UInt8 := 0x2C
def minus : UInt8 := 0x2D
def point : UInt8 := 0x2E
def colon : UInt8 := 0x3A
def openBracket : UInt8 := 0x5B
def backslash : UInt8 := 0x5C
def closeBracket : UInt8 := 0x5D
def openBrace : UInt8 := 0x7B
def closeBrace : UInt8 := 0x7D

def isBlank (byte : UInt8) : Bool :=
  byte == 0x20 || byte == 0x09 || byte == 0x0A || byte == 0x0D

def isDigit (byte : UInt8) : Bool := 0x30 ≤ byte && byte ≤ 0x39

/-- The next byte behind blanks, left in place. -/
def token : Scan UInt8 := do
  let _ ← takeRun isBlank
  match ← peek? with
  | none => fail .ended
  | some byte => return byte

def literal : List UInt8 → Scan Unit
  | [] => return ()
  | expected :: rest => do
      let byte ← next
      if byte = expected then literal rest else fail .malformed

def word (letters : List Char) : Scan Unit := literal (letters.map Char.toUInt8)

def nullWord : Scan Unit := word ['n', 'u', 'l', 'l']
def trueWord : Scan Unit := word ['t', 'r', 'u', 'e']
def falseWord : Scan Unit := word ['f', 'a', 'l', 's', 'e']

def expect (expected : UInt8) : Scan Unit := do
  if (← token) = expected then skip else fail .malformed

/-- Whether an array goes on with an element. The closing bracket stays in
place; a comma must be followed by an element. -/
def anotherElement (first : Bool) : Scan Bool := do
  let byte ← token
  if byte = closeBracket then return false
  else if first then return true
  else if byte = comma then do
    skip
    if (← token) = closeBracket then fail .malformed else return true
  else fail .malformed

/-- Whether an object goes on with a member. The closing brace and the quote of
the member's name stay in place. -/
def anotherMember (first : Bool) : Scan Bool := do
  let byte ← token
  if byte = closeBrace then return false
  else if first then
    if byte = quote then return true else fail .malformed
  else if byte = comma then do
    skip
    if (← token) = quote then return true else fail .malformed
  else fail .malformed

def elements {Value : Type} (element : Scan Value) :
    List UInt8 → Bool → List Value → Scan (List Value)
  | [], _, _ => fail .malformed
  | _ :: rounds, first, reversed => do
      if ← anotherElement first then
        let value ← element
        elements element rounds false (value :: reversed)
      else
        expect closeBracket
        return reversed.reverse

def array {Value : Type} (element : Scan Value) : Scan (List Value) := do
  skip
  budgeted fun rounds => elements element rounds true []

end SymmetricTrees.Description
