/-!
Decimal texts of doubles with a given number of places. The exact value of the
double is rounded, a tie going to the even neighbour; nothing is rounded twice.
-/

set_option autoImplicit false

namespace SymmetricTrees.Decimal

/-- The exact magnitude of a finite double as a fraction. -/
structure Fraction where
  numerator : Nat
  denominator : Nat

def isNegative (number : Float) : Bool := number.toBits >>> 63 == 1

/-- A double is a 53-bit integer times a power of two. -/
def magnitude (number : Float) : Fraction :=
  let exponent := (number.toBits >>> 52 &&& 0x7FF).toNat
  let significand := (number.toBits &&& 0xFFFFFFFFFFFFF).toNat
  if exponent = 0 then ⟨significand, 1 <<< 1074⟩
  else ⟨(0x10000000000000 + significand) <<< (exponent - 1075), 1 <<< (1075 - exponent)⟩

/-- The integer nearest to a quotient, the even one of two. -/
def roundDiv (numerator denominator : Nat) : Nat :=
  let quotient := numerator / denominator
  let twice := 2 * (numerator % denominator)
  if denominator < twice ∨ (twice = denominator ∧ quotient % 2 = 1) then quotient + 1
  else quotient

def powerOfTen (power : Nat) : Nat := Nat.pow 10 power

def scaled (fraction : Fraction) (power : Int) : Nat :=
  roundDiv (fraction.numerator * powerOfTen power.toNat)
    (fraction.denominator * powerOfTen (-power).toNat)

def digits (number : Nat) : List Char := Nat.toDigits 10 number

def digitsFrom (width number : Nat) : List Char :=
  List.replicate (width - (digits number).length) '0' ++ digits number

def withPoint (places : Nat) (shown : List Char) : List Char :=
  if places = 0 then shown
  else shown.take (shown.length - places) ++ ['.'] ++ shown.drop (shown.length - places)

def fixedDigits (places : Nat) (fraction : Fraction) : List Char :=
  withPoint places (digitsFrom (places + 1) (scaled fraction places))

/-- The power of ten of the leading digit of a positive fraction. -/
def leadingPower (fraction : Fraction) : Int :=
  let guess : Int := (digits fraction.numerator).length - (digits fraction.denominator).length
  if fraction.denominator * powerOfTen guess.toNat ≤
      fraction.numerator * powerOfTen (-guess).toNat then guess
  else guess - 1

/-- One digit before the point, and the power of ten behind an `e`. -/
def scientificDigits (places : Nat) (fraction : Fraction) : List Char :=
  let power := if fraction.numerator = 0 then 0 else leadingPower fraction
  let rounded := scaled fraction (places - power)
  let (shown, shownPower) :=
    if rounded = powerOfTen (places + 1) then (powerOfTen places, power + 1)
    else (rounded, power)
  withPoint places (digitsFrom (places + 1) shown) ++ ['e'] ++ (toString shownPower).toList

/-- A number with its sign; a positive one is marked on demand. A NaN has no
sign, a zero keeps its own. -/
def signed (markPositive : Bool) (digitsOf : Fraction → List Char) (number : Float) : String :=
  if number.isNaN then "NaN"
  else
    let sign := if isNegative number then ['-'] else if markPositive then ['+'] else []
    let body := if number.isInf then ['i', 'n', 'f'] else digitsOf (magnitude number)
    String.ofList (sign ++ body)

def padLeft (width : Nat) (text : String) : String :=
  String.ofList (List.replicate (width - text.length) ' ') ++ text

def fixed (places : Nat) (number : Float) : String := signed false (fixedDigits places) number

def scientific (places : Nat) (markPositive : Bool) (number : Float) : String :=
  signed markPositive (scientificDigits places) number

end SymmetricTrees.Decimal
