import SymmetricTrees.Decimal.Rounded

/-!
Comparing scores. Two scores agree if they differ by no more than a tolerance,
so that a NaN or an infinite difference never agrees. Scores that disagree are
reported row by row, the expected one above the actual one.
-/

set_option autoImplicit false

namespace SymmetricTrees

def agree (actual expected tolerance : Float) : Bool :=
  decide ((actual - expected).abs ≤ tolerance)

namespace Comparison

inductive Disagreement where
  | lengths (context : String) (got expected : Nat)
  | values (report : String)
deriving DecidableEq

def Disagreement.message : Disagreement → String
  | lengths context got expected =>
      s!"{context}: length mismatch - got {got}, expected {expected}"
  | values report => report

def column (score : Float) : String := Decimal.padLeft 14 (Decimal.fixed 8 score)

def rowReport (index : Nat) (actual expected : Float) : String :=
  let place := Decimal.padLeft 3 (toString index)
  let difference := Decimal.scientific 2 true (actual - expected)
  s!"[{place}] - {column expected}  (expected)\n" ++
    s!"      + {column actual}  (actual, Δ={difference})\n"

def differing (actual expected : List Float) (tolerance : Float) : List (Nat × Float × Float) :=
  ((actual.zip expected).zipIdx.filter fun (pair, _) => !agree pair.1 pair.2 tolerance).map
    fun (pair, index) => (index, pair)

def compare (context : String) (tolerance : Float) (actual expected : List Float) :
    Except Disagreement Unit :=
  if actual.length = expected.length then
    match differing actual expected tolerance with
    | [] => .ok ()
    | rows =>
        let heading := s!"\n{context}: {rows.length}/{actual.length} values differ\n\n"
        let allowed := s!"Epsilon: {Decimal.scientific 0 false tolerance}\n\n"
        let reports := rows.map fun (index, actual, expected) => rowReport index actual expected
        .error (.values (heading ++ allowed ++ String.join reports))
  else .error (.lengths context actual.length expected.length)

end Comparison

end SymmetricTrees
