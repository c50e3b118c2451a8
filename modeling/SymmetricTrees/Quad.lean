/-!
Four values side by side. A wide record of a block stream tests four splits at
once, and each lane of a quad belongs to one of them.
-/

set_option autoImplicit false

namespace SymmetricTrees

structure Quad (Value : Type) where
  lane0 : Value
  lane1 : Value
  lane2 : Value
  lane3 : Value
deriving DecidableEq

namespace Quad

variable {First Second Third Value : Type}

def splat (value : Value) : Quad Value := ⟨value, value, value, value⟩

def map (transform : First → Second) (quad : Quad First) : Quad Second :=
  ⟨transform quad.lane0, transform quad.lane1, transform quad.lane2, transform quad.lane3⟩

def map₂ (combine : First → Second → Third) (left : Quad First) (right : Quad Second) :
    Quad Third :=
  ⟨combine left.lane0 right.lane0, combine left.lane1 right.lane1,
    combine left.lane2 right.lane2, combine left.lane3 right.lane3⟩

def toList (quad : Quad Value) : List Value :=
  [quad.lane0, quad.lane1, quad.lane2, quad.lane3]

/-- Applies a partial function to every lane; one absent lane makes all absent. -/
def traverse? (transform : First → Option Second) (quad : Quad First) :
    Option (Quad Second) := do
  let lane0 ← transform quad.lane0
  let lane1 ← transform quad.lane1
  let lane2 ← transform quad.lane2
  let lane3 ← transform quad.lane3
  some ⟨lane0, lane1, lane2, lane3⟩

/-- Cuts a list into quads from the front; fewer than four values remain. -/
def groups : List Value → List (Quad Value) × List Value
  | value0 :: value1 :: value2 :: value3 :: rest =>
      let (quads, remainder) := groups rest
      (⟨value0, value1, value2, value3⟩ :: quads, remainder)
  | remainder => ([], remainder)

def zip : List Value → List Value → List Value → List Value → List (Quad Value)
  | value0 :: rest0, value1 :: rest1, value2 :: rest2, value3 :: rest3 =>
      ⟨value0, value1, value2, value3⟩ :: zip rest0 rest1 rest2 rest3
  | _, _, _, _ => []

theorem length_flat_map_to_list (quads : List (Quad Value)) :
    (quads.flatMap toList).length = 4 * quads.length := by
  induction quads with
  | nil => rfl
  | cons quad rest induction =>
      rw [List.flatMap_cons, List.length_append, induction, List.length_cons, toList,
        List.length_cons, List.length_cons, List.length_cons, List.length_cons, List.length_nil]
      omega

theorem groups_append (values : List Value) :
    (groups values).1.flatMap toList ++ (groups values).2 = values := by
  fun_induction groups values with
  | case1 value0 value1 value2 value3 rest quads remainder same induction =>
      rw [same] at induction
      rw [List.flatMap_cons, List.append_assoc, induction]
      rfl
  | case2 => rfl

theorem groups_remainder_length (values : List Value) : (groups values).2.length < 4 := by
  fun_induction groups values with
  | case1 value0 value1 value2 value3 rest quads remainder same induction =>
      rw [same] at induction
      exact induction
  | case2 remainder short =>
      match remainder, short with
      | [], _ => simp
      | [_], _ => simp
      | [_, _], _ => simp
      | [_, _, _], _ => simp
      | value0 :: value1 :: value2 :: value3 :: rest, short =>
          exact absurd rfl (short value0 value1 value2 value3 rest)

theorem length_groups (values : List Value) :
    (groups values).1.length = values.length / 4 ∧
      (groups values).2.length = values.length % 4 := by
  have whole := congrArg List.length (groups_append values)
  have few := groups_remainder_length values
  rw [List.length_append, length_flat_map_to_list] at whole
  omega

theorem zip_lanes {first second third fourth : List Value}
    (secondLength : second.length = first.length) (thirdLength : third.length = first.length)
    (fourthLength : fourth.length = first.length) :
    (zip first second third fourth).map lane0 = first ∧
      (zip first second third fourth).map lane1 = second ∧
      (zip first second third fourth).map lane2 = third ∧
      (zip first second third fourth).map lane3 = fourth := by
  induction first generalizing second third fourth with
  | nil =>
      rw [List.eq_nil_of_length_eq_zero secondLength, List.eq_nil_of_length_eq_zero thirdLength,
        List.eq_nil_of_length_eq_zero fourthLength]
      exact ⟨rfl, rfl, rfl, rfl⟩
  | cons value rest induction =>
      obtain ⟨value1, rest1, rfl⟩ := List.exists_cons_of_length_eq_add_one secondLength
      obtain ⟨value2, rest2, rfl⟩ := List.exists_cons_of_length_eq_add_one thirdLength
      obtain ⟨value3, rest3, rfl⟩ := List.exists_cons_of_length_eq_add_one fourthLength
      obtain ⟨same0, same1, same2, same3⟩ := induction (Nat.succ.inj secondLength)
        (Nat.succ.inj thirdLength) (Nat.succ.inj fourthLength)
      simp only [zip, List.map_cons, same0, same1, same2, same3, and_self]

end Quad

end SymmetricTrees
