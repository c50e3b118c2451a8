import SymmetricTrees.Proofs.MemberOrder

/-!
The records of a description are orderly: every field has a slot of its own in
the draft, and a slot that may hold null shows the same as one that is empty.
-/

set_option autoImplicit false

namespace SymmetricTrees.Description

open Scan

variable {Value Other Draft : Type}

section

variable {name : String} {required : Bool} {get : Draft → Option Value}
  {set : Draft → Value → Draft} {value : Scan Value}

theorem meaning_bind_pure {First : Type} (first : Scan First) (make : First → Value)
    (text : List UInt8) :
    meaning (first >>= fun found => pure (make found)) text = (meaning first text).map make := by
  simp only [meaning, bind, StateT.bind]
  cases first ⟨text ++ [comma], .complete⟩ with
  | error fault => rfl
  | ok result => rfl

theorem meaning_slot (draft : Draft) (text : List UInt8) :
    meaning ((Field.slot name required get set value).read draft) text =
      (meaning value text).map (set draft) :=
  meaning_bind_pure value (set draft) text

theorem slot_fills (fills : ∀ draft found, (get (set draft found)).isSome = true) :
    (Field.slot name required get set value).Fills := by
  intro draft larger text read
  rw [meaning_slot, Option.map_eq_some_iff] at read
  rcases read with ⟨found, -, rfl⟩
  exact fills draft found

theorem slot_apart {otherName : String} {otherRequired : Bool} {otherGet : Draft → Option Other}
    {otherSet : Draft → Other → Draft} {other : Scan Other}
    (keeps : ∀ draft found, otherGet (set draft found) = otherGet draft)
    (kept : ∀ draft found, get (otherSet draft found) = get draft)
    (exchange : ∀ draft found second,
      otherSet (set draft found) second = set (otherSet draft second) found) :
    (Field.slot name required get set value).Apart
      (Field.slot otherName otherRequired otherGet otherSet other) where
  keeps {draft larger text} read := by
    rw [meaning_slot, Option.map_eq_some_iff] at read
    rcases read with ⟨found, -, rfl⟩
    exact congrArg Option.isSome (keeps draft found)
  kept {draft larger text} read := by
    rw [meaning_slot, Option.map_eq_some_iff] at read
    rcases read with ⟨found, -, rfl⟩
    exact congrArg Option.isSome (kept draft found)
  exchange draft text otherText := by
    simp only [meaning_slot]
    cases meaning value text with
    | none => simp
    | some found =>
        cases meaning other otherText with
        | none => rfl
        | some second => simp [exchange]

theorem slot_neutral {shape : Shape Draft Value} {Kept : Type} {get : Draft → Option Kept}
    {set : Draft → Kept → Draft} {value : Scan Kept} {nothing : Kept}
    (null : meaning value nullText = some nothing)
    (shows : ∀ draft, get draft = none → shape.missing? (set draft nothing) = shape.missing? draft ∧
      shape.build? (set draft nothing) = shape.build? draft) :
    shape.Neutral (Field.slot name required get set value) := by
  intro draft absent
  have absent : get draft = none := Option.not_isSome_iff_eq_none.mp (by
    rw [Bool.not_eq_true]
    exact absent)
  refine ⟨set draft nothing, ?_, shows draft absent⟩
  rw [meaning_slot, null, Option.map_some]

end

theorem meaning_optional_field_null (field : Scan Value) :
    meaning (optionalField field) nullText = some none := rfl

theorem meaning_transform_field_null : meaning transformField nullText = some none := rfl

theorem feature_shape_orderly : featureShape.Orderly where
  blank := by
    simp only [featureShape, List.forall_mem_cons]
    exact ⟨rfl, rfl, rfl, rfl, rfl, List.forall_mem_nil _⟩
  fills := by
    simp only [featureShape, List.forall_mem_cons]
    exact ⟨slot_fills fun _ _ => rfl, slot_fills fun _ _ => rfl, slot_fills fun _ _ => rfl,
      slot_fills fun _ _ => rfl, slot_fills fun _ _ => rfl, List.forall_mem_nil _⟩
  apart := by
    simp only [featureShape, List.pairwise_cons, List.forall_mem_cons, List.not_mem_nil,
      false_imp_iff, implies_true, List.Pairwise.nil, and_true]
    and_intros <;> exact slot_apart (fun _ _ => rfl) (fun _ _ => rfl) fun _ _ _ => rfl

theorem catalog_shape_orderly : catalogShape.Orderly where
  blank := List.forall_mem_singleton.mpr rfl
  fills := List.forall_mem_singleton.mpr (slot_fills fun _ _ => rfl)
  apart := List.pairwise_singleton ..

theorem split_shape_orderly : splitShape.Orderly where
  blank := by
    simp only [splitShape, List.forall_mem_cons]
    exact ⟨rfl, rfl, rfl, rfl, List.forall_mem_nil _⟩
  fills := by
    simp only [splitShape, List.forall_mem_cons]
    exact ⟨slot_fills fun _ _ => rfl, slot_fills fun _ _ => rfl, slot_fills fun _ _ => rfl,
      slot_fills fun _ _ => rfl, List.forall_mem_nil _⟩
  apart := by
    simp only [splitShape, List.pairwise_cons, List.forall_mem_cons, List.not_mem_nil,
      false_imp_iff, implies_true, List.Pairwise.nil, and_true]
    and_intros <;> exact slot_apart (fun _ _ => rfl) (fun _ _ => rfl) fun _ _ _ => rfl

theorem tree_shape_orderly : treeShape.Orderly where
  blank := by
    simp only [treeShape, List.forall_mem_cons]
    exact ⟨rfl, rfl, List.forall_mem_nil _⟩
  fills := by
    simp only [treeShape, List.forall_mem_cons]
    exact ⟨slot_fills fun _ _ => rfl, slot_fills fun _ _ => rfl, List.forall_mem_nil _⟩
  apart := List.pairwise_pair.mpr
    (slot_apart (fun _ _ => rfl) (fun _ _ => rfl) fun _ _ _ => rfl)

theorem model_shape_orderly : modelShape.Orderly where
  blank := by
    simp only [modelShape, List.forall_mem_cons]
    exact ⟨rfl, rfl, rfl, List.forall_mem_nil _⟩
  fills := by
    simp only [modelShape, List.forall_mem_cons]
    exact ⟨slot_fills fun _ _ => rfl, slot_fills fun _ _ => rfl, slot_fills fun _ _ => rfl,
      List.forall_mem_nil _⟩
  apart := by
    simp only [modelShape, List.pairwise_cons, List.forall_mem_cons, List.not_mem_nil,
      false_imp_iff, implies_true, List.Pairwise.nil, and_true]
    and_intros <;> exact slot_apart (fun _ _ => rfl) (fun _ _ => rfl) fun _ _ _ => rfl

end SymmetricTrees.Description
