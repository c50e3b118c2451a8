import SymmetricTrees.Proofs.SkippedReadings
import SymmetricTrees.Proofs.ReadingRecords

/-!
Typed values and records could have been skipped, too: the reader of each field
and of each record reads one value and stops where the reader that skips values
stops.
-/

set_option autoImplicit false

namespace SymmetricTrees.Description

open Scan
open Relation (ReflTransGen)

variable {Value Draft : Type}

theorem fail_keeps {fault : Fault} {source after : Source} {value : Value}
    (done : (fail fault : Scan Value) source = .ok (value, after)) : after = source := by
  cases done

theorem mismatch_passes (byte : UInt8) : PassesFrom byte (mismatch byte : Scan Value) :=
  fun _ _ _ _ read => absurd read mismatch_ne_ok

theorem number_field_reads_value : ReadsValue numberField := by
  apply reads_value_of_token number_field_reads
  intro byte solid
  split
  · rename_i starts
    exact number_passes solid starts
  · exact mismatch_passes byte

theorem single_field_reads_value : ReadsValue singleField :=
  number_field_reads_value.judged (fun _ => pure_local _) pure_keeps

theorem double_field_reads_value : ReadsValue doubleField :=
  number_field_reads_value.judged (fun _ => pure_local _) pure_keeps

theorem index_field_reads_value : ReadsValue indexField := by
  apply number_field_reads_value.judged
  · intro number
    split
    · exact pure_local _
    · exact unsuited_local _
  · intro number source after index judged
    generalize number.toIndex? = found at judged
    cases found with
    | none => exact fail_keeps judged
    | some index => exact pure_keeps judged

theorem boolean_field_reads_value : ReadsValue booleanField := by
  apply reads_value_of_token boolean_field_reads
  intro byte _
  split
  · rename_i isTrue
    subst isTrue
    exact true_word_passes.bind_pure
  split
  · rename_i isFalse
    subst isFalse
    exact false_word_passes.bind_pure
  · exact mismatch_passes byte

theorem text_field_reads_value : ReadsValue textField := by
  apply reads_value_of_token text_field_reads
  intro byte _
  split
  · rename_i isQuote
    subst isQuote
    exact text_passes
  · exact mismatch_passes byte

theorem list_field_reads_value {element : Scan Value} (value : ReadsValue element) :
    ReadsValue (listField element) := by
  apply reads_value_of_token (list_field_reads value.reads)
  intro byte _
  split
  · rename_i isBracket
    subst isBracket
    exact array_passes value
  · exact mismatch_passes byte

theorem optional_field_reads_value {field : Scan Value} (value : ReadsValue field) :
    ReadsValue (optionalField field) := by
  apply reads_value_of_token (optional_field_reads value.reads)
  intro byte _
  split
  · rename_i isNull
    subst isNull
    exact null_word_passes.bind_pure
  · intro rest ending after found read
    rcases bind_eq_ok_iff.mp read with ⟨found, middle, read, done⟩
    rw [pure_keeps done]
    exact value.passes read

theorem transform_field_reads_value : ReadsValue transformField := by
  apply (free_value_reads_value maxNesting).judged
  · intro value
    split
    · exact pure_local _
    · exact unsuited_local _
  · intro value source after transform judged
    generalize transformOf value = found at judged
    cases found with
    | error mismatch => exact fail_keeps judged
    | ok transform => exact pure_keeps judged

/-- What a turn does does not depend on the frames below those it needs. -/
theorem skip_turn_append {due : Bool} {frames : List Frame} (base : List Frame)
    (needs : due = true ∨ frames ≠ []) :
    skipTurn (due, frames ++ base) = skipTurn (due, frames) >>= fun later =>
      return later.map fun state => (state.1, state.2 ++ base) := by
  match due, frames with
  | true, frames =>
      simp only [skipTurn, bind_assoc]
      congr 1
      funext byte
      split
      · simp only [bind_assoc]
        congr 1
        funext _
        congr 1
        funext head
        split <;> simp
      · split
        · simp only [bind_assoc]
          congr 1
          funext _
          congr 1
          funext head
          split <;> simp
        · simp
  | false, [] => simp at needs
  | false, .array :: frames =>
      simp only [List.cons_append, skipTurn, bind_assoc]
      congr 1
      funext byte
      split
      · simp
      · split
        · simp
        · rfl
  | false, .object :: frames =>
      simp only [List.cons_append, skipTurn, bind_assoc]
      congr 1
      funext byte
      split
      · simp
      · split
        · simp
        · rfl

theorem skip_turn_eq_none {state : Bool × List Frame} {source after : Source}
    (ended : skipTurn state source = .ok (none, after)) : state = (false, []) ∧ after = source := by
  match state with
  | (true, frames) =>
      rcases bind_eq_ok_iff.mp ended with ⟨byte, _, _, ended⟩
      split at ended
      · rcases bind_eq_ok_iff.mp ended with ⟨⟨⟩, _, _, ended⟩
        rcases bind_eq_ok_iff.mp ended with ⟨head, _, _, ended⟩
        split at ended
        · cases ended
        · cases ended
      split at ended
      · rcases bind_eq_ok_iff.mp ended with ⟨⟨⟩, _, _, ended⟩
        rcases bind_eq_ok_iff.mp ended with ⟨head, _, _, ended⟩
        split at ended
        · cases ended
        · rcases bind_eq_ok_iff.mp ended with ⟨⟨⟩, _, _, ended⟩
          cases ended
      · rcases bind_eq_ok_iff.mp ended with ⟨⟨⟩, _, _, ended⟩
        cases ended
  | (false, []) => exact ⟨rfl, (pure_eq_ok_iff.mp ended).2⟩
  | (false, .array :: frames) =>
      rcases bind_eq_ok_iff.mp ended with ⟨byte, _, _, ended⟩
      split at ended
      · cases ended
      · split at ended <;> cases ended
  | (false, .object :: frames) =>
      rcases bind_eq_ok_iff.mp ended with ⟨byte, _, _, ended⟩
      split at ended
      · rcases bind_eq_ok_iff.mp ended with ⟨⟨⟩, _, _, ended⟩
        rcases bind_eq_ok_iff.mp ended with ⟨⟨⟩, _, _, ended⟩
        cases ended
      · split at ended <;> cases ended

theorem again_append {start last : (Bool × List Frame) × Source} (took : Again skipTurn start last)
    (base : List Frame) :
    Again skipTurn ((start.1.1, start.1.2 ++ base), start.2)
      ((last.1.1, last.1.2 ++ base), last.2) := by
  rcases start with ⟨⟨due, frames⟩, source⟩
  have needs : due = true ∨ frames ≠ [] := by
    by_contra neither
    rw [not_or, Bool.not_eq_true, not_not] at neither
    rcases neither with ⟨rfl, rfl⟩
    cases took
  rw [Again, skip_turn_append base needs]
  exact (bind_of_ok took).trans rfl

theorem passes_iff_skip_value {source after : Source} :
    Passes source after ↔ skipValue source = .ok ((), after) := by
  rw [skipValue, budgeted_eq_take_turns fun rounds => skip_frames_eq_turns rounds true []]
  constructor
  · intro passes
    have turned : takeTurns skipTurn (true, []) source = .ok ((false, []), after) := by
      rw [take_turns_eq_ok_iff skip_turn_progresses]
      exact ⟨after, passes [], rfl⟩
    exact (bind_of_ok turned).trans rfl
  · intro skipped base
    rcases bind_eq_ok_iff.mp skipped with ⟨final, last, turned, done⟩
    rcases pure_eq_ok_iff.mp done with ⟨-, rfl⟩
    rcases again_of_turns turned with ⟨stop, run, ended⟩
    rcases skip_turn_eq_none ended with ⟨rfl, rfl⟩
    exact run.lift (fun place => ((place.1.1, place.1.2 ++ base), place.2)) fun _ _ took =>
      again_append took base

theorem Passes.unique {source one other : Source} (first : Passes source one)
    (second : Passes source other) : one = other := by
  have same := (passes_iff_skip_value.mp first).symm.trans (passes_iff_skip_value.mp second)
  cases same
  rfl

namespace Shape

variable {shape : Shape Draft Value}

def FieldsReadValues (shape : Shape Draft Value) : Prop :=
  ∀ field ∈ shape.fields, ∀ draft, ReadsValue (field.read draft)

theorem legible_of_fields (fields : shape.FieldsReadValues) : shape.Legible :=
  fun field isField draft => (fields field isField draft).reads

theorem member_passes (fields : shape.FieldsReadValues) : PartPasses .object shape.member := by
  intro draft larger byte rest ending middle _ opens read
  have opens : byte = quote := opens
  subst opens
  rcases bind_eq_ok_iff.mp read with ⟨name, between, named, read⟩
  cases found : shape.fields.find? fun field => field.name == name with
  | none =>
      rw [found] at read
      rcases bind_eq_ok_iff.mp read with ⟨⟨⟩, behind, colonRead, read⟩
      rcases bind_eq_ok_iff.mp read with ⟨⟨⟩, _, skipped, done⟩
      rw [pure_keeps done]
      exact passes_part_of_member named colonRead (passes_iff_skip_value.mpr skipped)
  | some field =>
      rw [found] at read
      simp only at read
      split at read
      · cases read
      · rcases bind_eq_ok_iff.mp read with ⟨⟨⟩, behind, colonRead, read⟩
        exact passes_part_of_member named colonRead
          ((fields field (List.mem_of_find?_eq_some found) draft).passes read)

theorem built_keeps {draft : Draft} {source after : Source} {value : Value}
    (read : shape.built draft source = .ok (value, after)) : after = source := by
  rw [built] at read
  generalize shape.build? draft = made at read
  cases made with
  | none => cases read
  | some made => exact pure_keeps read

theorem reaches_of_positions {fields : List (Field Draft)}
    (values : ∀ field ∈ fields, ∀ draft, ReadsValue (field.read draft)) {draft larger : Draft}
    {source last after : Source} (read : positions false fields draft source = .ok (larger, last))
    (closes : token last = .ok (closeBracket, ⟨closeBracket :: after.rest, after.ending⟩))
    (frames : List Frame) :
    ReflTransGen (Again skipTurn) ((false, .array :: frames), source) ((false, frames), after) := by
  induction fields generalizing draft source with
  | nil =>
      rcases pure_eq_ok_iff.mp read with ⟨-, rfl⟩
      exact @reaches_close _ _ _ .array _ closes
  | cons field fields induction =>
      rcases List.forall_mem_cons.mp values with ⟨value, others⟩
      rcases bind_eq_ok_iff.mp read with ⟨more, middle, asked, read⟩
      cases more with
      | false =>
          rcases pure_eq_ok_iff.mp read with ⟨-, rfl⟩
          exact @reaches_close _ _ _ .array _ (another_element_separates.closes asked closes)
      | true =>
          rcases bind_eq_ok_iff.mp read with ⟨larger, behind, valueRead, othersRead⟩
          rcases another_element_separates.continues.mp asked with ⟨rest, byte, seen, found, -⟩
          rcases token_eq_ok_iff.mp found with ⟨blanks, bytes, same, blank, -, rfl⟩
          have same : rest = blanks ++ byte :: bytes := same
          apply reaches_comma seen
          rw [same, due_blanks blank]
          exact passes_part_array ((value draft).passes valueRead) frames _
            (induction others othersRead)

theorem positions_passes {fields : List (Field Draft)}
    (values : ∀ field ∈ fields, ∀ draft, ReadsValue (field.read draft)) {draft larger : Draft}
    {bytes : List UInt8} {ending : Ending} {last after : Source}
    (read : positions true fields draft ⟨bytes, ending⟩ = .ok (larger, last))
    (closes : token last = .ok (closeBracket, ⟨closeBracket :: after.rest, after.ending⟩)) :
    Passes ⟨openBracket :: bytes, ending⟩ after := by
  cases fields with
  | nil =>
      rcases pure_eq_ok_iff.mp read with ⟨-, rfl⟩
      exact @passes_empty _ _ .array _ closes
  | cons field fields =>
      rcases List.forall_mem_cons.mp values with ⟨value, others⟩
      rcases bind_eq_ok_iff.mp read with ⟨more, middle, asked, read⟩
      cases more with
      | false =>
          rcases pure_eq_ok_iff.mp read with ⟨-, rfl⟩
          exact @passes_empty _ _ .array _ (another_element_separates.closes asked closes)
      | true =>
          rcases bind_eq_ok_iff.mp read with ⟨larger, behind, valueRead, othersRead⟩
          rcases another_element_separates.starts.mp asked with ⟨byte, seen, opens⟩
          apply @passes_open _ _ .array _ _ _ seen opens
          intro frames
          exact passes_part_array ((value draft).passes valueRead) frames _
            (reaches_of_positions others othersRead closes frames)

theorem read_reads_value (fields : shape.FieldsReadValues) : ReadsValue shape.read := by
  apply reads_value_of_token (read_reads (legible_of_fields fields))
  intro byte _
  split
  · rename_i isBrace
    subst isBrace
    intro rest ending after value read
    rw [budgeted_eq_take_turns fun rounds => members_eq_turns rounds true shape.blank,
      bind_of_ok skip_cons] at read
    rcases bind_eq_ok_iff.mp read with ⟨draft, middle, turned, read⟩
    rcases bind_eq_ok_iff.mp turned with ⟨final, last, turned, done⟩
    rcases pure_eq_ok_iff.mp done with ⟨rfl, rfl⟩
    generalize shape.missing? final.2 = missing at read
    cases missing with
    | some field => cases read
    | none =>
        rcases bind_eq_ok_iff.mp read with ⟨made, _, made_, closed⟩
        rcases bind_eq_ok_iff.mp closed with ⟨⟨⟩, _, closed, done⟩
        rcases pure_eq_ok_iff.mp done with ⟨-, rfl⟩
        rw [built_keeps made_] at closed
        rcases expect_eq_ok_iff.mp closed with ⟨behind, seen, rfl⟩
        exact passes_of_parts another_member_separates (member_passes fields) turned seen
  split
  · rename_i isBracket
    subst isBracket
    intro rest ending after value read
    rw [bind_of_ok skip_cons] at read
    rcases bind_eq_ok_iff.mp read with ⟨draft, last, taken, read⟩
    rcases bind_eq_ok_iff.mp read with ⟨made, _, made_, closed⟩
    rcases bind_eq_ok_iff.mp closed with ⟨⟨⟩, _, closed, done⟩
    rcases pure_eq_ok_iff.mp done with ⟨-, rfl⟩
    rw [built_keeps made_] at closed
    rcases expect_eq_ok_iff.mp closed with ⟨behind, seen, rfl⟩
    exact positions_passes fields taken seen
  · exact mismatch_passes byte

end Shape

theorem slot_reads_value {name : String} {required : Bool} {get : Draft → Option Value}
    {set : Draft → Value → Draft} {value : Scan Value} (reads : ReadsValue value) (draft : Draft) :
    ReadsValue ((Field.slot name required get set value).read draft) :=
  reads.judged (fun _ => pure_local _) pure_keeps

theorem feature_shape_fields : featureShape.FieldsReadValues := by
  simp only [Shape.FieldsReadValues, featureShape, List.forall_mem_cons]
  exact ⟨slot_reads_value (optional_field_reads_value index_field_reads_value),
    slot_reads_value (optional_field_reads_value index_field_reads_value),
    slot_reads_value (list_field_reads_value single_field_reads_value),
    slot_reads_value boolean_field_reads_value,
    slot_reads_value (optional_field_reads_value text_field_reads_value), List.forall_mem_nil _⟩

theorem catalog_shape_fields : catalogShape.FieldsReadValues := by
  simp only [Shape.FieldsReadValues, catalogShape, List.forall_mem_singleton]
  exact slot_reads_value (list_field_reads_value (Shape.read_reads_value feature_shape_fields))

theorem split_shape_fields : splitShape.FieldsReadValues := by
  simp only [Shape.FieldsReadValues, splitShape, List.forall_mem_cons]
  exact ⟨slot_reads_value single_field_reads_value,
    slot_reads_value (optional_field_reads_value index_field_reads_value),
    slot_reads_value (optional_field_reads_value index_field_reads_value),
    slot_reads_value (optional_field_reads_value text_field_reads_value), List.forall_mem_nil _⟩

theorem tree_shape_fields : treeShape.FieldsReadValues := by
  simp only [Shape.FieldsReadValues, treeShape, List.forall_mem_cons]
  exact ⟨slot_reads_value (list_field_reads_value (Shape.read_reads_value split_shape_fields)),
    slot_reads_value (list_field_reads_value double_field_reads_value), List.forall_mem_nil _⟩

theorem model_shape_fields : modelShape.FieldsReadValues := by
  simp only [Shape.FieldsReadValues, modelShape, List.forall_mem_cons]
  exact ⟨slot_reads_value (Shape.read_reads_value catalog_shape_fields),
    slot_reads_value (list_field_reads_value (Shape.read_reads_value tree_shape_fields)),
    slot_reads_value transform_field_reads_value, List.forall_mem_nil _⟩

theorem model_shape_legible : modelShape.Legible := Shape.legible_of_fields model_shape_fields

end SymmetricTrees.Description
