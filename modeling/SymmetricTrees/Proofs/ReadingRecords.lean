import SymmetricTrees.Proofs.ReadingValues

/-!
What the readers of typed values and records see. Records of all kinds are read
by one loop, whose turns are members. A record ends with its closing byte, and
its reader sees nothing behind it.
-/

set_option autoImplicit false

namespace SymmetricTrees.Description

open Scan

variable {Value Draft : Type} {sight : Sight}

theorem drop_scalar_readable (byte : UInt8) {bytes : List UInt8} {reason : String} :
    dropScalar byte ⟨byte :: bytes, .complete⟩ ≠ .error (.unreadable reason) := by
  have text_dropped : Local .stop (text >>= fun _ => pure ()) :=
    (text_reads.bind fun _ => pure_local ()).near
  unfold dropScalar
  split
  · exact Local.readable (word_reads.near : Local .stop nullWord)
  split
  · exact Local.readable (word_reads.near : Local .stop trueWord)
  split
  · exact Local.readable (word_reads.near : Local .stop falseWord)
  split
  · exact text_dropped.readable
  split
  · exact ((number_in_place byte).bind fun _ => pure_local _).readable
  split
  · exact Local.readable (pure_local () : Local .stop _)
  · exact Local.readable (malformed_local : Local .stop _)

theorem mismatch_ne_ok {byte : UInt8} {source : Source} {result : Value × Source} :
    mismatch byte source ≠ .ok result := by
  intro read
  obtain ⟨_, _, -, late⟩ := bind_eq_ok_iff.mp read
  cases late

theorem mismatch_in_place (byte : UInt8) : LocalFrom sight byte (mismatch byte : Scan Value) where
  takes read := absurd read mismatch_ne_ok
  readable failed := by
    rcases bind_eq_error_iff.mp failed with early | ⟨_, _, -, late⟩
    · exact drop_scalar_readable byte early
    · cases late

theorem unsuited_local (mismatch : Mismatch) :
    Local sight (fail (.unsuited mismatch) : Scan Value) :=
  fail_local fun _ same => by cases same

theorem number_field_reads : Reads .stop numberField := by
  refine token_bind_reads fun byte => ?_
  split
  · exact number_in_place byte
  · exact mismatch_in_place byte

theorem boolean_field_reads : Reads sight booleanField := by
  refine token_bind_reads fun byte => ?_
  split
  · exact word_reads.in_place.bind fun _ => pure_local _
  split
  · exact word_reads.in_place.bind fun _ => pure_local _
  · exact mismatch_in_place byte

theorem text_field_reads : Reads sight textField := by
  refine token_bind_reads fun byte => ?_
  split
  · exact text_reads.in_place
  · exact mismatch_in_place byte

theorem list_field_reads {within : Sight} {element : Scan Value} (reads : Reads within element) :
    Reads sight (listField element) := by
  refine token_bind_reads fun byte => ?_
  split
  · exact array_in_place reads byte
  · exact mismatch_in_place byte

theorem optional_field_reads {field : Scan Value} (reads : Reads sight field) :
    Reads sight (optionalField field) := by
  refine token_bind_reads fun byte => ?_
  split
  · exact word_reads.in_place.bind fun _ => pure_local _
  · exact (reads.bind fun _ => pure_local _).in_place

namespace Shape

variable {shape : Shape Draft Value}

def Legible (shape : Shape Draft Value) : Prop :=
  ∀ field ∈ shape.fields, ∀ draft, Reads .stop (field.read draft)

def member (shape : Shape Draft Value) (draft : Draft) : Scan Draft := do
  let name ← text
  match shape.fields.find? fun field => field.name == name with
  | some field =>
      if field.isPresent draft then fail (.unsuited (.duplicateField name))
      else do
        expect colon
        field.read draft
  | none =>
      expect colon
      skipValue
      return draft

theorem members_eq_turns (rounds : List UInt8) (first : Bool) (draft : Draft) :
    shape.members rounds first draft =
      turns (partTurn anotherMember shape.member) rounds (first, draft) >>= fun last =>
        return last.2 := by
  induction rounds generalizing first draft with
  | nil => rfl
  | cons round rounds induction =>
      simp only [members, turns, partTurn, member, bind_assoc, induction]
      congr 1
      funext another
      cases another with
      | false => simp
      | true =>
          simp only [if_true, bind_assoc]
          congr 1
          funext name
          cases shape.fields.find? fun field => field.name == name with
          | none => simp
          | some field =>
              simp only
              split
              · rfl
              · simp

theorem member_reads (legible : shape.Legible) (draft : Draft) :
    Reads .byte (shape.member draft) := by
  refine text_reads.bind fun name => ?_
  split
  · rename_i field found
    split
    · exact unsuited_local _
    · have reads := legible field (List.mem_of_find?_eq_some found) draft
      exact (expect_reads colon).near.bind fun _ => reads.near.to_byte
  · exact (expect_reads colon).near.bind fun _ => skip_value_reads.near.bind fun _ => pure_local _

theorem positions_local {fields : List (Field Draft)}
    (legible : ∀ field ∈ fields, ∀ draft, Reads .stop (field.read draft)) (first : Bool)
    (draft : Draft) : Local .byte (positions first fields draft) := by
  induction fields generalizing first draft with
  | nil => exact pure_local draft
  | cons field rest induction =>
      obtain ⟨head, tail⟩ := List.forall_mem_cons.mp legible
      refine (another_element_local first).bind fun another => ?_
      split
      · exact (head draft).near.to_byte.bind fun larger => induction tail false larger
      · exact pure_local draft

theorem built_local (shape : Shape Draft Value) (draft : Draft) :
    Local sight (shape.built draft) := by
  unfold built
  split
  · exact pure_local _
  · exact unsuited_local _

/-- A record ends with a byte of its own, and nothing behind it is seen. -/
theorem read_reads (legible : shape.Legible) : Reads sight shape.read := by
  refine token_bind_reads fun byte => ?_
  split
  · refine .skip ?_
    rw [budgeted_eq_take_turns fun rounds => members_eq_turns rounds true shape.blank]
    have members := (part_turns_local another_member_local (member_reads legible)
      (true, shape.blank)).bind fun last => pure_local last.2
    refine (members.then_reads fun draft => ?_).near
    split
    · exact ⟨unsuited_local _, ⟨fun read _ => by cases read⟩⟩
    · exact (built_local shape draft).then_reads fun value =>
        (expect_reads closeBrace).bind fun _ => pure_local value
  split
  · refine .skip ((positions_local legible true shape.blank).then_reads fun draft => ?_).near
    exact (built_local shape draft).then_reads fun value =>
      (expect_reads closeBracket).bind fun _ => pure_local value
  · exact mismatch_in_place byte

end Shape

end SymmetricTrees.Description
