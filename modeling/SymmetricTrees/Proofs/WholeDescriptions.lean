import SymmetricTrees.Proofs.SkippedRecords
import SymmetricTrees.Model.Compiled

/-!
Whole descriptions. A description is one record with blanks around it, and its
reader sees nothing behind the byte that closes the record. So an accepted text
says where it ends: nothing but blanks may follow, and no text that is cut
before the closing byte is accepted.
-/

set_option autoImplicit false

namespace SymmetricTrees.Description

open Scan

variable {First Value Draft : Type} {sight : Sight}

theorem model_shape_read_local : Local .nothing modelShape.read :=
  (Shape.read_reads model_shape_legible).near

def Closes (closing : UInt8) (step : Scan Value) : Prop :=
  ∀ {source after : Source} {value : Value}, step source = .ok (value, after) →
    ∃ body, source.rest = body ++ closing :: after.rest

theorem closes_behind {closing : UInt8} {first : Scan First} {second : First → Scan Value}
    (before : Local sight first) (behind : ∀ value, Closes closing (second value)) :
    Closes closing (first >>= second) := by
  intro source after value read
  obtain ⟨early, middle, firstRead, secondRead⟩ := bind_eq_ok_iff.mp read
  obtain ⟨taken, bytes, -⟩ := before.takes firstRead
  obtain ⟨body, middleBytes⟩ := behind early secondRead
  exact ⟨taken ++ body, by rw [bytes, middleBytes, List.append_assoc]⟩

theorem expect_closes (closing : UInt8) (value : Value) :
    Closes closing (expect closing >>= fun _ => pure value) := by
  intro source after result read
  obtain ⟨⟨⟩, middle, closed, last⟩ := bind_eq_ok_iff.mp read
  obtain ⟨-, rfl⟩ := pure_eq_ok_iff.mp last
  obtain ⟨rest, seen, rfl⟩ := expect_eq_ok_iff.mp closed
  obtain ⟨blanks, _, bytes, -, -, same⟩ := token_eq_ok_iff.mp seen
  cases same
  exact ⟨blanks, bytes⟩

theorem fail_closes (closing : UInt8) (fault : Fault) :
    Closes closing (fail fault : Scan Value) := by
  intro source after value read
  cases read

theorem Shape.read_closes {shape : Shape Draft Value} (legible : shape.Legible)
    {source after : Source} {value : Value} (read : shape.read source = .ok (value, after)) :
    ∃ body closing, source.rest = body ++ closing :: after.rest ∧
      (closing = closeBrace ∨ closing = closeBracket) := by
  have built_closes : ∀ (closing : UInt8) (draft : Draft), Closes closing (do
      let value ← shape.built draft
      expect closing
      return value) := fun closing draft =>
    closes_behind (built_local shape draft : Local .nothing _) (expect_closes closing)
  obtain ⟨byte, middle, seen, read⟩ := bind_eq_ok_iff.mp read
  obtain ⟨front, bytes, -⟩ := token_local.takes seen
  have closed : ∃ closing, (∃ body, middle.rest = body ++ closing :: after.rest) ∧
      (closing = closeBrace ∨ closing = closeBracket) := by
    split at read
    · refine ⟨closeBrace, closes_behind skip_local (fun _ => ?_) read, .inl rfl⟩
      rw [budgeted_eq_take_turns fun rounds => members_eq_turns rounds true shape.blank]
      refine closes_behind ((part_turns_local another_member_local (member_reads legible) _).bind
        fun _ => pure_local _) fun draft => ?_
      split
      · exact fail_closes _ _
      · exact built_closes closeBrace draft
    · split at read
      · exact ⟨closeBracket, closes_behind skip_local (fun _ =>
          closes_behind (positions_local legible true shape.blank) (built_closes closeBracket))
          read, .inr rfl⟩
      · exact absurd read mismatch_ne_ok
  obtain ⟨closing, ⟨body, rest⟩, isClosing⟩ := closed
  exact ⟨front ++ body, closing, by rw [bytes, rest, List.append_assoc], isClosing⟩

theorem trailer_eq_ok_iff {bytes : List UInt8} :
    (∃ after, trailer ⟨bytes, .complete⟩ = .ok ((), after)) ↔ Blank bytes := by
  constructor
  · rintro ⟨after, read⟩
    obtain ⟨blanks, ⟨rest, ending⟩, run, look⟩ := bind_eq_ok_iff.mp read
    obtain ⟨split, -, blank, -⟩ := take_run_eq_ok run
    obtain ⟨seen, last, peeked, answered⟩ := bind_eq_ok_iff.mp look
    obtain ⟨rfl, -, -⟩ := peek?_eq_ok_iff.mp peeked
    cases rest with
    | nil =>
        obtain rfl : bytes = blanks := split.trans (List.append_nil blanks)
        exact blank
    | cons byte rest => cases answered
  · intro blank
    refine ⟨⟨[], .complete⟩, ?_⟩
    have run : takeRun isBlank ⟨bytes ++ [], .complete⟩ = .ok (bytes, ⟨[], .complete⟩) :=
      take_run_append blank fun byte none => by cases none
    rw [List.append_nil] at run
    rw [trailer, bind_of_ok run]
    rfl

theorem trailer_readable {bytes : List UInt8} {reason : String} :
    trailer ⟨bytes, .complete⟩ ≠ .error (.unreadable reason) := by
  refine ((take_run_local_byte isBlank).bind fun _ => peek?_local.bind fun seen => ?_).readable
  split
  · exact pure_local ()
  · exact malformed_local

theorem Model.read_record {record behind : List UInt8} {model other : Model}
    (read : modelShape.read ⟨record ++ behind, .complete⟩ = .ok (model, ⟨behind, .complete⟩)) :
    Model.read ⟨record ++ behind, .complete⟩ = .ok other ↔ Blank behind ∧ other = model := by
  simp only [Model.read, read, ← trailer_eq_ok_iff]
  cases trailer ⟨behind, .complete⟩ with
  | error fault => simp
  | ok ended =>
      constructor
      · intro accepted
        cases accepted
        exact ⟨⟨ended.2, rfl⟩, rfl⟩
      · rintro ⟨-, rfl⟩
        rfl

/-- A text is accepted if it is a record, which is read whatever stands behind it,
and blanks. -/
theorem Model.read_eq_ok_iff {text : List UInt8} {model : Model} :
    Model.read ⟨text, .complete⟩ = .ok model ↔
      ∃ record blanks, text = record ++ blanks ∧ Blank blanks ∧ ∀ behind,
        modelShape.read ⟨record ++ behind, .complete⟩ = .ok (model, ⟨behind, .complete⟩) := by
  constructor
  · intro accepted
    cases read : modelShape.read ⟨text, .complete⟩ with
    | error fault => simp [Model.read, read] at accepted
    | ok found =>
        obtain ⟨value, rest, ending⟩ := found
        obtain ⟨record, bytes, same, again⟩ :=
          model_shape_read_local.takes read
        obtain rfl : ending = .complete := same
        obtain rfl : text = record ++ rest := bytes
        obtain ⟨blank, rfl⟩ := (read_record read).mp accepted
        exact ⟨record, rest, rfl, blank, fun behind => again behind trivial⟩
  · rintro ⟨record, blanks, rfl, blank, read⟩
    exact (read_record (read blanks)).mpr ⟨blank, rfl⟩

theorem Model.read_readable {text : List UInt8} {reason : String} :
    Model.read ⟨text, .complete⟩ ≠ .error (.unreadable reason) := by
  intro failed
  cases read : modelShape.read ⟨text, .complete⟩ with
  | error fault =>
      simp only [Model.read, read, Except.error.injEq] at failed
      exact model_shape_read_local.readable (failed ▸ read)
  | ok found =>
      obtain ⟨value, rest, ending⟩ := found
      obtain rfl : ending = .complete := model_shape_read_local.ending_eq read
      simp only [Model.read, read] at failed
      split at failed
      · rename_i fault ended
        cases failed
        exact trailer_readable ended
      · cases failed

theorem Model.read_append_iff {text suffix : List UInt8} {model other : Model}
    (accepted : Model.read ⟨text, .complete⟩ = .ok model) :
    Model.read ⟨text ++ suffix, .complete⟩ = .ok other ↔ Blank suffix ∧ other = model := by
  obtain ⟨record, blanks, rfl, blank, read⟩ := Model.read_eq_ok_iff.mp accepted
  rw [List.append_assoc, Model.read_record (read _)]
  have both : Blank (blanks ++ suffix) ↔ Blank suffix := by
    simp only [Blank, List.forall_mem_append]
    exact and_iff_right blank
  rw [both]

theorem Model.closing_of_read {text : List UInt8} {model : Model}
    (accepted : Model.read ⟨text, .complete⟩ = .ok model) :
    ∃ body closing blanks, text = body ++ closing :: blanks ∧
      (closing = closeBrace ∨ closing = closeBracket) ∧ Blank blanks := by
  obtain ⟨record, blanks, rfl, blank, read⟩ := Model.read_eq_ok_iff.mp accepted
  obtain ⟨body, closing, bytes, isClosing⟩ :=
    Shape.read_closes model_shape_legible (read blanks)
  exact ⟨body, closing, blanks, bytes, isClosing, blank⟩

/-- What is cut before the closing byte is not accepted. -/
theorem Model.read_cut {body cut blanks : List UInt8} {closing : UInt8} {model : Model}
    (accepted : Model.read ⟨body ++ closing :: blanks, .complete⟩ = .ok model)
    (isClosing : closing = closeBrace ∨ closing = closeBracket) (isCut : cut <+: body) :
    ∃ fault, Model.read ⟨cut, .complete⟩ = .error fault := by
  cases read : Model.read ⟨cut, .complete⟩ with
  | error fault => exact ⟨fault, rfl⟩
  | ok other =>
      obtain ⟨between, rfl⟩ := isCut
      rw [List.append_assoc] at accepted
      have blank := ((Model.read_append_iff read).mp accepted).1
      have closes : isBlank closing = true := blank closing (by simp)
      rcases isClosing with rfl | rfl <;> cases closes

/-- A description is accepted whole or not at all. Behind an accepted text only
blanks may follow, and they change nothing; so of two accepted texts one of which
starts with the other the longer adds only blanks. The text ends with a closing
byte and blanks, and what is cut before that byte is a bad text, wherever it is
cut. -/
theorem accepted_only_whole {text : List UInt8} {model : Model}
    (accepted : Model.read ⟨text, .complete⟩ = .ok model) :
    (∀ suffix, ((∃ other, Model.read ⟨text ++ suffix, .complete⟩ = .ok other) ↔
        ∀ byte ∈ suffix, byte = 0x20 ∨ byte = 0x09 ∨ byte = 0x0A ∨ byte = 0x0D) ∧
      ∀ other, Model.read ⟨text ++ suffix, .complete⟩ = .ok other → other = model) ∧
    (∀ longer other, text <+: longer → Model.read ⟨longer, .complete⟩ = .ok other →
      ∃ blanks, longer = text ++ blanks ∧ Blank blanks) ∧
    ∃ body closing blanks, text = body ++ closing :: blanks ∧
      (closing = closeBrace ∨ closing = closeBracket) ∧ Blank blanks ∧
      ∀ cut, cut <+: body → ∃ fault, Model.read ⟨cut, .complete⟩ = .error fault ∧
        ∀ settings, CompiledModel.ofSource settings ⟨cut, .complete⟩ = .error (.parse fault) := by
  have isBlank_iff : ∀ byte, isBlank byte = true ↔
      byte = 0x20 ∨ byte = 0x09 ∨ byte = 0x0A ∨ byte = 0x0D := by
    simp [isBlank, or_assoc]
  refine ⟨fun suffix => ⟨?_, fun other read => ((Model.read_append_iff accepted).mp read).2⟩,
    ?_, ?_⟩
  · simp only [← isBlank_iff, Model.read_append_iff accepted]
    constructor
    · rintro ⟨_, blank, _⟩
      exact blank
    · intro blank
      exact ⟨model, blank, rfl⟩
  · rintro longer other ⟨suffix, rfl⟩ read
    exact ⟨suffix, rfl, ((Model.read_append_iff accepted).mp read).1⟩
  · obtain ⟨body, closing, blanks, rfl, isClosing, blank⟩ := Model.closing_of_read accepted
    refine ⟨body, closing, blanks, rfl, isClosing, blank, fun cut isCut => ?_⟩
    obtain ⟨fault, failed⟩ := Model.read_cut accepted isClosing isCut
    refine ⟨fault, failed, fun settings => ?_⟩
    have badText : ModelError.ofFault fault = .parse fault := by
      cases fault with
      | unreadable reason => exact absurd failed Model.read_readable
      | ended => rfl
      | malformed => rfl
      | unsuited mismatch => rfl
    rw [CompiledModel.ofSource, failed, ← badText]

/-- The unknown member of the one feature holds a number and an escape. -/
theorem accepted_only_whole_unknown_member :
    let text := "[[[\x7b\"x\":[1e9,\"\\u00e9\"]\x7d]],[]] ".toUTF8.toList
    ∃ model, Model.read ⟨text, .complete⟩ = .ok model ∧
      (∃ other, Model.read ⟨text ++ [0x0A, 0x09], .complete⟩ = .ok other) ∧
      ¬(∃ other, Model.read ⟨text ++ [0x5D], .complete⟩ = .ok other) ∧
      ∃ fault, Model.read ⟨[], .complete⟩ = .error fault := by
  intro text
  have isOk : (Model.read ⟨text, .complete⟩).isOk = true := by decide +kernel
  cases accepted : Model.read ⟨text, .complete⟩ with
  | error fault => simp [accepted, Except.isOk, Except.toBool] at isOk
  | ok model =>
      obtain ⟨suffixes, -, body, _, _, -, -, -, cuts⟩ := accepted_only_whole accepted
      refine ⟨model, rfl, (suffixes _).1.mpr (by simp), fun read => ?_, ?_⟩
      · have blank := (suffixes [0x5D]).1.mp read 0x5D (List.mem_singleton_self _)
        simp at blank
      · obtain ⟨fault, failed, -⟩ := cuts [] List.nil_prefix
        exact ⟨fault, failed⟩

end SymmetricTrees.Description
