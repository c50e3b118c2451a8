import SymmetricTrees.Proofs.SkippedRecords

/-!
What a reader makes of a well-formed text. Since a value's text says where the
value ends, the meaning of a text does not depend on what stands around it, and
what a loop over parts makes of a frame follows from the meanings of the parts.
-/

set_option autoImplicit false

namespace SymmetricTrees.Description

open Scan
open Relation (ReflTransGen)

variable {Value State : Type}

/-- What a reader makes of a text on its own. The comma behind the text stops it. -/
def meaning (reader : Scan Value) (text : List UInt8) : Option Value :=
  match reader ⟨text ++ [comma], .complete⟩ with
  | .ok (value, _) => some value
  | .error _ => none

/-- A reader that reads no more and no less of the text than all, if it reads it. -/
structure Spans (reader : Scan Value) (text : List UInt8) : Prop where
  near : Local .stop reader
  ends : ∀ {rest : List UInt8} {value : Value} {after : Source}, Stops rest →
    reader ⟨text ++ rest, .complete⟩ = .ok (value, after) → after = ⟨rest, .complete⟩

theorem comma_stops : Stops [comma] := stops_of_not_goes_on rfl

section

variable {reader : Scan Value} {text rest : List UInt8} {value : Value} {after : Source}

theorem meaning_eq_some_iff :
    meaning reader text = some value ↔
      ∃ after, reader ⟨text ++ [comma], .complete⟩ = .ok (value, after) := by
  rw [meaning]
  cases reader ⟨text ++ [comma], .complete⟩ with
  | error fault => simp
  | ok result => simp [Prod.ext_iff]

theorem Spans.moves (spans : Spans reader text) {other : List UInt8} (stops : Stops rest)
    (otherStops : Stops other) (read : reader ⟨text ++ rest, .complete⟩ = .ok (value, after)) :
    reader ⟨text ++ other, .complete⟩ = .ok (value, ⟨other, .complete⟩) := by
  have last := spans.ends stops read
  subst last
  rcases spans.near.takes read with ⟨taken, bytes, -, again⟩
  have same : text = taken := List.append_cancel_right bytes
  rw [same]
  exact again other (.inr ⟨stops, otherStops⟩)

theorem Spans.read_eq_ok_iff (spans : Spans reader text) (stops : Stops rest) :
    reader ⟨text ++ rest, .complete⟩ = .ok (value, after) ↔
      meaning reader text = some value ∧ after = ⟨rest, .complete⟩ := by
  rw [meaning_eq_some_iff]
  constructor
  · intro read
    exact ⟨⟨_, spans.moves stops comma_stops read⟩, spans.ends stops read⟩
  · rintro ⟨⟨_, read⟩, rfl⟩
    exact spans.moves comma_stops stops read

theorem spans_of_json (value : ReadsValue reader) (json : Json text) : Spans reader text where
  near := value.reads.near
  ends stops read := (value.passes read).unique (json.passes stops)

theorem text_spans {key : List UInt8} (quoted : Quoted key) : Spans Description.text key where
  near := text_reads.near
  ends {rest name after} _ read := by
    have skipped := (skip_text_of_text read).symm.trans (skip_text_append quoted)
    cases skipped
    rfl

end

variable {frame : Frame} {rest : List UInt8}

section

variable {another : Bool → Scan Bool} {part : State → Scan State}

theorem Remains.goes_on (separates : Separates another frame) {first : Bool}
    {text bytes : List UInt8} {texts : List (List UInt8)}
    (remains : Remains frame rest first (text :: texts) bytes) (starts : StartsPart frame text) :
    ∃ behind, another first ⟨bytes, .complete⟩ = .ok (true, ⟨text ++ behind, .complete⟩) ∧
      Remains frame rest false texts behind := by
  rcases starts with ⟨byte, inner, rfl, solid, opens⟩
  cases remains with
  | starts blank behind =>
      exact ⟨_, separates.starts.mpr ⟨byte, token_append blank solid _, opens⟩, behind⟩
  | continues blank blankBefore behind =>
      exact ⟨_, separates.continues.mpr ⟨_, byte, token_append blank rfl _,
        token_append blankBefore solid _, opens⟩, behind⟩

theorem Remains.no_other (separates : Separates another frame) {first : Bool}
    {bytes : List UInt8} (remains : Remains frame rest first [] bytes) :
    another first ⟨bytes, .complete⟩ = .ok (false, ⟨frame.closing :: rest, .complete⟩) := by
  cases remains with
  | closes blank => exact separates.ends.mpr (token_append blank frame.closing_solid _)

/-- A text that is a part of a frame, and what it does to the state of the loop. -/
structure PartMeans (frame : Frame) (part : State → Scan State) (effect : State → Option State)
    (text : List UInt8) : Prop where
  starts : StartsPart frame text
  read_eq_ok_iff : ∀ {state later : State} {more : List UInt8} {after : Source}, Stops more →
    (part state ⟨text ++ more, .complete⟩ = .ok (later, after) ↔
      effect state = some later ∧ after = ⟨more, .complete⟩)

/-- What a loop over the parts of a frame makes of the texts of the parts. -/
theorem take_parts_eq_ok_iff (separates : Separates another frame)
    (progresses : Progresses (partTurn another part)) {effects : List (State → Option State)}
    {texts : List (List UInt8)} (means : List.Forall₂ (PartMeans frame part) effects texts)
    {first : Bool} {bytes : List UInt8} (remains : Remains frame rest first texts bytes)
    {state later : State} {after : Source} :
    (∃ flag, takeTurns (partTurn another part) (first, state) ⟨bytes, .complete⟩ =
        .ok ((flag, later), after)) ↔
      effects.foldlM (fun state effect => effect state) state = some later ∧
        after = ⟨frame.closing :: rest, .complete⟩ := by
  simp only [take_turns_eq_ok_iff progresses]
  induction means generalizing first bytes state with
  | nil =>
      have asked := remains.no_other separates
      constructor
      · rintro ⟨flag, last, run, ended⟩
        rcases ReflTransGen.cases_head run with same | ⟨second, took, -⟩
        · cases same
          have closed := asked.symm.trans (part_turn_eq_none_iff.mp ended)
          cases closed
          exact ⟨rfl, rfl⟩
        · rcases part_turn_eq_some_iff.mp took with ⟨middle, more, -⟩
          cases asked.symm.trans more
      · rintro ⟨same, rfl⟩
        cases same
        exact ⟨first, ⟨bytes, .complete⟩, .refl, part_turn_eq_none_iff.mpr asked⟩
  | @cons effect text effects texts head _ induction =>
      rcases remains.goes_on separates head.starts with ⟨behind, asked, remains⟩
      rw [List.foldlM_cons, Option.bind_eq_bind, Option.bind_eq_some_iff]
      constructor
      · rintro ⟨flag, last, run, ended⟩
        rcases ReflTransGen.cases_head run with same | ⟨second, took, run⟩
        · cases same
          cases asked.symm.trans (part_turn_eq_none_iff.mp ended)
        · rcases second with ⟨⟨_, middle⟩, source⟩
          rcases part_turn_eq_some_iff.mp took with ⟨_, more, read, rfl⟩
          cases asked.symm.trans more
          rcases (head.read_eq_ok_iff remains.stops).mp read with ⟨changed, rfl⟩
          rcases (induction remains).mp ⟨flag, last, run, ended⟩ with ⟨others, rfl⟩
          exact ⟨⟨middle, changed, others⟩, rfl⟩
      · rintro ⟨⟨middle, changed, others⟩, rfl⟩
        rcases (induction remains).mpr ⟨others, rfl⟩ with ⟨flag, last, run, ended⟩
        have read := (head.read_eq_ok_iff remains.stops).mpr ⟨changed, rfl⟩
        have took : Again (partTurn another part) ((first, state), ⟨bytes, .complete⟩)
            ((false, middle), ⟨behind, .complete⟩) :=
          part_turn_eq_some_iff.mpr ⟨_, asked, read, rfl⟩
        exact ⟨flag, last, .head took run, ended⟩

theorem finish_eq_ok_iff (separates : Separates another frame)
    (progresses : Progresses (partTurn another part)) {effects : List (State → Option State)}
    {texts : List (List UInt8)} (means : List.Forall₂ (PartMeans frame part) effects texts)
    {bytes : List UInt8} (remains : Remains frame rest true texts bytes) {state : State}
    {finish : State → Scan Value} {result : Value × Source} :
    (takeTurns (partTurn another part) (true, state) >>= fun last => finish last.2)
        ⟨bytes, .complete⟩ = .ok result ↔
      ∃ last, effects.foldlM (fun state effect => effect state) state = some last ∧
        finish last ⟨frame.closing :: rest, .complete⟩ = .ok result := by
  rw [bind_eq_ok_iff]
  constructor
  · rintro ⟨⟨flag, last⟩, middle, turned, finished⟩
    rcases (take_parts_eq_ok_iff separates progresses means remains).mp ⟨flag, turned⟩ with
      ⟨folded, rfl⟩
    exact ⟨last, folded, finished⟩
  · rintro ⟨last, folded, finished⟩
    rcases (take_parts_eq_ok_iff separates progresses means remains).mpr ⟨folded, rfl⟩ with
      ⟨flag, turned⟩
    exact ⟨(flag, last), _, turned, finished⟩

end

section

variable {reader : Scan Value}

theorem push_element_means (value : ReadsValue reader) {item : List UInt8} (json : Json item) :
    PartMeans .array (pushElement reader)
      (fun reversed => (meaning reader item).map fun found => found :: reversed) item where
  starts := starts_part_array json
  read_eq_ok_iff {reversed later more after} stops := by
    rw [pushElement, bind_eq_ok_iff]
    simp only [(spans_of_json value json).read_eq_ok_iff stops, Option.map_eq_some_iff]
    constructor
    · rintro ⟨found, _, ⟨known, rfl⟩, done⟩
      rcases pure_eq_ok_iff.mp done with ⟨rfl, rfl⟩
      exact ⟨⟨found, known, rfl⟩, rfl⟩
    · rintro ⟨⟨found, known, rfl⟩, rfl⟩
      exact ⟨found, _, ⟨known, rfl⟩, rfl⟩

theorem foldl_m_push (texts : List (List UInt8)) (reversed : List Value) :
    (texts.map fun item reversed => (meaning reader item).map fun found => found :: reversed).foldlM
        (fun state effect => effect state) reversed =
      (texts.mapM (meaning reader)).map fun values => values.reverse ++ reversed := by
  induction texts generalizing reversed with
  | nil => rfl
  | cons item texts induction =>
      rw [List.map_cons, List.foldlM_cons, List.mapM_cons]
      cases meaning reader item with
      | none => rfl
      | some found =>
          simp only [Option.map_some, Option.bind_eq_bind, Option.bind_some, induction]
          cases texts.mapM (meaning reader) with
          | none => rfl
          | some values => simp

theorem meaning_list_field (value : ReadsValue reader) {items : List (List UInt8)}
    {text : List UInt8} (isArray : IsArray items text) :
    meaning (listField reader) text = items.mapM (meaning reader) := by
  have means : List.Forall₂ (PartMeans .array (pushElement reader))
      (items.map fun item reversed => (meaning reader item).map fun found => found :: reversed)
      items := by
    rw [List.forall₂_map_left_iff, List.forall₂_same]
    intro item isItem
    exact push_element_means value (isArray.json item isItem)
  rcases @remains_of_enclosed [comma] .array items text isArray.written with ⟨inside, same, remains⟩
  have same : text ++ [comma] = openBracket :: inside := same
  have progresses :=
    part_turn_progresses another_element_local (push_element_reads value.reads.to_byte)
  apply Option.ext
  intro values
  rw [meaning_eq_some_iff, same, listField, bind_of_ok (token_cons rfl), if_pos rfl, array,
    bind_of_ok skip_cons,
    budgeted_eq_take_turns fun rounds => elements_eq_turns reader rounds true []]
  have closed : ∀ reversed : List Value, (expect closeBracket >>= fun _ => pure reversed.reverse)
      ⟨closeBracket :: [comma], .complete⟩ = .ok (reversed.reverse, ⟨[comma], .complete⟩) :=
    fun reversed => bind_of_ok (expect_cons rfl)
  have taken := fun after => @finish_eq_ok_iff _ _ .array _ _ _ another_element_separates progresses
    _ _ means inside remains []
    (fun reversed => expect closeBracket >>= fun _ => pure reversed.reverse) (values, after)
  simp only [foldl_m_push, Option.map_eq_some_iff] at taken
  constructor
  · rintro ⟨after, read⟩
    rcases (taken after).mp read with ⟨_, ⟨found, known, rfl⟩, finished⟩
    cases (closed _).symm.trans finished
    simpa using known
  · intro known
    refine ⟨_, (taken ⟨[comma], .complete⟩).mpr ⟨_, ⟨values, known, rfl⟩, (closed _).trans ?_⟩⟩
    simp

end

end SymmetricTrees.Description
