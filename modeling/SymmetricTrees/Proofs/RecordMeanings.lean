import SymmetricTrees.Proofs.TextMeanings

/-!
What a record is by its members, or by its values in order. The reader of a
record makes of an object what its members make of a blank draft one by one, and
of an array what its items do.
-/

set_option autoImplicit false

namespace SymmetricTrees.Description

open Scan

variable {Value Draft : Type}

def spelled (key : List UInt8) : Option String := meaning text key

namespace Shape

def find? (shape : Shape Draft Value) (name : String) : Option (Field Draft) :=
  shape.fields.find? fun field => field.name == name

/-- What a draft becomes by a value under a name. -/
def absorbAs (shape : Shape Draft Value) (draft : Draft) (name : String) (value : List UInt8) :
    Option Draft :=
  match shape.find? name with
  | none => some draft
  | some field =>
      if field.isPresent draft then none
      else meaning (field.read draft) value

def absorb (shape : Shape Draft Value) (draft : Draft) (member : Member) : Option Draft := do
  let name ← spelled member.key
  shape.absorbAs draft name member.value

/-- The record that a draft stands for when no other member follows. -/
def result (shape : Shape Draft Value) (draft : Draft) : Option Value :=
  match shape.missing? draft with
  | some _ => none
  | none => shape.build? draft

def fill : List (Field Draft) → Draft → List (List UInt8) → Option Draft
  | _, draft, [] => some draft
  | [], _, _ :: _ => none
  | field :: fields, draft, item :: items => do
      let larger ← meaning (field.read draft) item
      fill fields larger items

def ofMembers (shape : Shape Draft Value) (members : List Member) : Option Value :=
  (members.foldlM shape.absorb shape.blank).bind shape.result

def ofItems (shape : Shape Draft Value) (items : List (List UInt8)) : Option Value :=
  (fill shape.fields shape.blank items).bind shape.build?

end Shape

namespace Shape

variable {shape : Shape Draft Value}

/-- A value under a known name changes the draft, under another one it is passed. -/
theorem member_eq_ok_iff (fields : shape.FieldsReadValues) {value more : List UInt8}
    (json : Json value) (stops : Stops more) {draft larger : Draft} {source between after : Source}
    {name : String} (named : text source = .ok (name, between)) {blanks behind : List UInt8}
    (blank : Blank blanks) (blank' : Blank behind)
    (same : between = ⟨blanks ++ colon :: (behind ++ (value ++ more)), .complete⟩) :
    shape.member draft source = .ok (larger, after) ↔
      shape.absorbAs draft name value = some larger ∧ after = ⟨more, .complete⟩ := by
  subst same
  have colonRead := @expect_append (behind ++ (value ++ more)) .complete blanks colon blank rfl
  rw [member, bind_of_ok named, absorbAs, find?]
  cases found : shape.fields.find? fun field => field.name == name with
  | none =>
      have passes := (passes_blanks blank').mpr (@Json.passes more .complete value json stops)
      simp only [bind_of_ok colonRead, bind_of_ok (passes_iff_skip_value.mp passes), pure_eq_ok_iff,
        Option.some.injEq, @eq_comm _ draft]
  | some field =>
      have readsValue := fields field (List.mem_of_find?_eq_some found) draft
      by_cases present : field.isPresent draft = true
      · simp only [present, if_true, reduceCtorEq, false_and, iff_false]
        intro read
        cases read
      · simp only [present, if_false, bind_of_ok colonRead, readsValue.blanks blank',
          (spans_of_json readsValue json).read_eq_ok_iff stops, Bool.false_eq_true]

theorem member_means (fields : shape.FieldsReadValues) {member : Member} {part : List UInt8}
    (written : MemberText member part) (quoted : Quoted member.key) (json : Json member.value) :
    PartMeans .object shape.member (fun draft => shape.absorb draft member) part where
  starts := starts_part_object written quoted
  read_eq_ok_iff {draft larger more after} stops := by
    cases written with
    | @intro before behind blank blank' =>
        have colonStops : Stops (before ++ colon :: (behind ++ (member.value ++ more))) :=
          blank_stops blank (stops_of_not_goes_on rfl)
        have keyRead := fun name after => @Spans.read_eq_ok_iff _ text _ _ name after
          (text_spans quoted) colonStops
        simp only [List.append_assoc, List.cons_append]
        rw [absorb, Option.bind_eq_bind]
        cases known : spelled member.key with
        | none =>
            simp only [Option.bind_none, reduceCtorEq, false_and, iff_false]
            intro read
            rcases bind_eq_ok_iff.mp read with ⟨name, between, named, -⟩
            cases known.symm.trans ((keyRead name between).mp named).1
        | some name =>
            exact member_eq_ok_iff fields json stops ((keyRead name _).mpr ⟨known, rfl⟩) blank
              blank' rfl

theorem built_eq_ok_iff {draft : Draft} {source after : Source} {value : Value} :
    shape.built draft source = .ok (value, after) ↔
      shape.build? draft = some value ∧ after = source := by
  rw [built]
  cases shape.build? draft with
  | none =>
      simp only [reduceCtorEq, false_and, iff_false]
      intro read
      cases read
  | some found => rw [pure_eq_ok_iff, Option.some.injEq, @eq_comm _ found]

theorem built_closed_eq_ok_iff {closing : UInt8} {draft : Draft} {source after : Source}
    {value : Value} :
    (shape.built draft >>= fun value => expect closing >>= fun _ => pure value) source =
        .ok (value, after) ↔
      shape.build? draft = some value ∧ expect closing source = .ok ((), after) := by
  rw [bind_eq_ok_iff]
  simp only [built_eq_ok_iff]
  constructor
  · rintro ⟨found, _, ⟨known, rfl⟩, finished⟩
    rcases bind_eq_ok_iff.mp finished with ⟨⟨⟩, _, closed, done⟩
    rcases pure_eq_ok_iff.mp done with ⟨rfl, rfl⟩
    exact ⟨known, closed⟩
  · rintro ⟨known, closed⟩
    exact ⟨value, _, ⟨known, rfl⟩, (bind_of_ok closed).trans rfl⟩

/-- An object is what its members make of a blank draft one by one. -/
theorem meaning_object (fields : shape.FieldsReadValues) {members : List Member}
    {text : List UInt8} (isObject : IsObject members text) :
    meaning shape.read text = shape.ofMembers members := by
  rcases isObject with ⟨⟨parts, written, enclosed⟩, quoted, json⟩
  have means : List.Forall₂ (PartMeans .object shape.member)
      (members.map fun member draft => shape.absorb draft member) parts := by
    rw [List.forall₂_map_left_iff]
    have each := (List.forall₂_and_left _ _).mpr
      ⟨fun member isMember => And.intro (quoted member isMember) (json member isMember), written⟩
    exact each.imp fun _ _ known => member_means fields known.2 known.1.1 known.1.2
  rcases @remains_of_enclosed [comma] .object parts text enclosed with ⟨inside, same, remains⟩
  have same : text ++ [comma] = openBrace :: inside := same
  have progresses :=
    part_turn_progresses another_member_local (member_reads (legible_of_fields fields))
  have taken := fun draft middle => @finish_eq_ok_iff _ _ .object _ _ _ another_member_separates
    progresses _ _ means inside remains shape.blank pure (draft, middle)
  simp only [List.foldlM_map, pure_eq_ok_iff] at taken
  apply Option.ext
  intro value
  rw [meaning_eq_some_iff, same, read, bind_of_ok (token_cons rfl), if_pos rfl,
    bind_of_ok skip_cons,
    budgeted_eq_take_turns fun rounds => members_eq_turns rounds true shape.blank]
  rw [ofMembers, Option.bind_eq_some_iff]
  constructor
  · rintro ⟨after, read⟩
    rcases bind_eq_ok_iff.mp read with ⟨draft, middle, turned, read⟩
    rcases (taken draft middle).mp turned with ⟨_, folded, rfl, rfl⟩
    refine ⟨draft, folded, ?_⟩
    rw [result]
    cases absent : shape.missing? draft with
    | some field =>
        rw [absent] at read
        cases read
    | none =>
        rw [absent] at read
        exact (built_closed_eq_ok_iff.mp read).1
  · rintro ⟨draft, folded, made⟩
    have turned := (taken draft _).mpr ⟨draft, folded, rfl, rfl⟩
    rw [result] at made
    cases absent : shape.missing? draft with
    | some field =>
        rw [absent] at made
        cases made
    | none =>
        rw [absent] at made
        refine ⟨⟨[comma], .complete⟩, (bind_of_ok turned).trans ?_⟩
        rw [absent]
        exact built_closed_eq_ok_iff.mpr ⟨made, expect_cons rfl⟩

theorem positions_closed_iff {fields : List (Field Draft)}
    (values : ∀ field ∈ fields, ∀ draft, ReadsValue (field.read draft)) {first : Bool}
    {items : List (List UInt8)} (json : ∀ item ∈ items, Json item) {rest bytes : List UInt8}
    (remains : Remains .array rest first items bytes) {draft larger : Draft} :
    (∃ last after, positions first fields draft ⟨bytes, .complete⟩ = .ok (larger, last) ∧
        token last = .ok (closeBracket, after)) ↔
      fill fields draft items = some larger := by
  induction fields generalizing first items bytes draft with
  | nil =>
      cases items with
      | nil =>
          have asked := remains.no_other another_element_separates
          have closes := another_element_separates.ends.mp asked
          constructor
          · rintro ⟨last, _, read, -⟩
            rw [(pure_eq_ok_iff.mp read).1]
            rfl
          · intro same
            cases same
            exact ⟨_, _, rfl, closes⟩
      | cons item items =>
          have starts := starts_part_array (json item (List.mem_cons_self ..))
          rcases remains.goes_on another_element_separates starts with ⟨behind, asked, -⟩
          constructor
          · rintro ⟨last, after, read, closes⟩
            rw [(pure_eq_ok_iff.mp read).2] at closes
            cases asked.symm.trans (another_element_separates.ends.mpr closes)
          · intro filled
            cases filled
  | cons field fields induction =>
      rcases List.forall_mem_cons.mp values with ⟨value, others⟩
      cases items with
      | nil =>
          have asked := remains.no_other another_element_separates
          rw [positions, bind_of_ok asked]
          constructor
          · rintro ⟨last, _, read, -⟩
            rw [(pure_eq_ok_iff.mp read).1]
            rfl
          · intro same
            cases same
            exact ⟨_, _, rfl, token_cons rfl⟩
      | cons item items =>
          rcases List.forall_mem_cons.mp json with ⟨itemJson, othersJson⟩
          have starts := starts_part_array itemJson
          rcases remains.goes_on another_element_separates starts with ⟨behind, asked, remains⟩
          have itemRead := fun larger after => @Spans.read_eq_ok_iff _ _ _ _ larger after
            (spans_of_json (value draft) itemJson) remains.stops
          rw [positions, bind_of_ok asked, if_pos rfl, fill, Option.bind_eq_bind,
            Option.bind_eq_some_iff]
          constructor
          · rintro ⟨last, after, read, closes⟩
            rcases bind_eq_ok_iff.mp read with ⟨middle, _, read, othersRead⟩
            rcases (itemRead middle _).mp read with ⟨known, rfl⟩
            exact ⟨middle, known, (induction others othersJson remains).mp
              ⟨last, after, othersRead, closes⟩⟩
          · rintro ⟨middle, known, filled⟩
            rcases (induction others othersJson remains).mpr filled with
              ⟨last, after, othersRead, closes⟩
            have read := (itemRead middle _).mpr ⟨known, rfl⟩
            exact ⟨last, after, (bind_of_ok read).trans othersRead, closes⟩

/-- An array is what its items make of a blank draft in the order of the fields. -/
theorem meaning_array (fields : shape.FieldsReadValues) {items : List (List UInt8)}
    {text : List UInt8} (isArray : IsArray items text) :
    meaning shape.read text = shape.ofItems items := by
  rcases @remains_of_enclosed [comma] .array items text isArray.written with ⟨inside, same, remains⟩
  have same : text ++ [comma] = openBracket :: inside := same
  have notBrace : openBracket ≠ openBrace := by decide
  have taken := fun draft => @positions_closed_iff _ _ fields true items isArray.json [comma] inside
    remains shape.blank draft
  apply Option.ext
  intro value
  rw [meaning_eq_some_iff, same, read, bind_of_ok (token_cons rfl), if_neg notBrace, if_pos rfl,
    bind_of_ok skip_cons, ofItems, Option.bind_eq_some_iff]
  constructor
  · rintro ⟨after, read⟩
    rcases bind_eq_ok_iff.mp read with ⟨draft, last, positionsRead, read⟩
    rcases built_closed_eq_ok_iff.mp read with ⟨made, closed⟩
    rcases expect_eq_ok_iff.mp closed with ⟨_, closes, -⟩
    exact ⟨draft, (taken draft).mp ⟨last, _, positionsRead, closes⟩, made⟩
  · rintro ⟨draft, filled, made⟩
    rcases (taken draft).mpr filled with ⟨last, _, positionsRead, closes⟩
    rcases token_eq_ok_iff.mp closes with ⟨_, _, _, _, _, rfl⟩
    have closed := expect_eq_ok_iff.mpr ⟨_, closes, rfl⟩
    exact ⟨_, (bind_of_ok positionsRead).trans (built_closed_eq_ok_iff.mpr ⟨made, closed⟩)⟩

end Shape

end SymmetricTrees.Description
