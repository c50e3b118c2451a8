import SymmetricTrees.Proofs.OrderlyShapes
import SymmetricTrees.Proofs.PassedTexts
import SymmetricTrees.Proofs.WholeDescriptions

/-!
Descriptions that differ only in what their records do not tell apart: the order
of members, members with unknown names, nulls for absent fields, and blanks. The
edits are relations between texts and know of the schema only the names of the
fields and where the records are; every record reads edited texts alike, and a
text in which a record has a field twice is refused.
-/

set_option autoImplicit false

namespace SymmetricTrees.Description

open Scan

variable {Value Draft : Type}

/-- What the schema knows of a value: where the records are, by the names of their
fields, and which values may be null for absent. -/
inductive Form where
  | plain
  | nullable
  | list (item : Form)
  | record (fields : List (String × Form))

/-- A text is edited once, in one of the records of a value. -/
inductive Edit : Form → List UInt8 → List UInt8 → Prop
  | item {form : Form} {front back : List (List UInt8)} {value other text edited : List UInt8} :
      Edit form value other → IsArray (front ++ value :: back) text →
      IsArray (front ++ other :: back) edited → Edit (.list form) text edited
  /-- Members change places. -/
  | order {fields : List (String × Form)} {members permuted : List Member}
      {text edited : List UInt8} :
      members.Perm permuted → IsObject members text → IsObject permuted edited →
      Edit (.record fields) text edited
  /-- A member with an unknown name is inserted. -/
  | unknown {fields : List (String × Form)} {front back : List Member} {member : Member}
      {name : String} {text edited : List UInt8} :
      spelled member.key = some name → fields.lookup name = none →
      IsObject (front ++ back) text → IsObject (front ++ member :: back) edited →
      Edit (.record fields) text edited
  /-- An absent field is written as null. -/
  | null {fields : List (String × Form)} {front back : List Member} {key : List UInt8}
      {name : String} {text edited : List UInt8} :
      spelled key = some name → fields.lookup name = some .nullable →
      (∀ member ∈ front ++ back, spelled member.key ≠ some name) →
      IsObject (front ++ back) text → IsObject (front ++ ⟨key, nullText⟩ :: back) edited →
      Edit (.record fields) text edited
  | value {fields : List (String × Form)} {front back : List Member} {key : List UInt8}
      {name : String} {form : Form} {value other text edited : List UInt8} :
      spelled key = some name → fields.lookup name = some form → Edit form value other →
      IsObject (front ++ ⟨key, value⟩ :: back) text →
      IsObject (front ++ ⟨key, other⟩ :: back) edited → Edit (.record fields) text edited
  | position {fields : List (String × Form)} {front back : List (List UInt8)} {name : String}
      {form : Form} {value other text edited : List UInt8} :
      fields[front.length]? = some (name, form) → Edit form value other →
      IsArray (front ++ value :: back) text → IsArray (front ++ other :: back) edited →
      Edit (.record fields) text edited
  /-- An absent field behind the last value of an array is written as null. -/
  | behind {fields : List (String × Form)} {items : List (List UInt8)} {name : String}
      {text edited : List UInt8} :
      fields[items.length]? = some (name, .nullable) → IsArray items text →
      IsArray (items ++ [nullText]) edited → Edit (.record fields) text edited

/-- A text in which one of the records of a value has a known field twice. -/
inductive Repeats : Form → List UInt8 → Prop
  | item {form : Form} {items : List (List UInt8)} {value text : List UInt8} :
      value ∈ items → Repeats form value → IsArray items text → Repeats (.list form) text
  | twice {fields : List (String × Form)} {front middle back : List Member}
      {first second : Member} {name : String} {form : Form} {text : List UInt8} :
      fields.lookup name = some form → spelled first.key = some name →
      spelled second.key = some name →
      IsObject (front ++ first :: (middle ++ second :: back)) text → Repeats (.record fields) text
  | value {fields : List (String × Form)} {members : List Member} {member : Member}
      {name : String} {form : Form} {text : List UInt8} :
      member ∈ members → spelled member.key = some name → fields.lookup name = some form →
      Repeats form member.value → IsObject members text → Repeats (.record fields) text
  | position {fields : List (String × Form)} {front back : List (List UInt8)} {name : String}
      {form : Form} {value text : List UInt8} :
      fields[front.length]? = some (name, form) → Repeats form value →
      IsArray (front ++ value :: back) text → Repeats (.record fields) text

/-- A reader that makes the same of edited texts, and nothing of repeated fields. -/
structure Follows (form : Form) (reader : Scan Value) : Prop where
  edit : ∀ {text edited : List UInt8}, Edit form text edited →
    meaning reader text = meaning reader edited
  repeats : ∀ {text : List UInt8}, Repeats form text → meaning reader text = none

theorem follows_plain {reader : Scan Value} : Follows .plain reader where
  edit edit := by cases edit
  repeats repeats := by cases repeats

theorem follows_nullable {reader : Scan Value} : Follows .nullable reader where
  edit edit := by cases edit
  repeats repeats := by cases repeats

theorem map_m_eq_none_of_mem {reader : Scan Value} {items : List (List UInt8)} {item : List UInt8}
    (isItem : item ∈ items) (refused : meaning reader item = none) :
    items.mapM (meaning reader) = none := by
  induction items with
  | nil => cases isItem
  | cons first items induction =>
      rw [List.mapM_cons]
      rcases List.mem_cons.mp isItem with rfl | isItem
      · simp [refused]
      · simp [induction isItem]

theorem follows_list {form : Form} {reader : Scan Value} (value : ReadsValue reader)
    (follows : Follows form reader) : Follows (.list form) (listField reader) where
  edit edit := by
    cases edit with
    | item edit isArray isEdited =>
        rw [meaning_list_field value isArray, meaning_list_field value isEdited]
        simp only [List.mapM_append, List.mapM_cons, follows.edit edit]
  repeats repeats := by
    cases repeats with
    | item isItem repeats isArray =>
        rw [meaning_list_field value isArray]
        exact map_m_eq_none_of_mem isItem (follows.repeats repeats)

structure FieldFollows (shape : Shape Draft Value) (known : String × Form) (field : Field Draft) :
    Prop where
  name : field.name = known.1
  follows : ∀ draft, Follows known.2 (field.read draft)
  neutral : known.2 = .nullable → shape.Neutral field

section

variable {shape : Shape Draft Value} {fields : List (String × Form)} {inner : List (Field Draft)}

theorem find?_of_lookup (each : List.Forall₂ (FieldFollows shape) fields inner) (name : String) :
    (fields.lookup name = none → (inner.find? fun field => field.name == name) = none) ∧
      ∀ form, fields.lookup name = some form →
        ∃ field, (inner.find? fun field => field.name == name) = some field ∧
          FieldFollows shape (name, form) field := by
  induction each with
  | nil => simp
  | @cons known field fields inner head _ induction =>
      rcases known with ⟨knownName, knownForm⟩
      have named : field.name = knownName := head.name
      rw [List.lookup_cons, List.find?_cons, named]
      by_cases same : knownName = name
      · subst same
        simp [head]
      · have different : (name == knownName) = false := by
          rw [beq_eq_false_iff_ne]
          exact Ne.symm same
        have notSame : (knownName == name) = false := beq_eq_false_iff_ne.mpr same
        simp only [different, notSame]
        exact induction

theorem field_of_position (each : List.Forall₂ (FieldFollows shape) fields inner) {index : Nat}
    {name : String} {form : Form} (known : fields[index]? = some (name, form)) :
    ∃ field, inner[index]? = some field ∧ FieldFollows shape (name, form) field := by
  induction each generalizing index with
  | nil => cases known
  | @cons _ field _ _ head _ induction =>
      cases index with
      | zero =>
          cases known
          exact ⟨field, rfl, head⟩
      | succ index => exact induction known

/-- A record of known fields follows its form. -/
theorem follows_record (values : shape.FieldsReadValues) (orderly : shape.Orderly)
    (each : List.Forall₂ (FieldFollows shape) fields shape.fields) :
    Follows (.record fields) shape.read where
  edit {text edited} edit := by
    cases edit with
    | order perm isObject isEdited =>
        rw [Shape.meaning_object values isObject, Shape.meaning_object values isEdited]
        exact orderly.of_members_perm perm
    | unknown named unknown isObject isEdited =>
        rw [Shape.meaning_object values isObject, Shape.meaning_object values isEdited]
        exact (orderly.of_members_unknown named ((find?_of_lookup each _).1 unknown) _ _).symm
    | null named known others isObject isEdited =>
        rcases (find?_of_lookup each _).2 _ known with ⟨field, found, follows⟩
        rw [Shape.meaning_object values isObject, Shape.meaning_object values isEdited]
        exact (orderly.of_members_null named found (follows.neutral rfl) others).symm
    | value named known edit isObject isEdited =>
        rcases (find?_of_lookup each _).2 _ known with ⟨field, found, follows⟩
        rw [Shape.meaning_object values isObject, Shape.meaning_object values isEdited]
        exact Shape.of_members_congr named found
          (fun draft => (follows.follows draft).edit edit) _ _
    | position known edit isArray isEdited =>
        rcases field_of_position each known with ⟨field, isField, follows⟩
        rw [Shape.meaning_array values isArray, Shape.meaning_array values isEdited, Shape.ofItems,
          Shape.ofItems,
          Shape.fill_congr isField (fun draft => (follows.follows draft).edit edit)]
    | behind known isArray isEdited =>
        rcases field_of_position each known with ⟨field, isField, follows⟩
        have absent := orderly.blank field (List.mem_of_getElem? isField)
        rw [Shape.meaning_array values isArray, Shape.meaning_array values isEdited]
        exact (Shape.fill_null (follows.neutral rfl) orderly.apart isField absent).symm
  repeats {text} repeats := by
    cases repeats with
    | twice known named again isObject =>
        rcases (find?_of_lookup each _).2 _ known with ⟨field, found, -⟩
        rw [Shape.meaning_object values isObject]
        exact orderly.of_members_repeats named again found
    | value isMember named known repeats isObject =>
        rcases (find?_of_lookup each _).2 _ known with ⟨field, found, follows⟩
        rw [Shape.meaning_object values isObject]
        exact Shape.of_members_eq_none isMember named found fun draft =>
          (follows.follows draft).repeats repeats
    | position known repeats isArray =>
        rcases field_of_position each known with ⟨field, isField, follows⟩
        have refused := fun draft => (follows.follows draft).repeats repeats
        rw [Shape.meaning_array values isArray, Shape.ofItems, Shape.fill_eq_none isField refused,
          Option.bind_none]

end

theorem slot_follows {name : String} {required : Bool} {get : Draft → Option Value}
    {set : Draft → Value → Draft} {value : Scan Value} {form : Form} (follows : Follows form value)
    (draft : Draft) : Follows form ((Field.slot name required get set value).read draft) where
  edit edit := by rw [meaning_slot, meaning_slot, follows.edit edit]
  repeats repeats := by rw [meaning_slot, follows.repeats repeats, Option.map_none]

def featureForm : Form :=
  .record [("feature_index", .nullable), ("flat_feature_index", .nullable), ("borders", .plain),
    ("has_nans", .plain), ("nan_value_treatment", .nullable)]

def catalogForm : Form := .record [("float_features", .list featureForm)]

def splitForm : Form :=
  .record [("border", .plain), ("float_feature_index", .nullable), ("split_index", .nullable),
    ("split_type", .nullable)]

def treeForm : Form := .record [("splits", .list splitForm), ("leaf_values", .plain)]

def modelForm : Form :=
  .record [("features_info", catalogForm), ("oblivious_trees", .list treeForm),
    ("scale_and_bias", .nullable)]

section

variable {shape : Shape Draft Value} {Kept : Type} {name : String} {required : Bool}
  {get : Draft → Option Kept} {set : Draft → Kept → Draft} {value : Scan Kept}

theorem slot_known {form : Form} (notNull : form ≠ .nullable) (follows : Follows form value) :
    FieldFollows shape (name, form) (.slot name required get set value) where
  name := rfl
  follows := slot_follows follows
  neutral isNull := absurd isNull notNull

theorem slot_plain : FieldFollows shape (name, .plain) (.slot name required get set value) :=
  slot_known (by simp) follows_plain

theorem slot_nullable {nothing : Kept} (null : meaning value nullText = some nothing)
    (shows : ∀ draft, get draft = none → shape.missing? (set draft nothing) = shape.missing? draft ∧
      shape.build? (set draft nothing) = shape.build? draft) :
    FieldFollows shape (name, .nullable) (.slot name required get set value) where
  name := rfl
  follows := slot_follows follows_nullable
  neutral _ := slot_neutral null shows

end

theorem feature_shape_follows : Follows featureForm featureShape.read := by
  apply follows_record feature_shape_fields feature_shape_orderly
  apply List.Forall₂.cons
  · exact slot_nullable (meaning_optional_field_null _) fun draft absent =>
      ⟨rfl, by simp [featureShape, absent]⟩
  apply List.Forall₂.cons
  · exact slot_nullable (meaning_optional_field_null _) fun draft absent =>
      ⟨rfl, by simp [featureShape, absent]⟩
  apply List.Forall₂.cons slot_plain
  apply List.Forall₂.cons slot_plain
  apply List.Forall₂.cons
  · exact slot_nullable (meaning_optional_field_null _) fun draft absent =>
      ⟨rfl, by simp [featureShape, absent]⟩
  exact .nil

theorem catalog_shape_follows : Follows catalogForm catalogShape.read := by
  have features := follows_list (Shape.read_reads_value feature_shape_fields) feature_shape_follows
  exact follows_record catalog_shape_fields catalog_shape_orderly
    (.cons (slot_known (by simp) features) .nil)

theorem split_shape_follows : Follows splitForm splitShape.read := by
  apply follows_record split_shape_fields split_shape_orderly
  apply List.Forall₂.cons slot_plain
  apply List.Forall₂.cons
  · exact slot_nullable (meaning_optional_field_null _) fun draft absent =>
      ⟨rfl, by simp [splitShape, absent]⟩
  apply List.Forall₂.cons
  · exact slot_nullable (meaning_optional_field_null _) fun draft absent =>
      ⟨rfl, by simp [splitShape, absent]⟩
  apply List.Forall₂.cons
  · exact slot_nullable (meaning_optional_field_null _) fun draft absent =>
      ⟨rfl, by simp [splitShape, absent]⟩
  exact .nil

theorem tree_shape_follows : Follows treeForm treeShape.read := by
  have splits := follows_list (Shape.read_reads_value split_shape_fields) split_shape_follows
  exact follows_record tree_shape_fields tree_shape_orderly
    (.cons (slot_known (by simp) splits) (.cons slot_plain .nil))

theorem model_shape_follows : Follows modelForm modelShape.read := by
  have trees := follows_list (Shape.read_reads_value tree_shape_fields) tree_shape_follows
  apply follows_record model_shape_fields model_shape_orderly
  apply List.Forall₂.cons
  · exact slot_known (by simp [catalogForm]) catalog_shape_follows
  apply List.Forall₂.cons
  · exact slot_known (by simp) trees
  apply List.Forall₂.cons
  · exact slot_nullable meaning_transform_field_null fun draft absent =>
      ⟨rfl, by simp [modelShape, absent]⟩
  exact .nil

/-- The record of a description is edited, and the blanks around it are any. -/
inductive DescriptionEdit : List UInt8 → List UInt8 → Prop
  | intro {record edited before behind newBefore newBehind : List UInt8} :
      Edit modelForm record edited → Blank before → Blank behind → Blank newBefore →
      Blank newBehind →
      DescriptionEdit (before ++ (record ++ behind)) (newBefore ++ (edited ++ newBehind))

inductive DescriptionRepeats : List UInt8 → Prop
  | intro {record before behind : List UInt8} :
      Repeats modelForm record → Blank before → Blank behind →
      DescriptionRepeats (before ++ (record ++ behind))

theorem Edit.json {fields : List (String × Form)} {text edited : List UInt8}
    (edit : Edit (.record fields) text edited) : Json text ∧ Json edited := by
  cases edit with
  | order _ isObject isEdited => exact ⟨isObject.to_json, isEdited.to_json⟩
  | unknown _ _ isObject isEdited => exact ⟨isObject.to_json, isEdited.to_json⟩
  | null _ _ _ isObject isEdited => exact ⟨isObject.to_json, isEdited.to_json⟩
  | value _ _ _ isObject isEdited => exact ⟨isObject.to_json, isEdited.to_json⟩
  | position _ _ isArray isEdited => exact ⟨isArray.to_json, isEdited.to_json⟩
  | behind _ isArray isEdited => exact ⟨isArray.to_json, isEdited.to_json⟩

theorem Repeats.json {fields : List (String × Form)} {text : List UInt8}
    (repeats : Repeats (.record fields) text) : Json text := by
  cases repeats with
  | twice _ _ _ isObject => exact isObject.to_json
  | value _ _ _ _ isObject => exact isObject.to_json
  | position _ _ isArray => exact isArray.to_json

/-- A description is what its record means. -/
theorem Model.read_eq_meaning {before record behind : List UInt8} (json : Json record)
    (blank : Blank before) (blank' : Blank behind) {model : Model} :
    Model.read ⟨before ++ (record ++ behind), .complete⟩ = .ok model ↔
      meaning modelShape.read record = some model := by
  have value := Shape.read_reads_value model_shape_fields
  have spans := spans_of_json value json
  constructor
  · intro accepted
    rcases Model.read_eq_ok_iff.mp accepted with ⟨whole, blanks, same, -, read⟩
    have read := read (blanks ++ [comma])
    rw [← List.append_assoc, ← same, List.append_assoc, List.append_assoc,
      value.blanks blank] at read
    exact ((spans.read_eq_ok_iff (blank_stops blank' comma_stops)).mp read).1
  · intro known
    have read := (spans.read_eq_ok_iff comma_stops).mpr ⟨known, rfl⟩
    rcases model_shape_read_local.takes read with ⟨taken, bytes, -, again⟩
    have same : record = taken := List.append_cancel_right bytes
    subst same
    refine Model.read_eq_ok_iff.mpr ⟨before ++ record, behind, ?_, blank', ?_⟩
    · rw [List.append_assoc]
    · intro other
      rw [List.append_assoc, value.blanks blank]
      exact again other trivial

theorem Shape.written_of_read {shape : Shape Draft Value} {text : List UInt8} {value : Value}
    (json : Json text) (known : meaning shape.read text = some value) :
    (∃ members, IsObject members text) ∨ ∃ items, IsArray items text := by
  apply json.of_opening
  rcases json.starts with ⟨byte, behind, rfl, start⟩
  simp only [startsValue, Bool.and_eq_true, Bool.not_eq_true'] at start
  rcases meaning_eq_some_iff.mp known with ⟨after, read⟩
  rw [List.cons_append, Shape.read, bind_of_ok (token_cons start.1.1)] at read
  by_cases isBrace : byte = openBrace
  · exact .inl (congrArg some isBrace)
  by_cases isBracket : byte = openBracket
  · exact .inr (congrArg some isBracket)
  · rw [if_neg isBrace, if_neg isBracket] at read
    exact absurd read mismatch_ne_ok

theorem Model.written_of_read {text : List UInt8} {model : Model}
    (accepted : Model.read ⟨text, .complete⟩ = .ok model) :
    ∃ before record behind, text = before ++ (record ++ behind) ∧ Blank before ∧ Blank behind ∧
      ((∃ members, IsObject members record) ∨ ∃ items, IsArray items record) := by
  rcases Model.read_eq_ok_iff.mp accepted with ⟨whole, behind, rfl, blank, read⟩
  rcases ((Shape.read_reads_value model_shape_fields).passes (read [comma])).json with
    ⟨before, record, same, blank', json⟩
  have same : whole = before ++ record := by
    rw [← List.append_assoc] at same
    exact List.append_cancel_right same
  subst same
  rw [List.append_assoc] at accepted ⊢
  exact ⟨before, record, behind, rfl, blank', blank,
    Shape.written_of_read json ((Model.read_eq_meaning json blank' blank).mp accepted)⟩

theorem Model.read_edit {text edited : List UInt8} (edit : DescriptionEdit text edited)
    {model : Model} :
    Model.read ⟨text, .complete⟩ = .ok model ↔ Model.read ⟨edited, .complete⟩ = .ok model := by
  cases edit with
  | intro edit before behind newBefore newBehind =>
      rw [Model.read_eq_meaning edit.json.1 before behind,
        Model.read_eq_meaning edit.json.2 newBefore newBehind, model_shape_follows.edit edit]

theorem Model.read_repeats {text : List UInt8} (repeats : DescriptionRepeats text) :
    ∃ fault, Model.read ⟨text, .complete⟩ = .error fault := by
  cases repeats with
  | intro repeats before behind =>
      cases read : Model.read ⟨_, .complete⟩ with
      | error fault => exact ⟨fault, rfl⟩
      | ok model =>
          have known := (Model.read_eq_meaning repeats.json before behind).mp read
          rw [model_shape_follows.repeats repeats] at known
          cases known

theorem Model.read_edits {text edited : List UInt8}
    (edits : Relation.EqvGen DescriptionEdit text edited) (model : Model) :
    Model.read ⟨text, .complete⟩ = .ok model ↔ Model.read ⟨edited, .complete⟩ = .ok model := by
  induction edits with
  | rel text edited edit => exact Model.read_edit edit
  | refl text => exact Iff.rfl
  | symm _ _ _ induction => exact induction.symm
  | trans _ _ _ _ _ first second => exact first.trans second

/-- Reading does not depend on the order of the members of a record, on members with
unknown names, on nulls for absent fields, or on blanks. An accepted text is a
well-formed object or array, so it has members or items to be edited; and no text
in which a record has a known field twice is accepted. -/
theorem accepted_up_to_edits {text : List UInt8} :
    (∀ model, Model.read ⟨text, .complete⟩ = .ok model →
      (∃ before record behind, text = before ++ (record ++ behind) ∧ Blank before ∧
        Blank behind ∧ ((∃ members, IsObject members record) ∨ ∃ items, IsArray items record)) ∧
      ∀ edited, Relation.EqvGen DescriptionEdit text edited →
        Model.read ⟨edited, .complete⟩ = .ok model) ∧
    (DescriptionRepeats text → ∃ fault, Model.read ⟨text, .complete⟩ = .error fault) := by
  constructor
  · intro model accepted
    constructor
    · exact Model.written_of_read accepted
    · intro edited edits
      exact (Model.read_edits edits model).mp accepted
  · intro repeats
    exact Model.read_repeats repeats

/-- The members change places, an unknown one between them holds a number out of
range and half a surrogate pair, and the absent transform is null. A known name may
come again in other letters. -/
theorem accepted_up_to_edits_three :
    let features : Member := ⟨"\"features_info\"".toUTF8.toList, "[[]]".toUTF8.toList⟩
    let trees : Member := ⟨"\"oblivious_trees\"".toUTF8.toList, "[]".toUTF8.toList⟩
    let other : Member := ⟨"\"x\"".toUTF8.toList, "[1e999,\"\\ud800\"]".toUTF8.toList⟩
    let transform : Member := ⟨"\"scale_and_bias\"".toUTF8.toList, nullText⟩
    let again : Member := ⟨"\"features_\\u0069nfo\"".toUTF8.toList, "[[]]".toUTF8.toList⟩
    let text := objectOf [features, trees]
    let edited := objectOf [trees, other, features, transform]
    (∃ model, Model.read ⟨text, .complete⟩ = .ok model ∧
      Model.read ⟨edited, .complete⟩ = .ok model) ∧
    ∃ fault, Model.read ⟨objectOf [features, trees, again], .complete⟩ = .error fault := by
  intro features trees other transform again text edited
  have quoted : ∀ member ∈ [features, trees, other, transform, again], Quoted member.key := by
    decide +kernel
  have json : ∀ member ∈ [features, trees, other, transform, again], Json member.value := by
    decide +kernel
  have isObject : ∀ members : List Member,
      members ⊆ [features, trees, other, transform, again] → IsObject members (objectOf members) :=
    fun members known => is_object_object_of (fun member isMember => quoted member (known isMember))
      fun member isMember => json member (known isMember)
  have edit : ∀ {record edited : List UInt8}, Edit modelForm record edited →
      DescriptionEdit record edited := by
    intro record edited edit
    have blank : Blank [] := List.forall_mem_nil _
    simpa using DescriptionEdit.intro edit blank blank blank blank
  have reordered : Edit modelForm text (objectOf [trees, features]) :=
    .order (List.Perm.swap _ _ []) (isObject _ (by simp)) (isObject _ (by simp))
  have inserted : Edit modelForm (objectOf [trees, features]) (objectOf [trees, other, features]) :=
    @Edit.unknown _ [trees] [features] other "x" _ _ (by decide +kernel) rfl (isObject _ (by simp))
      (isObject _ (by simp))
  have nulled : Edit modelForm (objectOf [trees, other, features]) edited :=
    @Edit.null _ [trees, other, features] [] transform.key "scale_and_bias" _ _ (by decide +kernel)
      rfl (by decide +kernel) (isObject _ (by simp)) (isObject _ (by simp [transform]))
  have edits : Relation.EqvGen DescriptionEdit text edited :=
    .trans _ _ _ (.rel _ _ (edit reordered)) (.trans _ _ _ (.rel _ _ (edit inserted))
      (.rel _ _ (edit nulled)))
  have repeats : Repeats modelForm (objectOf [features, trees, again]) :=
    @Repeats.twice _ [] [trees] [] features again "features_info" _ _ rfl (by decide +kernel)
      (by decide +kernel) (isObject _ (by simp))
  constructor
  · have isOk : (Model.read ⟨text, .complete⟩).isOk = true := by decide +kernel
    cases accepted : Model.read ⟨text, .complete⟩ with
    | error fault => simp [accepted, Except.isOk, Except.toBool] at isOk
    | ok model => exact ⟨model, rfl, ((@accepted_up_to_edits text).1 model accepted).2 edited edits⟩
  · apply accepted_up_to_edits.2
    have blank : Blank [] := List.forall_mem_nil _
    simpa using DescriptionRepeats.intro repeats blank blank

end SymmetricTrees.Description
