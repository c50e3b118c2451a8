import SymmetricTrees.Proofs.DescriptionEdits
import SymmetricTrees.Proofs.ModelScores
import SymmetricTrees.Proofs.Violations

/-!
The transform of a loaded model. A description may hold a value for it among the
members of its record, or behind the two other items of an array. The value alone
decides the scale and the bias, which reach the model as they are; a value that
decides nothing makes the description a bad text.
-/

set_option autoImplicit false

namespace SymmetricTrees

namespace Description

open Scan

namespace FreeValue

/-- A number, or a list of numbers that starts with the bias. -/
inductive IsBias : FreeValue → Float → Prop
  | number {bias : Number} : IsBias (.number bias) bias.toFloat
  | numbers {bias : Number} {more : List Number} :
      IsBias (.array ((bias :: more).map .number)) bias.toFloat

/-- The scale and the bias that a value stands for. An array that is no pair stands
for the neutral ones, whatever it holds. -/
inductive Decides : FreeValue → Float → Float → Prop
  | null : Decides .null 1.0 0.0
  | noPair {items : List FreeValue} : items.length ≠ 2 → Decides (.array items) 1.0 0.0
  | pair {scale : Number} {value : FreeValue} {bias : Float} : value.IsBias bias →
      Decides (.array [.number scale, value]) scale.toFloat bias

def number? : FreeValue → Option Float
  | .number value => some value.toFloat
  | _ => none

theorem number?_eq_some_iff {value : FreeValue} {found : Float} :
    value.number? = some found ↔ ∃ number, value = .number number ∧ found = number.toFloat := by
  cases value with
  | number number => simp [number?, eq_comm]
  | _ => simp [number?]

theorem map_m_number?_eq_some_iff {items : List FreeValue} {values : List Float} :
    items.mapM number? = some values ↔
      ∃ numbers : List Number,
        items = numbers.map .number ∧ values = numbers.map Number.toFloat := by
  induction items generalizing values with
  | nil =>
      constructor
      · intro same
        cases same
        exact ⟨[], rfl, rfl⟩
      · intro spelled
        rcases spelled with ⟨numbers, none, rfl⟩
        cases numbers with
        | nil => rfl
        | cons first numbers => cases none
  | cons item items induction =>
      simp only [List.mapM_cons, Option.bind_eq_bind, Option.bind_eq_some_iff, induction,
        number?_eq_some_iff]
      constructor
      · intro converted
        rcases converted with ⟨_, ⟨number, rfl, rfl⟩, _, ⟨numbers, rfl, rfl⟩, same⟩
        cases same
        exact ⟨number :: numbers, rfl, rfl⟩
      · intro spelled
        rcases spelled with ⟨numbers, same, rfl⟩
        cases numbers with
        | nil => cases same
        | cons number numbers =>
            cases same
            exact ⟨_, ⟨number, rfl, rfl⟩, _, ⟨numbers, rfl, rfl⟩, rfl⟩

end FreeValue

open FreeValue

theorem bias_of_array (items : List FreeValue) :
    biasOf (.array items) =
      match items.mapM number? with
      | none => .error .wrongValue
      | some [] => .error .biasEmpty
      | some (bias :: _) => .ok bias := rfl

theorem bias_of_eq_ok_iff {value : FreeValue} {bias : Float} :
    biasOf value = .ok bias ↔ value.IsBias bias := by
  constructor
  · intro same
    cases value with
    | number number =>
        cases same
        exact .number
    | array items =>
        have headed : ∃ rest, items.mapM number? = some (bias :: rest) := by
          rw [bias_of_array] at same
          split at same
          case h_1 => cases same
          case h_2 => cases same
          case h_3 first rest known =>
            cases same
            exact ⟨rest, known⟩
        rcases headed with ⟨rest, known⟩
        rcases map_m_number?_eq_some_iff.mp known with ⟨numbers, rfl, spelled⟩
        cases numbers with
        | nil => cases spelled
        | cons number numbers =>
            cases spelled
            exact .numbers
    | _ => cases same
  · intro isBias
    cases isBias with
    | number => rfl
    | @numbers bias more =>
        have known := map_m_number?_eq_some_iff.mpr ⟨bias :: more, rfl, rfl⟩
        rw [bias_of_array, known]
        rfl

/-- What the reader makes of a free value is what the value decides. -/
theorem transform_of_iff_decides {value : FreeValue} {scale bias : Float} :
    (∃ transform, transformOf value = .ok transform ∧
        transform.getD ⟨1.0, 0.0⟩ = ⟨scale, bias⟩) ↔ value.Decides scale bias := by
  constructor
  · intro made
    rcases made with ⟨transform, same, shown⟩
    unfold transformOf at same
    split at same
    case h_1 =>
      cases same
      cases shown
      exact .null
    case h_2 first second =>
      split at same
      case h_1 number =>
        split at same
        case h_1 offset known =>
          cases same
          cases shown
          exact .pair (bias_of_eq_ok_iff.mp known)
        case h_2 => cases same
      case h_2 => cases same
    case h_3 items noPair =>
      cases same
      cases shown
      apply Decides.noPair
      intro pair
      rcases List.length_eq_two.mp pair with ⟨first, second, rfl⟩
      exact noPair first second rfl
    case h_4 => cases same
  · intro decides
    cases decides with
    | null => exact ⟨none, rfl, rfl⟩
    | @noPair items noPair =>
        refine ⟨none, ?_, rfl⟩
        match items, noPair with
        | [], _ => rfl
        | [_], _ => rfl
        | [_, _], noPair => exact absurd rfl noPair
        | _ :: _ :: _ :: _, _ => rfl
    | @pair factor value bias isBias =>
        refine ⟨some ⟨factor.toFloat, bias⟩, ?_, rfl⟩
        simp only [transformOf, bias_of_eq_ok_iff.mpr isBias]

theorem meaning_free_value_array {items : List (List UInt8)} {text : List UInt8}
    (isArray : IsArray items text) (nesting : Nat) :
    meaning (freeValue (nesting + 1)) text =
      (items.mapM (meaning (freeValue nesting))).map .array := by
  rcases @remains_of_enclosed [comma] .array items text isArray.written with ⟨inside, same, -⟩
  have opening : text ++ [comma] = openBracket :: inside := same
  have free : freeValue (nesting + 1) ⟨openBracket :: inside, .complete⟩ =
      (array (freeValue nesting) >>= fun items => pure (.array items))
        ⟨openBracket :: inside, .complete⟩ := by
    rw [freeValue, bind_of_ok (token_cons rfl)]
    rfl
  have list : listField (freeValue nesting) ⟨openBracket :: inside, .complete⟩ =
      array (freeValue nesting) ⟨openBracket :: inside, .complete⟩ := by
    rw [listField, bind_of_ok (token_cons rfl), if_pos rfl]
  rw [← meaning_list_field (free_value_reads_value nesting) isArray, ← meaning_bind_pure]
  simp only [meaning, opening, free, bind, StateT.bind, list]

theorem meaning_transform_field_eq_some_iff {text : List UInt8} {transform : Option Transform} :
    meaning transformField text = some transform ↔
      ∃ found, meaning (freeValue maxNesting) text = some found ∧
        transformOf found = .ok transform := by
  rw [meaning_eq_some_iff]
  constructor
  · intro known
    rcases known with ⟨after, read⟩
    rcases bind_eq_ok_iff.mp read with ⟨found, middle, decoded, judged⟩
    have isFound := meaning_eq_some_iff.mpr ⟨middle, decoded⟩
    cases same : transformOf found with
    | error mismatch =>
        rw [same] at judged
        cases judged
    | ok other =>
        rw [same] at judged
        rw [(pure_eq_ok_iff.mp judged).1]
        exact ⟨found, isFound, same⟩
  · intro known
    rcases known with ⟨found, isFound, same⟩
    rcases meaning_eq_some_iff.mp isFound with ⟨after, decoded⟩
    refine ⟨after, (bind_of_ok decoded).trans ?_⟩
    rw [same]
    rfl

/-- Among members none of which is a transform, or behind the other two items. -/
inductive TransformPlace where
  | among (front back : List Member)
      (others : ∀ member ∈ front ++ back, spelled member.key ≠ some "scale_and_bias")
  | behind (features trees : List UInt8)

/-- A record with a value at the place of the transform, or with none there. -/
inductive Filled : TransformPlace → Option (List UInt8) → List UInt8 → Prop
  | noMember {front back : List Member} {others : _} {text : List UInt8} :
      IsObject (front ++ back) text → Filled (.among front back others) none text
  | member {front back : List Member} {others : _} {key value text : List UInt8} :
      spelled key = some "scale_and_bias" → IsObject (front ++ ⟨key, value⟩ :: back) text →
      Filled (.among front back others) (some value) text
  | noItem {features trees text : List UInt8} : IsArray [features, trees] text →
      Filled (.behind features trees) none text
  | item {features trees value text : List UInt8} : IsArray [features, trees, value] text →
      Filled (.behind features trees) (some value) text

inductive DescribedAt (place : TransformPlace) (value : Option (List UInt8)) :
    List UInt8 → Prop
  | intro {before record behind : List UInt8} : Filled place value record → Blank before →
      Blank behind → DescribedAt place value (before ++ (record ++ behind))

theorem Filled.json {place : TransformPlace} {value : Option (List UInt8)} {text : List UInt8}
    (filled : Filled place value text) : Json text := by
  cases filled with
  | noMember isObject => exact isObject.to_json
  | member _ isObject => exact isObject.to_json
  | noItem isArray => exact isArray.to_json
  | item isArray => exact isArray.to_json

theorem Filled.described {place : TransformPlace} {value : Option (List UInt8)}
    {text : List UInt8} (filled : Filled place value text) : DescribedAt place value text := by
  have blank : Blank [] := List.forall_mem_nil _
  have described := DescribedAt.intro filled blank blank
  rw [List.append_nil] at described
  exact described

def transformSlot : Field ModelDraft :=
  .slot "scale_and_bias" false ModelDraft.transform
    (fun draft value => { draft with transform := some value }) transformField

theorem model_shape_find_transform : modelShape.find? "scale_and_bias" = some transformSlot := rfl

theorem model_shape_result (draft : ModelDraft) :
    modelShape.result draft =
      draft.features.bind fun features =>
        draft.trees.map fun trees => ⟨features, trees, draft.transform.join⟩ := by
  rcases draft with ⟨features, trees, transform⟩
  cases features with
  | none => rfl
  | some features =>
      cases trees with
      | none => rfl
      | some trees => rfl

theorem model_shape_of_items_pair (features trees : List UInt8) :
    modelShape.ofItems [features, trees] =
      (meaning catalogShape.read features).bind fun catalog =>
        (meaning (listField treeShape.read) trees).map fun entries => ⟨catalog, entries, none⟩ := by
  simp only [Shape.ofItems, modelShape, Shape.fill, meaning_slot]
  cases meaning catalogShape.read features with
  | none => rfl
  | some catalog =>
      cases meaning (listField treeShape.read) trees with
      | none => rfl
      | some entries => rfl

theorem model_shape_of_items_triple (features trees value : List UInt8) :
    modelShape.ofItems [features, trees, value] =
      (modelShape.ofItems [features, trees]).bind fun model =>
        (meaning transformField value).map fun transform =>
          { model with transform := transform } := by
  rw [model_shape_of_items_pair]
  simp only [Shape.ofItems, modelShape, Shape.fill, meaning_slot]
  cases meaning catalogShape.read features with
  | none => rfl
  | some catalog =>
      cases meaning (listField treeShape.read) trees with
      | none => rfl
      | some entries =>
          cases meaning transformField value with
          | none => rfl
          | some transform => rfl

/-- The value at the place of the transform may as well be read behind all else. -/
theorem meaning_filled {place : TransformPlace} {value plain text : List UInt8}
    (untold : Filled place none plain) (told : Filled place (some value) text) :
    meaning modelShape.read text =
      (meaning modelShape.read plain).bind fun model =>
        (meaning transformField value).map fun transform =>
          { model with transform := transform } := by
  cases untold with
  | @noMember front back others _ isPlain =>
      cases told with
      | member named isObject =>
          rw [Shape.meaning_object model_shape_fields isPlain,
            Shape.meaning_object model_shape_fields isObject,
            model_shape_orderly.of_members_last named model_shape_find_transform others,
            Shape.ofMembers, Option.bind_assoc]
          apply Option.bind_congr
          intro draft _
          rw [transformSlot, meaning_slot]
          cases meaning transformField value with
          | none => simp
          | some transform =>
              simp only [model_shape_result, Option.bind_assoc, Option.map_eq_bind]
              rfl
  | noItem isPlain =>
      cases told with
      | item isArray =>
          rw [Shape.meaning_array model_shape_fields isPlain,
            Shape.meaning_array model_shape_fields isArray, model_shape_of_items_triple]

theorem untransformed_of_filled {place : TransformPlace} {plain : List UInt8} {model : Model}
    (untold : Filled place none plain) (known : meaning modelShape.read plain = some model) :
    model.transform = none := by
  cases untold with
  | @noMember front back others _ isPlain =>
      rw [Shape.meaning_object model_shape_fields isPlain, Shape.ofMembers,
        Option.bind_eq_some_iff] at known
      rcases known with ⟨draft, absorbed, made⟩
      have absent : transformSlot.isPresent draft = false :=
        model_shape_orderly.members_keep model_shape_find_transform others absorbed
      have empty : draft.transform = none :=
        Option.isNone_iff_eq_none.mp (Option.isSome_eq_false_iff.mp absent)
      rw [model_shape_result, Option.bind_eq_some_iff] at made
      rcases made with ⟨features, -, made⟩
      rcases Option.map_eq_some_iff.mp made with ⟨trees, -, rfl⟩
      rw [empty]
      rfl
  | noItem isPlain =>
      rw [Shape.meaning_array model_shape_fields isPlain, model_shape_of_items_pair,
        Option.bind_eq_some_iff] at known
      rcases known with ⟨catalog, -, known⟩
      rcases Option.map_eq_some_iff.mp known with ⟨entries, -, rfl⟩
      rfl

/-- A description with a value for the transform is the one without, if the value is
a transform. -/
theorem Model.read_described {place : TransformPlace} {value plain text : List UInt8}
    {model other : Model} (untold : DescribedAt place none plain)
    (told : DescribedAt place (some value) text)
    (known : Model.read ⟨plain, .complete⟩ = .ok model) :
    Model.read ⟨text, .complete⟩ = .ok other ↔
      ∃ found transform, meaning (freeValue maxNesting) value = some found ∧
        transformOf found = .ok transform ∧ other = { model with transform := transform } := by
  cases untold with
  | intro untold blank blank' =>
      cases told with
      | intro told newBlank newBlank' =>
          have plainMeans := (Model.read_eq_meaning untold.json blank blank').mp known
          rw [Model.read_eq_meaning told.json newBlank newBlank', meaning_filled untold told,
            plainMeans, Option.bind_some, Option.map_eq_some_iff]
          simp only [meaning_transform_field_eq_some_iff]
          constructor
          · intro made
            rcases made with ⟨transform, ⟨found, decoded, same⟩, rfl⟩
            exact ⟨found, transform, decoded, same, rfl⟩
          · intro made
            rcases made with ⟨found, transform, decoded, same, rfl⟩
            exact ⟨transform, ⟨found, decoded, same⟩, rfl⟩

theorem Model.untransformed_of_read {place : TransformPlace} {plain : List UInt8} {model : Model}
    (untold : DescribedAt place none plain) (known : Model.read ⟨plain, .complete⟩ = .ok model) :
    model.transform = none := by
  cases untold with
  | intro untold blank blank' =>
      exact untransformed_of_filled untold
        ((Model.read_eq_meaning untold.json blank blank').mp known)

theorem Model.of_source_bad_text {text : List UInt8} {fault : Fault}
    (failed : Model.read ⟨text, .complete⟩ = .error fault) (settings : Settings) :
    CompiledModel.ofSource settings ⟨text, .complete⟩ = .error (.parse fault) := by
  have told : ModelError.ofFault fault = .parse fault := by
    cases fault with
    | unreadable reason => exact absurd failed Model.read_readable
    | _ => rfl
  rw [CompiledModel.ofSource, failed, ← told]

theorem Model.to_forest_transform {model : Model} {forest : Forest}
    (converted : model.toForest = .ok forest) (transform : Option Transform) :
    { model with transform := transform }.toForest =
      .ok (forest.withTransform (transform.getD ⟨1.0, 0.0⟩).scale
        (transform.getD ⟨1.0, 0.0⟩).bias) := by
  have describes := Model.to_forest_eq_ok_iff.mp converted
  apply Model.to_forest_eq_ok_iff.mpr
  constructor
  · exact describes.featureCount
  · exact describes.trees
  · intro given same
    cases same
    exact ⟨rfl, rfl⟩
  · intro absent
    cases absent
    exact ⟨rfl, rfl⟩

end Description

open Description

namespace CompiledModel

variable {settings : Settings} {model : CompiledModel}

/-- Another transform of a forest is another transform of its model, and nothing else. -/
theorem of_forest_with_transform {forest : Forest} (compiled : ofForest settings forest = .ok model)
    (scale bias : Float) :
    ofForest settings (forest.withTransform scale bias) =
      .ok { model with scale := scale, bias := bias } := by
  rcases of_forest_eq_ok_iff.mp compiled with ⟨encoded, written, rfl⟩
  exact of_forest_eq_ok_iff.mpr ⟨encoded, written, rfl⟩

section

variable {place : TransformPlace} {value plain text : List UInt8} {described : Model}

theorem of_source_described {forest : Forest} (untold : DescribedAt place none plain)
    (told : DescribedAt place (some value) text)
    (read : Model.read ⟨plain, .complete⟩ = .ok described)
    (converted : described.toForest = .ok forest) (compiled : ofForest settings forest = .ok model)
    {found : FreeValue} (decoded : meaning (freeValue maxNesting) value = some found)
    {scale bias : Float} (decides : found.Decides scale bias) :
    ofSource settings ⟨text, .complete⟩ = .ok { model with scale := scale, bias := bias } := by
  rcases transform_of_iff_decides.mpr decides with ⟨transform, same, shown⟩
  have whole := (Model.read_described untold told read).mpr ⟨found, transform, decoded, same, rfl⟩
  have transformed := Model.to_forest_transform converted transform
  rw [shown] at transformed
  exact of_source_eq_ok_iff.mpr
    ⟨_, _, whole, transformed, of_forest_with_transform compiled scale bias⟩

theorem of_source_undescribed (untold : DescribedAt place none plain)
    (told : DescribedAt place (some value) text)
    (read : Model.read ⟨plain, .complete⟩ = .ok described)
    (unsuited : ∀ found transform, meaning (freeValue maxNesting) value = some found →
      transformOf found ≠ .ok transform) :
    ∃ fault, ofSource settings ⟨text, .complete⟩ = .error (.parse fault) := by
  cases outcome : Model.read ⟨text, .complete⟩ with
  | error fault => exact ⟨fault, Model.of_source_bad_text outcome settings⟩
  | ok other =>
      rcases (Model.read_described untold told read).mp outcome with
        ⟨found, transform, decoded, same, -⟩
      exact absurd same (unsuited found transform decoded)

end

theorem exists_of_source_of_no_trees {source : Source} {described : Model}
    (read : Model.read source = .ok described) (none : described.trees = []) :
    ∃ model, ofSource settings source = .ok model := by
  have valid : ∀ tree ∈ described.trees, tree.Valid described.features.length := by
    rw [none]
    exact List.forall_mem_nil _
  rcases Model.exists_to_forest_iff.mpr valid with ⟨forest, converted⟩
  have spelled := (Model.to_forest_eq_ok_iff.mp converted).trees
  rw [none, List.forall₂_nil_left_iff] at spelled
  have few : forest.FewDeepTrees := by
    rw [Forest.FewDeepTrees, spelled]
    decide
  rcases of_forest_is_ok_iff.mpr (Grouping.encode_is_ok (Grouping.counted_iff_few.mpr few)) with
    ⟨model, built⟩
  exact ⟨model, of_source_eq_ok_iff.mpr ⟨described, forest, read, converted, built⟩⟩

theorem settings_of_of_source {source : Source} (loaded : ofSource settings source = .ok model) :
    model.settings = settings := by
  rcases of_source_eq_ok_iff.mp loaded with ⟨_, _, -, -, compiled⟩
  rcases of_forest_eq_ok_iff.mp compiled with ⟨_, -, rfl⟩
  rfl

end CompiledModel

/-- The value at the place of the transform decides the transform of the model. Without
one, and for a null or an array that is no pair, the raw score is kept. A pair of a
number and a number, or of a number and a list of numbers, gives its first numbers as
they are. Any other value, and a value that cannot be decoded, makes the description a
bad text, and no model is loaded. A loaded model scores a row by the transform of its
raw score. -/
theorem transform_decided_by_value {settings : Settings} {place : TransformPlace}
    {plain : List UInt8} {compiled : CompiledModel} (untold : DescribedAt place none plain)
    (valid : CompiledModel.ofSource settings ⟨plain, .complete⟩ = .ok compiled) :
    (compiled.scale = 1.0 ∧ compiled.bias = 0.0) ∧
      (∀ value text, DescribedAt place (some value) text →
        (∀ found, meaning (freeValue maxNesting) value = some found →
          (∀ scale bias, found.Decides scale bias →
            CompiledModel.ofSource settings ⟨text, .complete⟩ =
              .ok { compiled with scale := scale, bias := bias }) ∧
          ((¬∃ scale bias, found.Decides scale bias) → ∃ fault,
            CompiledModel.ofSource settings ⟨text, .complete⟩ = .error (.parse fault))) ∧
        (meaning (freeValue maxNesting) value = none → ∃ fault,
          CompiledModel.ofSource settings ⟨text, .complete⟩ = .error (.parse fault))) ∧
      ∀ source loaded, CompiledModel.ofSource settings source = .ok loaded →
        ∀ row : Row, loaded.featureCount ≤ row.size →
          ∃ raw, loaded.encoded.score settings.lanes row = .ok raw ∧
            loaded.score row = .ok (loaded.scale * raw + loaded.bias) := by
  rcases of_source_eq_ok_iff.mp valid with ⟨model, forest, read, converted, built⟩
  have absent := Model.untransformed_of_read untold read
  refine ⟨?_, ?_, ?_⟩
  · rcases of_forest_eq_ok_iff.mp built with ⟨encoded, -, rfl⟩
    exact (Model.to_forest_eq_ok_iff.mp converted).untransformed absent
  · intro value text told
    constructor
    · intro found decoded
      constructor
      · intro scale bias decides
        exact CompiledModel.of_source_described untold told read converted built decoded decides
      · intro undecided
        apply CompiledModel.of_source_undescribed untold told read
        intro other transform again same
        rw [decoded] at again
        cases again
        exact undecided ⟨_, _, transform_of_iff_decides.mp ⟨transform, same, rfl⟩⟩
    · intro undecoded
      apply CompiledModel.of_source_undescribed untold told read
      intro found transform decoded
      rw [undecoded] at decoded
      cases decoded
  · intro source loaded accepted row long
    rw [← CompiledModel.settings_of_of_source accepted]
    exact ⟨_, EncodedForest.score_on_eq_ok long, CompiledModel.score_eq_ok long⟩

/-- One transform with two biases, and one with a null behind its bias. -/
theorem transform_decided_by_value_pair :
    let features : Member := ⟨"\"features_info\"".toUTF8.toList, "[[]]".toUTF8.toList⟩
    let trees : Member := ⟨"\"oblivious_trees\"".toUTF8.toList, "[]".toUTF8.toList⟩
    let one : List UInt8 := [0x31]
    let two : List UInt8 := [0x32]
    let transform (bias : List (List UInt8)) : Member :=
      ⟨"\"scale_and_bias\"".toUTF8.toList, arrayOf [two, arrayOf bias]⟩
    let load (members : List Member) : Except ModelError CompiledModel :=
      CompiledModel.ofSource {} ⟨objectOf members, .complete⟩
    ∃ compiled, load [features, trees] = .ok compiled ∧
      compiled.scale = 1.0 ∧ compiled.bias = 0.0 ∧
      load [features, transform [one, two], trees] =
        .ok { compiled with scale := 2.0, bias := 1.0 } ∧
      ∃ fault, load [features, transform [one, nullText], trees] = .error (.parse fault) := by
  intro features trees one two transform load
  have isObject : ∀ bias ∈ [[one, two], [one, nullText]], ∀ members : List Member,
      members ⊆ [features, transform bias, trees] → IsObject members (objectOf members) := by
    have written : ∀ bias ∈ [[one, two], [one, nullText]],
        ∀ member ∈ [features, transform bias, trees], Quoted member.key ∧ Json member.value := by
      decide +kernel
    intro bias known members among
    exact is_object_object_of
      (fun member isMember => (written bias known member (among isMember)).1)
      fun member isMember => (written bias known member (among isMember)).2
  let place : TransformPlace := .among [features] [trees] (by decide +kernel)
  have untold : DescribedAt place none (objectOf [features, trees]) :=
    Filled.described (.noMember (isObject [one, two] (by simp) _ (by simp)))
  have told : ∀ bias ∈ [[one, two], [one, nullText]],
      DescribedAt place (some (transform bias).value)
        (objectOf [features, transform bias, trees]) := by
    intro bias known
    have named : spelled "\"scale_and_bias\"".toUTF8.toList = some "scale_and_bias" := by
      decide +kernel
    exact Filled.described (.member named (isObject bias known _ (List.Subset.refl _)))
  have valid : ∃ compiled, load [features, trees] = .ok compiled := by
    have count : (Model.read ⟨objectOf [features, trees], .complete⟩).toOption.map
        (fun model => model.trees.length) = some 0 := by decide +kernel
    cases read : Model.read ⟨objectOf [features, trees], .complete⟩ with
    | error fault =>
        rw [read] at count
        cases count
    | ok model =>
        rw [read] at count
        exact CompiledModel.exists_of_source_of_no_trees read
          (List.eq_nil_of_length_eq_zero (Option.some.inj count))
  rcases valid with ⟨compiled, valid⟩
  rcases transform_decided_by_value untold valid with ⟨neutral, values, -⟩
  have decoded : ∀ bias ∈ [[one, two], [one, nullText]],
      meaning (freeValue maxNesting) (transform bias).value =
        (bias.mapM (meaning (freeValue 124))).map fun items =>
          .array [.number (.natural 2), .array items] := by
    intro bias known
    have json : (∀ item ∈ bias, Json item) ∧ ∀ item ∈ [two, arrayOf bias], Json item := by
      revert bias
      decide +kernel
    have scale : meaning (freeValue 125) two = some (.number (.natural 2)) := by rfl
    have inner := meaning_free_value_array (is_array_array_of json.1) 124
    rw [maxNesting, meaning_free_value_array (is_array_array_of json.2) 125]
    simp only [List.mapM_cons, List.mapM_nil, scale, inner, Option.bind_eq_bind, Option.bind_some]
    cases bias.mapM (meaning (freeValue 124)) with
    | none => rfl
    | some items => rfl
  have good : [one, two].mapM (meaning (freeValue 124)) =
      some [.number (.natural 1), .number (.natural 2)] := by rfl
  have bad : [one, nullText].mapM (meaning (freeValue 124)) =
      some [.number (.natural 1), .null] := by rfl
  refine ⟨compiled, valid, neutral.1, neutral.2, ?_, ?_⟩
  · have found := decoded [one, two] (by simp)
    rw [good] at found
    have scale : (Number.natural 2).toFloat = 2.0 := rfl
    have bias : (Number.natural 1).toFloat = 1.0 := rfl
    rw [← scale, ← bias]
    apply ((values _ _ (told _ (by simp))).1 _ found).1
    exact .pair (@FreeValue.IsBias.numbers (.natural 1) [.natural 2])
  · have found := decoded [one, nullText] (by simp)
    rw [bad] at found
    apply ((values _ _ (told _ (by simp))).1 _ found).2
    intro decided
    rcases decided with ⟨_, _, decides⟩
    rcases transform_of_iff_decides.mpr decides with ⟨_, same, -⟩
    cases same

end SymmetricTrees
