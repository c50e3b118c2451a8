import Mathlib.Data.List.Basic
import SymmetricTrees.Proofs.EncodingLimits
import SymmetricTrees.Proofs.BatchScores

/-!
Scores by a compiled model. All rows are judged before a score is written, so a
row that is too short leaves the whole output as it was. Otherwise each place of
the output gets the score of its own row, transformed once, and no feature
behind the declared ones is looked at.
-/

set_option autoImplicit false

namespace SymmetricTrees

open BlockStream LeafIndex

theorem Split.holds_congr {split : Split} {row other : Row}
    (same : row[split.feature.toNat]? = other[split.feature.toNat]?) :
    split.holds row = split.holds other := by
  rw [holds, outcome?, same, holds, outcome?]

theorem LeafIndex.number_congr {row other : Row} {splits : List Split}
    (same : ∀ split ∈ splits, row[split.feature.toNat]? = other[split.feature.toNat]?) :
    number row splits = number other splits := by
  induction splits with
  | nil => rfl
  | cons split deeper induction =>
      obtain ⟨here, below⟩ := List.forall_mem_cons.mp same
      rw [number, number, Split.holds_congr here, induction below]

namespace Tree

variable {tree : Tree} {row : Row} {featureCount : Nat}

theorem value_extract (fits : tree.Fits featureCount) (long : featureCount ≤ row.size) :
    tree.value (row.extract 0 featureCount) = tree.value row := by
  have kept : featureCount ≤ (row.extract 0 featureCount).size := by
    rw [Array.size_extract]
    omega
  have same : ∀ split ∈ tree.splits,
      (row.extract 0 featureCount)[split.feature.toNat]? = row[split.feature.toNat]? := by
    intro split tested
    have inside := fits split tested
    rw [Array.getElem?_extract, if_pos (by omega), Nat.zero_add]
  have found := leaves_get_elem?_number (covers_of_fits fits kept)
  rw [number_congr same, leaves_get_elem?_number (covers_of_fits fits long)] at found
  exact (Option.some.inj found).symm

end Tree

theorem BlockStream.add_trees_extract {trees : List Tree} {row : Row} {featureCount : Nat}
    (fits : ∀ tree ∈ trees, tree.Fits featureCount) (long : featureCount ≤ row.size)
    (score : Float) :
    addTrees (row.extract 0 featureCount) trees score = addTrees row trees score := by
  apply List.foldl_ext
  intro sum tree member
  rw [Tree.value_extract (fits tree member) long]

theorem EncodedForest.raw_score_extract {encoded : EncodedForest} {ops : LaneOps}
    (laneWise : ops.LaneWise) {row : Row} (long : encoded.featureCount ≤ row.size) :
    encoded.rawScore ops (row.extract 0 encoded.featureCount) = encoded.rawScore ops row := by
  have kept : encoded.featureCount ≤ (row.extract 0 encoded.featureCount).size := by
    rw [Array.size_extract]
    omega
  obtain ⟨stands, -, -, fits, -, scores⟩ := encoded.reads_as_trees
  have cut := scores ops laneWise _ kept
  have whole := scores ops laneWise row long
  rw [add_trees_extract fits long, ← whole, score_on_eq_ok kept, score_on_eq_ok long] at cut
  exact Except.ok.inj cut

/-- Rows all have enough features, or there is a first one that has not. -/
theorem long_or_first_short (featureCount : Nat) (rows : List Row) :
    (∀ row ∈ rows, featureCount ≤ row.size) ∨
      ∃ before row behind, rows = before ++ row :: behind ∧
        (∀ earlier ∈ before, featureCount ≤ earlier.size) ∧ row.size < featureCount := by
  induction rows with
  | nil => exact .inl (List.forall_mem_nil _)
  | cons row rest induction =>
      by_cases short : row.size < featureCount
      · exact .inr ⟨[], row, rest, rfl, List.forall_mem_nil _, short⟩
      · rcases induction with long | ⟨before, first, behind, rfl, earlier, late⟩
        · exact .inl (List.forall_mem_cons.mpr ⟨Nat.not_lt.mp short, long⟩)
        · exact .inr ⟨row :: before, first, behind, rfl,
            List.forall_mem_cons.mpr ⟨Nat.not_lt.mp short, earlier⟩, late⟩

theorem LaneBackend.ops_lane_wise (backend : LaneBackend) : backend.ops.LaneWise :=
  backend.ops_on_lane_wise VectorUnit.quads_lane_wise

namespace CompiledModel

variable {model : CompiledModel} {row : Row} {rows : List Row}

theorem check_features_eq_ok {got : Nat} (enough : model.featureCount ≤ got) :
    model.checkFeatures got = .ok () := if_neg (Nat.not_lt.mpr enough)

theorem check_features_eq_error {got : Nat} (few : got < model.featureCount) :
    model.checkFeatures got = .error (.insufficientFeatures model.featureCount got) := if_pos few

/-- The transformed sum of the leaf values that a row reaches. -/
def transformedScore (model : CompiledModel) (row : Row) : Float :=
  model.transform (model.encoded.rawScore model.settings.lanes.ops row)

theorem score_eq_ok (long : model.featureCount ≤ row.size) :
    model.score row = .ok (model.transformedScore row) := by
  rw [score, check_features_eq_ok long]
  rfl

theorem score_eq_error (short : row.size < model.featureCount) :
    model.score row = .error (.insufficientFeatures model.featureCount row.size) := by
  rw [score, check_features_eq_error short]
  rfl

theorem score_extract (long : model.featureCount ≤ row.size) :
    model.score (row.extract 0 model.featureCount) = model.score row := by
  have kept : model.featureCount ≤ (row.extract 0 model.featureCount).size := by
    rw [Array.size_extract]
    omega
  have raw := EncodedForest.raw_score_extract model.settings.lanes.ops_lane_wise long
  rw [score_eq_ok kept, score_eq_ok long, transformedScore, featureCount, raw, transformedScore]

theorem fill_scores_eq_map (long : ∀ row ∈ rows, model.featureCount ≤ row.size)
    {output : List Float} (sized : output.length = rows.length) :
    model.fillScores rows output = rows.map model.transformedScore := by
  have lanes := model.settings.lanes.ops_lane_wise
  rw [fillScores, EncodedForest.rawScores,
    EncodedForest.fill_scores_eq_map lanes _ (EncodedForest.clamp_width_le _) long sized,
    List.map_map]
  rfl

theorem score_into_eq_ok (long : ∀ row ∈ rows, model.featureCount ≤ row.size)
    {output : Array Float} (sized : output.size = rows.length) :
    model.scoreInto rows output = (.ok (), (rows.map model.transformedScore).toArray) := by
  have judged : (rows.forM fun row => model.checkFeatures row.size) = .ok () :=
    Outcome.for_m_eq_ok fun row held => check_features_eq_ok (long row held)
  rw [scoreInto, if_pos sized, judged, fill_scores_eq_map long sized]

theorem score_into_eq_error {before behind : List Row}
    (earlier : ∀ row ∈ before, model.featureCount ≤ row.size)
    (short : row.size < model.featureCount) {output : Array Float}
    (sized : output.size = (before ++ row :: behind).length) :
    model.scoreInto (before ++ row :: behind) output =
      (.error (.model (.insufficientFeatures model.featureCount row.size)), output) := by
  have judged : ((before ++ row :: behind).forM fun row => model.checkFeatures row.size) =
      .error (.insufficientFeatures model.featureCount row.size) :=
    Outcome.for_m_eq_error (fun row held => check_features_eq_ok (earlier row held))
      (check_features_eq_error short)
  rw [scoreInto, if_pos sized, judged]

theorem score_many_eq_ok (long : ∀ row ∈ rows, model.featureCount ≤ row.size) :
    model.scoreMany rows = .ok (rows.map model.transformedScore) := by
  rw [scoreMany, score_into_eq_ok long (by simp)]

theorem score_many_eq_error {before behind : List Row}
    (earlier : ∀ row ∈ before, model.featureCount ≤ row.size)
    (short : row.size < model.featureCount) :
    model.scoreMany (before ++ row :: behind) =
      .error (.insufficientFeatures model.featureCount row.size) := by
  rw [scoreMany, score_into_eq_error earlier short (by simp)]

end CompiledModel

/-- Many rows are scored exactly if each of them has all declared features. Every
place of the output then holds the score that its row has alone, a raw score
transformed once, whatever follows the declared features. Otherwise the first row
that is too short is reported and the output stays as it was. -/
theorem rows_scored_all_or_none (model : CompiledModel) (rows : List Row) {output : Array Float}
    (sized : output.size = rows.length) :
    ((model.scoreInto rows output).1 = .ok () ↔
        ∀ row ∈ rows, model.featureCount ≤ row.size) ∧
      ((∀ row ∈ rows, model.featureCount ≤ row.size) →
        ∃ filled, model.scoreInto rows output = (.ok (), filled) ∧
          model.scoreMany rows = .ok filled.toList ∧ filled.size = rows.length ∧
          ∀ (index : Nat) (row : Row), rows[index]? = some row →
            ∃ raw, model.encoded.score model.settings.lanes row = .ok raw ∧
              filled[index]? = some (model.scale * raw + model.bias) ∧
              model.score row = .ok (model.scale * raw + model.bias) ∧
              model.score (row.extract 0 model.featureCount) =
                .ok (model.scale * raw + model.bias)) ∧
      ((¬∀ row ∈ rows, model.featureCount ≤ row.size) →
        ∃ before row behind, rows = before ++ row :: behind ∧
          (∀ earlier ∈ before, model.featureCount ≤ earlier.size) ∧
          row.size < model.featureCount ∧
          model.scoreInto rows output =
            (.error (.model (.insufficientFeatures model.featureCount row.size)), output) ∧
          model.scoreMany rows =
            .error (.insufficientFeatures model.featureCount row.size)) := by
  refine ⟨⟨?_, fun long => ?_⟩, fun long => ?_, fun short => ?_⟩
  · intro scored
    rcases long_or_first_short model.featureCount rows with long | ⟨_, row, _, rfl, earlier, short⟩
    · exact long
    · rw [CompiledModel.score_into_eq_error earlier short sized] at scored
      cases scored
  · rw [CompiledModel.score_into_eq_ok long sized]
  · refine ⟨_, CompiledModel.score_into_eq_ok long sized, CompiledModel.score_many_eq_ok long,
      by simp, fun index row found => ?_⟩
    have enough := long row (List.mem_of_getElem? found)
    refine ⟨_, EncodedForest.score_on_eq_ok enough, ?_, CompiledModel.score_eq_ok enough, ?_⟩
    · rw [List.getElem?_toArray, List.getElem?_map, found]
      rfl
    · rw [CompiledModel.score_extract enough]
      exact CompiledModel.score_eq_ok enough
  · rcases long_or_first_short model.featureCount rows with long | ⟨_, row, _, rfl, earlier, late⟩
    · exact absurd long short
    · exact ⟨_, row, _, rfl, earlier, late, CompiledModel.score_into_eq_error earlier late sized,
        CompiledModel.score_many_eq_error earlier late⟩

/-- Three rows for two features. The second is too short, although the third is not. -/
theorem rows_scored_all_or_none_second_short :
    let stream : List UInt8 :=
      [1, 0, 0, 0, 1, 0, 0, 0, 1, 0, 0, 0, 2, 0, 0, 0, 0, 0, 0, 63, 1, 0, 0, 0]
    let rows : List Row := [#[0.25, 0.75, 9.0], #[0.5], #[0.5, 0.5]]
    let output : Array Float := #[7.0, -0.0, 7.0]
    ∃ model : CompiledModel, model.encoded.stream = stream ∧ model.featureCount = 2 ∧
      output.size = rows.length ∧
      ∃ before row behind, rows = before ++ row :: behind ∧
        (∀ earlier ∈ before, model.featureCount ≤ earlier.size) ∧
        row.size < model.featureCount ∧
        model.scoreInto rows output =
          (.error (.model (.insufficientFeatures model.featureCount row.size)), output) ∧
        model.scoreMany rows = .error (.insufficientFeatures model.featureCount row.size) := by
  intro stream rows output
  have reads : Reads (.ofBytes stream) 0
      [⟨⟨0, ⟨.scalar, 1, by decide⟩, ⟨16, stream.drop 16⟩⟩, ⟨[], [⟨1, ⟨0x3F000000⟩⟩]⟩⟩]
      ⟨24, []⟩ := .block rfl rfl (.done rfl)
  have checked : BlockStream.check stream (#[-1.0, 1.0] : Array Float).size 2 = .ok 1 :=
    EncodedForest.check_eq_ok reads (List.forall_mem_singleton.mpr ⟨by simp, by simp⟩) rfl
  have sized : output.size = rows.length := rfl
  have short : ¬∀ row ∈ rows, 2 ≤ row.size := by simp [rows]
  let model : CompiledModel :=
    ⟨⟨stream, #[-1.0, 1.0], 2, 1, checked⟩, 2.0, 0.5, { batchWidth := 2 }⟩
  exact ⟨model, rfl, rfl, sized, (rows_scored_all_or_none model rows sized).2.2 short⟩

end SymmetricTrees
