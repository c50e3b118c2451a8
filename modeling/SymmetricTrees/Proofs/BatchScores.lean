import SymmetricTrees.Proofs.WalkAgreement

/-!
Scores of many rows. Rows are handed to the kernels in batches of a clamped
width, and the last batch takes what is left. Whatever the width, every row gets
the score that it has alone, on the vector unit and on the portable lanes alike,
and nothing of the output's former content stays.
-/

set_option autoImplicit false

namespace SymmetricTrees

open BlockStream Scoring

namespace EncodedForest

variable {encoded : EncodedForest} {ops : LaneOps}

theorem score_on_eq_ok {row : Row} (long : encoded.featureCount ≤ row.size) :
    encoded.scoreOn ops row = .ok (encoded.rawScore ops row) := if_pos long

theorem dispatch_eq_map (laneWise : ops.LaneWise) {rows : List Row}
    (few : rows.length ≤ maxBatchWidth) (long : ∀ row ∈ rows, encoded.featureCount ≤ row.size)
    {output : List Float} (sized : output.length = rows.length) :
    encoded.dispatch ops rows output = rows.map (encoded.rawScore ops) := by
  obtain ⟨visits, last, reads, within, -, total⟩ := encoded.reads
  have suits : ∀ row ∈ rows, ∀ visit ∈ visits, Suits encoded.leaves row visit :=
    fun row held => suits_of_reads reads within (by rw [total, Nat.zero_add]) (long row held)
  -- Both walks visit the blocks in stream order, so the sum of every row has its
  -- terms in the order of its own walk.
  have toured := toured_of_follows (batch_walker_follows laneWise rows) reads
    (fun visit member row held => suits row held visit member) total (rows.map fun _ => 0.0)
  rw [foldl_add_visit_to_rows] at toured
  have single : ∀ row ∈ rows,
      visits.foldl (fun score visit => addVisit encoded.leaves row visit score) 0.0 =
        encoded.rawScore ops row := by
    intro row held
    have alone :=
      toured_of_follows (row_walker_follows laneWise row) reads (suits row held) total 0.0
    rw [rawScore, alone.walk_eq]
  rw [dispatch_eq few toured (List.length_map _) sized]
  exact List.map_congr_left single

/-- Full batches and the rest together give each row its own score. -/
theorem fill_scores_eq_map (laneWise : ops.LaneWise) {width : Nat} (positive : 0 < width)
    (narrow : width ≤ maxBatchWidth) {rows : List Row}
    (long : ∀ row ∈ rows, encoded.featureCount ≤ row.size) {output : List Float}
    (sized : output.length = rows.length) :
    encoded.fillScores ops width positive rows output = rows.map (encoded.rawScore ops) := by
  fun_induction encoded.fillScores ops width positive rows output with
  | case1 rows output full induction =>
      have batch : encoded.dispatch ops (rows.take width) (output.take width) =
          (rows.take width).map (encoded.rawScore ops) := by
        apply dispatch_eq_map laneWise
        · rw [List.length_take]
          omega
        · exact fun row held => long row (List.mem_of_mem_take held)
        · rw [List.length_take, List.length_take, sized]
      have later := induction (fun row held => long row (List.mem_of_mem_drop held))
        (by rw [List.length_drop, List.length_drop, sized])
      rw [batch, later, ← List.map_append, List.take_append_drop]
  | case2 rows output short =>
      exact dispatch_eq_map laneWise (by omega) long sized

theorem clamp_width_le (width : Nat) : clampWidth width ≤ maxBatchWidth :=
  Nat.max_le.mpr ⟨by decide, Nat.min_le_right _ _⟩

theorem score_into_on_eq_ok (laneWise : ops.LaneWise) (width : Nat) {rows : List Row}
    (long : ∀ row ∈ rows, encoded.featureCount ≤ row.size) {output : Array Float}
    (sized : output.size = rows.length) :
    encoded.scoreIntoOn ops width rows output =
      .ok (rows.map (encoded.rawScore ops)).toArray := by
  have filled : encoded.fillScores ops (clampWidth width) (clamp_width_pos width) rows
      output.toList = rows.map (encoded.rawScore ops) :=
    fill_scores_eq_map laneWise _ (clamp_width_le width) long sized
  rw [scoreIntoOn, if_pos sized]
  split
  case h_1 row index found =>
    have held : row ∈ rows :=
      List.mem_of_getElem? (List.mem_zipIdx_iff_getElem?.mp (List.mem_of_find?_eq_some found))
    have short := List.find?_some found
    exact absurd (of_decide_eq_true short) (Nat.not_lt.mpr (long row held))
  case h_2 => rw [rawScores, filled]

/-- Lane-wise backends cannot be told apart by the score of a row. -/
theorem raw_score_congr {other : LaneOps} (laneWise : ops.LaneWise) (otherWise : other.LaneWise)
    {row : Row} (long : encoded.featureCount ≤ row.size) :
    encoded.rawScore ops row = encoded.rawScore other row := by
  obtain ⟨stands, -, -, -, -, scores⟩ := encoded.reads_as_trees
  have same := (scores ops laneWise row long).trans (scores other otherWise row long).symm
  rw [score_on_eq_ok long, score_on_eq_ok long] at same
  exact Except.ok.inj same

end EncodedForest

/-- A batch of any width fills the whole output, whatever it held, with the
scores that the rows have alone: the same leaf values added in the same order. -/
theorem batch_scores_rows_singly (encoded : EncodedForest) (backend : LaneBackend)
    {unit : VectorUnit} (laneWise : unit.LaneWise) (width : Nat) {rows : List Row}
    (long : ∀ row ∈ rows, encoded.featureCount ≤ row.size) {output : Array Float}
    (sized : output.size = rows.length) :
    ∃ filled, encoded.scoreIntoOn (backend.opsOn unit) width rows output = .ok filled ∧
      filled.size = rows.length ∧
      ∃ trees, treesOf encoded.stream encoded.leaves = .ok trees ∧
        ∀ (index : Nat) (row : Row), rows[index]? = some row →
          ∃ values, trees.mapM (fun tree => tree.predict? row) = some values ∧
            encoded.scoreOn (backend.opsOn unit) row =
              .ok (values.foldl (fun sum value => sum + value) 0.0) ∧
            filled[index]? = some (values.foldl (fun sum value => sum + value) 0.0) := by
  have lanes := backend.ops_on_lane_wise laneWise
  obtain ⟨stands, read, -, fits, -, scores⟩ := encoded.reads_as_trees
  refine ⟨_, EncodedForest.score_into_on_eq_ok lanes width long sized, by simp,
    stands.flatMap Stand.trees, ?_, ?_⟩
  · rw [treesOf, read]
    rfl
  · intro index row found
    have enough := long row (List.mem_of_getElem? found)
    have covers : ∀ tree ∈ stands.flatMap Stand.trees, row.Covers tree.splits :=
      fun tree member split tested => Nat.lt_of_lt_of_le (fits tree member split tested) enough
    have alone := scores _ lanes row enough
    have raw : encoded.rawScore (backend.opsOn unit) row =
        addTrees row (stands.flatMap Stand.trees) 0.0 := by
      rw [EncodedForest.score_on_eq_ok enough] at alone
      exact Except.ok.inj alone
    refine ⟨_, map_m_predict?_eq_some covers, ?_, ?_⟩
    · rw [List.foldl_map]
      exact alone
    · rw [List.getElem?_toArray, List.getElem?_map, found, List.foldl_map, Option.map_some, raw]
      rfl

/-- Three rows, one with a feature too many, in batches of width zero over an
output that holds other values. -/
theorem batch_scores_rows_singly_zero_width :
    let stream : List UInt8 :=
      [2, 0, 0, 0, 4, 0, 0, 0, 1, 0, 0, 0, 16, 0, 0, 0,
        0, 0, 0, 63, 0, 0, 128, 62, 0, 0, 192, 127, 0, 0, 0, 128,
        0, 0, 0, 0, 1, 0, 0, 0, 0, 0, 0, 0, 1, 0, 0, 0]
    let leaves : Array Float :=
      #[0.0, 0.1, 0.2, 0.3, 0.4, 0.5, 0.6, 0.7, 0.8, 0.9, 1.0, 1.1, 1.2, 1.3, 1.4, 1.5]
    let rows : List Row := [#[0.25, 0.75], #[0.5, 0.5, 0.5], #[1.0, -0.0]]
    let output : Array Float := #[7.0, -0.0, 7.0]
    ∃ encoded, EncodedForest.ofParts stream leaves 2 = .ok encoded ∧
      (∀ row ∈ rows, encoded.featureCount ≤ row.size) ∧ output.size = rows.length ∧
      ∃ filled, encoded.scoreInto .simd 0 rows output = .ok filled ∧
        filled.size = rows.length ∧
        ∃ trees, treesOf encoded.stream encoded.leaves = .ok trees ∧
          ∀ (index : Nat) (row : Row), rows[index]? = some row →
            ∃ values, trees.mapM (fun tree => tree.predict? row) = some values ∧
              encoded.score .simd row =
                .ok (values.foldl (fun sum value => sum + value) 0.0) ∧
              filled[index]? = some (values.foldl (fun sum value => sum + value) 0.0) := by
  intro stream leaves rows output
  have reads : Reads (.ofBytes stream) 0
      [⟨⟨0, ⟨.chunks, 4, by decide⟩, ⟨16, stream.drop 16⟩⟩,
        ⟨[⟨⟨⟨0x3F000000⟩, ⟨0x3E800000⟩, ⟨0x7FC00000⟩, ⟨0x80000000⟩⟩, ⟨0, 1, 0, 1⟩⟩], []⟩⟩]
      ⟨48, []⟩ := .block rfl rfl (.done rfl)
  have checked : BlockStream.check stream leaves.size 2 = .ok 1 :=
    EncodedForest.check_eq_ok reads
      (List.forall_mem_singleton.mpr ⟨by simp [Quad.toList], by simp⟩) rfl
  have long : ∀ row ∈ rows, 2 ≤ row.size := by simp [rows]
  have sized : output.size = rows.length := rfl
  let encoded : EncodedForest := ⟨stream, leaves, 2, 1, checked⟩
  exact ⟨encoded, EncodedForest.of_parts_eq_ok checked, long, sized,
    batch_scores_rows_singly encoded .simd VectorUnit.quads_lane_wise 0 long sized⟩

/-- The vector unit and the portable lanes give a row the same score and fill
the same output, batch by batch. -/
theorem vector_unit_agrees_with_portable (encoded : EncodedForest) {unit : VectorUnit}
    (laneWise : unit.LaneWise) :
    (∀ row : Row, encoded.featureCount ≤ row.size →
      ∃ score, encoded.scoreOn (.ofUnit unit) row = .ok score ∧
        encoded.scoreOn .portable row = .ok score) ∧
      ∀ (width : Nat) (rows : List Row) (output : Array Float),
        (∀ row ∈ rows, encoded.featureCount ≤ row.size) → output.size = rows.length →
        ∃ scores, encoded.scoreIntoOn (.ofUnit unit) width rows output = .ok scores ∧
          encoded.scoreIntoOn .portable width rows output = .ok scores := by
  have vector := LaneOps.of_unit_lane_wise laneWise
  have portable := LaneOps.portable_lane_wise
  constructor
  · intro row long
    refine ⟨_, EncodedForest.score_on_eq_ok long, ?_⟩
    rw [EncodedForest.score_on_eq_ok long, EncodedForest.raw_score_congr portable vector long]
  · intro width rows output long sized
    refine ⟨_, EncodedForest.score_into_on_eq_ok vector width long sized, ?_⟩
    rw [EncodedForest.score_into_on_eq_ok portable width long sized]
    have same : rows.map (encoded.rawScore .portable) =
        rows.map (encoded.rawScore (.ofUnit unit)) :=
      List.map_congr_left fun row held =>
        EncodedForest.raw_score_congr portable vector (long row held)
    rw [same]

/-- Thresholds and features that are NaN, infinite, a zero of either sign or equal. -/
theorem vector_unit_agrees_with_portable_nan :
    let stream : List UInt8 :=
      [3, 0, 0, 0, 1, 0, 0, 0, 1, 0, 0, 0, 8, 0, 0, 0,
        0, 0, 0, 63, 0, 0, 192, 127, 0, 0, 128, 127, 0, 0, 0, 128,
        1, 0, 0, 0, 0, 0, 0, 0, 1, 0, 0, 0, 0, 0, 0, 0]
    let leaves : Array Float := #[0.5, 1.5, 2.5, 3.5, 4.5, 5.5, 6.5, 7.5]
    let row : Row := #[0.0, 0.5]
    let other : Row := #[0.0 / 0.0, 1.0 / 0.0]
    ∃ encoded, EncodedForest.ofParts stream leaves 2 = .ok encoded ∧ VectorUnit.quads.LaneWise ∧
      (∃ score, encoded.score .simd row = .ok score ∧ encoded.score .scalar row = .ok score) ∧
      ∃ scores, encoded.scoreInto .simd 9 [row, other] #[0.0, 0.0] = .ok scores ∧
        encoded.scoreInto .scalar 9 [row, other] #[0.0, 0.0] = .ok scores := by
  intro stream leaves row other
  have reads : Reads (.ofBytes stream) 0
      [⟨⟨0, ⟨.grouped, 1, by decide⟩, ⟨16, stream.drop 16⟩⟩,
        ⟨[⟨⟨⟨0x3F000000⟩, ⟨0x7FC00000⟩, ⟨0x7F800000⟩, ⟨0x80000000⟩⟩, ⟨1, 0, 1, 0⟩⟩], []⟩⟩]
      ⟨48, []⟩ := .block rfl rfl (.done rfl)
  have checked : BlockStream.check stream leaves.size 2 = .ok 1 :=
    EncodedForest.check_eq_ok reads
      (List.forall_mem_singleton.mpr ⟨by simp [Quad.toList], by simp⟩) rfl
  let encoded : EncodedForest := ⟨stream, leaves, 2, 1, checked⟩
  obtain ⟨alone, together⟩ :=
    vector_unit_agrees_with_portable encoded VectorUnit.quads_lane_wise
  have long : ∀ held ∈ [row, other], 2 ≤ held.size := by simp [row, other]
  exact ⟨encoded, EncodedForest.of_parts_eq_ok checked, VectorUnit.quads_lane_wise,
    alone row (Nat.le_refl 2), together 9 [row, other] #[0.0, 0.0] long rfl⟩

end SymmetricTrees
