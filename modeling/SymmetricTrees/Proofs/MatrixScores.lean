import SymmetricTrees.Proofs.ModelScores

/-!
Scores of the rows of a matrix. Each block of rows is written to the places of the
output that its rows have in the matrix, so the workers may get to the blocks in any
order. Main statement: every row gets the score that it has alone.
-/

set_option autoImplicit false

namespace SymmetricTrees

open BlockStream

namespace Consecutive

variable {start stop : Nat} {spans : List Span}

theorem start_le (follow : Consecutive start stop spans) : start ≤ stop := by
  induction follow with
  | done => exact Nat.le_refl _
  | span _ induction => exact Nat.le_trans (Nat.le_add_right _ _) induction

theorem stop_le (follow : Consecutive start stop spans) : ∀ span ∈ spans, span.stop ≤ stop := by
  induction follow with
  | done => exact List.forall_mem_nil _
  | span rest induction => exact List.forall_mem_cons.mpr ⟨rest.start_le, induction⟩

theorem covers (follow : Consecutive start stop spans) {place : Nat} (behind : start ≤ place)
    (before : place < stop) : ∃ span ∈ spans, span.start ≤ place ∧ place < span.stop := by
  induction follow with
  | done => omega
  | @span stop first others _ induction =>
      by_cases inside : place < first.stop
      · exact ⟨first, List.mem_cons_self, behind, inside⟩
      · obtain ⟨span, later, held⟩ := induction (Nat.not_lt.mp inside) before
        exact ⟨span, List.mem_cons_of_mem _ later, held⟩

end Consecutive

theorem rows_of_length_flatten {length : Nat} (positive : 0 < length) {rows : List (List Float32)}
    (each : ∀ row ∈ rows, row.length = length) :
    rowsOfLength length positive rows.flatten = rows.map List.toArray := by
  induction rows with
  | nil =>
      rw [rowsOfLength, if_neg]
      · rfl
      · exact Nat.not_le.mpr positive
  | cons row rest induction =>
      obtain ⟨here, later⟩ := List.forall_mem_cons.mp each
      have room : length ≤ (row :: rest).flatten.length := by
        rw [List.flatten_cons, List.length_append]
        omega
      rw [rowsOfLength, if_pos room, List.flatten_cons, List.take_left' here, List.drop_left' here,
        induction later, List.map_cons]

namespace CompiledModel

variable {View : Type} {library : MatrixLibrary View} {model : CompiledModel} {matrix : View}
  {span : Span}

/-- The rows of a block are the rows of the matrix at the places of its span, also
if they are empty. -/
theorem block_rows_rows_of (lawful : library.Lawful)
    (inside : span.stop ≤ library.rowCount matrix) :
    blockRows library (library.columnCount matrix) (library.rowsOf matrix span) =
      (List.range span.length).map fun place => library.row matrix (span.start + place) := by
  have values : library.rowMajor? (library.rowsOf matrix span) =
      some ((List.range span.length).map fun place =>
        (library.row matrix (span.start + place)).toList).flatten := by
    rw [lawful.rowMajor, lawful.rowCount_rowsOf matrix span inside,
      lawful.columnCount_rowsOf matrix span inside, List.flatMap_def]
    apply congrArg some
    apply congrArg List.flatten
    apply List.map_congr_left
    intro place within
    have bound := List.mem_range.mp within
    unfold MatrixLibrary.row
    apply List.map_congr_left
    intro column width
    exact lawful.entry_rowsOf matrix span place column inside bound (List.mem_range.mp width)
  -- Rows without values leave nothing to cut, which is why they are counted instead.
  have lengths : ∀ row ∈ (List.range span.length).map fun place =>
      (library.row matrix (span.start + place)).toList,
      row.length = library.columnCount matrix := by
    rw [List.forall_mem_map]
    intro place _
    rw [MatrixLibrary.row, List.length_map, List.length_range]
  unfold blockRows
  split
  case isTrue positive =>
    rw [values, Option.getD_some, rows_of_length_flatten positive lengths, List.map_map]
    rfl
  case isFalse none =>
    have empty : ∀ index, library.row matrix index = #[] := by
      intro index
      rw [MatrixLibrary.row, Nat.eq_zero_of_not_pos none]
      rfl
    simp only [lawful.rowCount_rowsOf matrix span inside, empty, List.map_const', List.length_range]

theorem size_row (index : Nat) : (library.row matrix index).size = library.columnCount matrix := by
  rw [MatrixLibrary.row, List.size_toArray, List.length_map, List.length_range]

def rowScore (library : MatrixLibrary View) (model : CompiledModel) (matrix : View) (index : Nat) :
    Float :=
  model.transformedScore (library.row matrix index)

structure IsBlock (library : MatrixLibrary View) (matrix : View) (part : View × Span) : Prop where
  rows : part.1 = library.rowsOf matrix part.2
  inside : part.2.stop ≤ library.rowCount matrix

/-- A block changes the output at the places of its rows, and nowhere else. -/
theorem score_block_eq_ok (lawful : library.Lawful)
    (long : model.featureCount ≤ library.columnCount matrix) {part : View × Span}
    (block : IsBlock library matrix part) {output : Array Float}
    (sized : output.size = library.rowCount matrix) :
    ∃ filled, model.scoreBlock library (library.columnCount matrix) output part = .ok filled ∧
      filled.size = output.size ∧
      ∀ index : Nat, filled[index]? =
        if part.2.start ≤ index ∧ index < part.2.stop then
          some (rowScore library model matrix index)
        else output[index]? := by
  have rows := block_rows_rows_of lawful block.inside
  rw [← block.rows] at rows
  have enough : ∀ row ∈ blockRows library (library.columnCount matrix) part.1,
      model.featureCount ≤ row.size := by
    rw [rows, List.forall_mem_map]
    intro place _
    rw [size_row]
    exact long
  have scores := fill_scores_eq_map enough (List.length_map fun _ => 0.0)
  rw [rows] at scores
  have length : (((List.range part.2.length).map fun place =>
      library.row matrix (part.2.start + place)).map model.transformedScore).length =
        part.2.length := by
    rw [List.length_map, List.length_map, List.length_range]
  have room : part.2.stop ≤ output.size := by
    rw [sized]
    exact block.inside
  obtain ⟨filled, assigned, size, places⟩ := lawful.assign output part.2 _ length room
  refine ⟨filled, ?_, size, ?_⟩
  · simp only [scoreBlock, rows, scores, assigned]
  · intro index
    rw [places]
    split
    case isFalse => rfl
    case isTrue held =>
      have near : index - part.2.start < part.2.length := by
        have far := held.2
        unfold Span.stop at far
        omega
      rw [List.getElem?_map, List.getElem?_map, List.getElem?_range near, Option.map_some,
        Option.map_some, Nat.add_sub_cancel' held.1]
      rfl

/-- What is scored stays scored, and every block adds the places of its rows. -/
theorem score_blocks_eq_ok (lawful : library.Lawful)
    (long : model.featureCount ≤ library.columnCount matrix) {parts : List (View × Span)}
    (blocks : ∀ part ∈ parts, IsBlock library matrix part) {output : Array Float}
    (sized : output.size = library.rowCount matrix) :
    ∃ filled, parts.foldlM (model.scoreBlock library (library.columnCount matrix)) output =
        .ok filled ∧ filled.size = output.size ∧
      ∀ index : Nat, (output[index]? = some (rowScore library model matrix index) ∨
          ∃ part ∈ parts, part.2.start ≤ index ∧ index < part.2.stop) →
        filled[index]? = some (rowScore library model matrix index) := by
  induction parts generalizing output with
  | nil =>
      refine ⟨output, rfl, rfl, ?_⟩
      intro index scored
      cases scored with
      | inl before => exact before
      | inr held =>
          obtain ⟨part, none, -⟩ := held
          cases none
  | cons part others induction =>
      obtain ⟨here, later⟩ := List.forall_mem_cons.mp blocks
      obtain ⟨middle, scored, size, places⟩ := score_block_eq_ok lawful long here sized
      obtain ⟨filled, finished, last, kept⟩ := induction later (size.trans sized)
      refine ⟨filled, ?_, last.trans size, ?_⟩
      · rw [List.foldlM_cons, scored]
        exact finished
      · intro index either
        -- A later block may write a place again, but only with the score of its row.
        apply kept
        rw [places]
        by_cases held : part.2.start ≤ index ∧ index < part.2.stop
        · rw [if_pos held]
          exact .inl rfl
        · rw [if_neg held]
          cases either with
          | inl before => exact .inl before
          | inr covered =>
              obtain ⟨other, member, within⟩ := covered
              cases List.mem_cons.mp member with
              | inl same =>
                  rw [same] at within
                  exact absurd within held
              | inr behind => exact .inr ⟨other, behind, within⟩

end CompiledModel

theorem Machine.Fair.visits_perm {machine : Machine} (fair : machine.Fair) {Part : Type}
    (parts : List Part) (schedule : Schedule) : (machine.visits parts schedule).Perm parts := by
  cases schedule with
  | sequential => exact List.Perm.refl parts
  | parallel workers => exact fair.order_perm parts

namespace CompiledModel

variable {View : Type} {library : MatrixLibrary View} {machine : Machine} {model : CompiledModel}
  {matrix : View}

theorem score_matrix_on_eq_ok (lawful : library.Lawful) (fair : machine.Fair)
    (blocks : 0 < model.settings.blockSize) (threads : Nat)
    (long : model.featureCount ≤ library.columnCount matrix) :
    model.scoreMatrixOn library machine threads matrix =
      .ok ((List.range (library.rowCount matrix)).map (rowScore library model matrix)) := by
  let spans := library.blocks model.settings.blockSize (library.rowCount matrix)
  let output := Array.replicate (library.rowCount matrix) (0.0 : Float)
  have sized : output.size = library.rowCount matrix := Array.size_replicate
  have follow : Consecutive 0 (library.rowCount matrix) spans :=
    lawful.consecutive _ _ blocks
  have parts : (spans.map (library.rowsOf matrix)).zip spans =
      spans.map fun span => (library.rowsOf matrix span, span) := by
    have both := @List.zip_map' Span View Span (library.rowsOf matrix) id spans
    rw [List.map_id] at both
    exact both
  have visited := fair.visits_perm (spans.map fun span => (library.rowsOf matrix span, span))
    (machine.schedule threads)
  have each : ∀ part ∈ machine.visits (spans.map fun span => (library.rowsOf matrix span, span))
      (machine.schedule threads), IsBlock library matrix part := by
    intro part member
    obtain ⟨span, held, same⟩ := List.mem_map.mp (visited.mem_iff.mp member)
    rw [← same]
    exact ⟨rfl, follow.stop_le span held⟩
  obtain ⟨filled, finished, size, scored⟩ := score_blocks_eq_ok lawful long each sized
  have whole : filled.toList =
      (List.range (library.rowCount matrix)).map (rowScore library model matrix) := by
    apply List.ext_getElem?
    intro index
    rw [Array.getElem?_toList]
    by_cases inside : index < library.rowCount matrix
    · obtain ⟨span, held, within⟩ := follow.covers (Nat.zero_le index) inside
      rw [List.getElem?_map, List.getElem?_range inside, Option.map_some]
      apply scored
      exact .inr ⟨_, visited.mem_iff.mpr (List.mem_map_of_mem held), within⟩
    · rw [Array.getElem?_eq_none (by omega), List.getElem?_eq_none]
      rw [List.length_map, List.length_range]
      exact Nat.not_lt.mp inside
  by_cases empty : library.rowCount matrix = 0
  · simp only [scoreMatrixOn, check_features_eq_ok long, empty, if_true]
    rfl
  · simp only [scoreMatrixOn, check_features_eq_ok long, if_neg empty, if_pos blocks,
      Array.size_replicate]
    simp only [spans] at parts
    rw [parts, finished, ← whole]
    rfl

end CompiledModel

namespace Matrix

theorem spans_consecutive {size start stop : Nat} (positive : 0 < size) (ordered : start ≤ stop) :
    Consecutive start stop (spans size positive start stop) := by
  induction gap : stop - start using Nat.strongRecOn generalizing start with
  | ind distance induction =>
      rw [spans]
      split
      case isTrue before =>
        have next : start + min size (stop - start) ≤ stop := by omega
        have nearer : stop - (start + min size (stop - start)) < distance := by omega
        exact @Consecutive.span stop ⟨start, min size (stop - start)⟩ _
          (induction _ nearer next rfl)
      case isFalse reached =>
        have same : start = stop := by omega
        rw [same]
        exact .done

theorem entry_rows_of (matrix : Matrix) (span : Span) (row column : Nat) :
    (matrix.rowsOf span).entry row column = matrix.entry (span.start + row) column := by
  have place : matrix.origin + ↑(span.start + row) * matrix.rowStep =
      matrix.origin + span.start * matrix.rowStep + row * matrix.rowStep := by
    rw [Int.natCast_add, Int.add_mul, Int.add_assoc]
  unfold entry
  rw [place]
  rfl

theorem assign {output : Array Float} {span : Span} {values : List Float}
    (fits : values.length = span.length) (room : span.stop ≤ output.size) :
    ∃ filled, library.assign? output span values = some filled ∧ filled.size = output.size ∧
      ∀ index : Nat, filled[index]? =
        if span.start ≤ index ∧ index < span.stop then values[index - span.start]?
        else output[index]? := by
  have front : (output.extract 0 span.start).size = span.start := by
    unfold Span.stop at room
    rw [Array.size_extract]
    omega
  have middle : (output.extract 0 span.start ++ values.toArray).size = span.stop := by
    rw [Array.size_append, front, List.size_toArray, fits]
    rfl
  refine ⟨_, if_pos ⟨fits, room⟩, ?_, ?_⟩
  · rw [Array.size_append, middle, Array.size_extract]
    omega
  · intro index
    rw [Array.getElem?_append, middle]
    by_cases before : index < span.stop
    · rw [if_pos before, Array.getElem?_append, front]
      by_cases early : index < span.start
      · rw [if_pos early, if_neg (by omega), Array.getElem?_extract, if_pos (by omega),
          Nat.zero_add]
      · rw [if_neg early, if_pos (by omega), List.getElem?_toArray]
    · rw [if_neg before, if_neg (by omega), Array.getElem?_extract]
      split
      case isTrue => rw [Nat.add_sub_cancel' (Nat.not_lt.mp before)]
      case isFalse outside => rw [Array.getElem?_eq_none (by omega)]

theorem library_lawful : library.Lawful where
  consecutive := by
    intro size length positive
    have blocks : library.blocks size length = spans size positive 0 length := dif_pos positive
    rw [blocks]
    exact spans_consecutive positive (Nat.zero_le _)
  rowCount_rowsOf := by
    intro matrix span inside
    have held : span.start + span.length ≤ matrix.rowCount := inside
    apply Nat.min_eq_left
    omega
  columnCount_rowsOf := fun _ _ _ => rfl
  entry_rowsOf := fun matrix span row column _ _ _ => entry_rows_of matrix span row column
  rowMajor := fun _ => rfl
  assign := fun _ _ _ => assign

theorem get_elem?_flat_map_to_list {columnCount : Nat} {rows : List Row}
    (rectangular : ∀ row ∈ rows, row.size = columnCount) {index column : Nat} {row : Row}
    (found : rows[index]? = some row) (width : column < columnCount) :
    (rows.flatMap Array.toList)[index * columnCount + column]? = row[column]? := by
  induction rows generalizing index with
  | nil => cases found
  | cons first rest induction =>
      obtain ⟨here, later⟩ := List.forall_mem_cons.mp rectangular
      have length : first.toList.length = columnCount := here
      rw [List.flatMap_cons]
      cases index with
      | zero =>
          cases found
          rw [Nat.zero_mul, Nat.zero_add, List.getElem?_append_left (by omega),
            Array.getElem?_toList]
      | succ index =>
          have place : (index + 1) * columnCount + column - columnCount =
              index * columnCount + column := by
            rw [Nat.succ_mul]
            omega
          have behind : columnCount ≤ (index + 1) * columnCount + column := by
            rw [Nat.succ_mul]
            omega
          rw [List.getElem?_append_right (by omega), length, place]
          exact induction later found

theorem row_of_rows? {columnCount : Nat} {rows : List Row} {matrix : Matrix}
    (laid : ofRows? columnCount rows = some matrix) :
    matrix.rowCount = rows.length ∧ matrix.columnCount = columnCount ∧
      ∀ (index : Nat) (row : Row), rows[index]? = some row → library.row matrix index = row := by
  unfold ofRows? at laid
  split at laid
  case isFalse => cases laid
  case isTrue rectangular =>
    cases laid
    refine ⟨rfl, rfl, ?_⟩
    intro index row found
    have size : row.size = columnCount := rectangular row (List.mem_of_getElem? found)
    apply Array.ext_getElem?
    intro column
    unfold MatrixLibrary.row
    rw [List.getElem?_toArray, List.getElem?_map]
    by_cases width : column < columnCount
    · have range : (List.range columnCount)[column]? = some column := List.getElem?_range width
      have place : ((0 : Int) + index * columnCount + column * 1).toNat =
          index * columnCount + column := by omega
      have value := get_elem?_flat_map_to_list rectangular found width
      have held := Array.getElem?_eq_getElem (show column < row.size by omega)
      simp only [library, range, Option.map_some, entry, place, Array.getD_eq_getD_getElem?,
        List.getElem?_toArray, value, held, Option.getD_some]
    · have range : (List.range columnCount)[column]? = none :=
        List.getElem?_eq_none (by rw [List.length_range]; omega)
      rw [Array.getElem?_eq_none (by omega)]
      simp only [library, range, Option.map_none]

end Matrix

/-- A matrix has too few columns for a model whether or not it has rows. Otherwise
each of its rows, whatever the layout, the number of workers and the order in which
they get to the blocks, is scored as it is scored alone. -/
theorem matrix_scored_by_rows {View : Type} {library : MatrixLibrary View}
    (lawful : library.Lawful) {machine : Machine} (fair : machine.Fair) (model : CompiledModel)
    (blocks : 1 ≤ model.settings.blockSize) (threads : Nat) (matrix : View) :
    (model.scoreMatrixOn library machine threads matrix =
        .error (.model (.insufficientFeatures model.featureCount (library.columnCount matrix))) ↔
      library.columnCount matrix < model.featureCount) ∧
    (¬library.columnCount matrix < model.featureCount →
      ∃ scores, model.scoreMatrixOn library machine threads matrix = .ok scores ∧
        scores.length = library.rowCount matrix ∧
        ∀ index < library.rowCount matrix, ∃ score,
          model.score (library.row matrix index) = .ok score ∧ scores[index]? = some score) := by
  constructor
  · constructor
    · intro refused
      by_contra enough
      rw [CompiledModel.score_matrix_on_eq_ok lawful fair blocks threads (Nat.not_lt.mp enough)]
        at refused
      cases refused
    · intro few
      simp only [CompiledModel.scoreMatrixOn, CompiledModel.check_features_eq_error few]
  · intro enough
    have long := Nat.not_lt.mp enough
    refine ⟨_, CompiledModel.score_matrix_on_eq_ok lawful fair blocks threads long, ?_, ?_⟩
    · rw [List.length_map, List.length_range]
    · intro index inside
      have wide : model.featureCount ≤ (library.row matrix index).size := by
        rw [CompiledModel.size_row]
        exact long
      refine ⟨_, CompiledModel.score_eq_ok wide, ?_⟩
      rw [List.getElem?_map, List.getElem?_range inside]
      rfl

/-- Three rows, laid out column by column from the last row to the first, in two
blocks of which the second one is scored before the first. -/
theorem matrix_scored_by_rows_backwards :
    let matrix : Matrix :=
      { memory := #[0.25, 0.5, 0.75, 1.0, 0.5, 0.0], rowCount := 3, columnCount := 2
        origin := 2, rowStep := -1, columnStep := 3, inside := by decide }
    let machine : Machine := { workers := 4, hasPool := fun _ => true, order := List.reverse }
    ∃ model : CompiledModel, model.featureCount = 2 ∧ model.settings.blockSize = 2 ∧
      Matrix.library.Lawful ∧ machine.Fair ∧ 1 ≤ model.settings.blockSize ∧
      ∃ scores, model.scoreMatrixOn Matrix.library machine 3 matrix = .ok scores ∧
        scores.length = 3 ∧
        ∀ index < 3, ∃ score,
          model.score (Matrix.library.row matrix index) = .ok score ∧
            scores[index]? = some score := by
  intro matrix machine
  let stream : List UInt8 :=
    [1, 0, 0, 0, 1, 0, 0, 0, 1, 0, 0, 0, 2, 0, 0, 0, 0, 0, 0, 63, 1, 0, 0, 0]
  have reads : Reads (.ofBytes stream) 0
      [⟨⟨0, ⟨.scalar, 1, by decide⟩, ⟨16, stream.drop 16⟩⟩, ⟨[], [⟨1, ⟨0x3F000000⟩⟩]⟩⟩]
      ⟨24, []⟩ := .block rfl rfl (.done rfl)
  have checked : BlockStream.check stream (#[-1.0, 1.0] : Array Float).size 2 = .ok 1 :=
    EncodedForest.check_eq_ok reads (List.forall_mem_singleton.mpr ⟨by simp, by simp⟩) rfl
  let model : CompiledModel :=
    ⟨⟨stream, #[-1.0, 1.0], 2, 1, checked⟩, 2.0, 0.5, { blockSize := 2 }⟩
  have lawful := Matrix.library_lawful
  have fair : machine.Fair := ⟨fun parts => List.reverse_perm parts⟩
  have blocks : 1 ≤ model.settings.blockSize := Nat.le_succ 1
  have enough : ¬Matrix.library.columnCount matrix < model.featureCount := Nat.lt_irrefl 2
  exact ⟨model, rfl, rfl, lawful, fair, blocks,
    (matrix_scored_by_rows lawful fair model blocks 3 matrix).2 enough⟩

end SymmetricTrees
