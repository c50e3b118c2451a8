import SymmetricTrees.Tree

/-!
Matrices of feature values. A library offers views of matrices, whatever their
layout in memory, cuts them into blocks of rows, hands out the values of a block
row by row, and writes scores back into a vector. The laws say what is relied on.
-/

set_option autoImplicit false

namespace SymmetricTrees

structure Span where
  start : Nat
  length : Nat
deriving DecidableEq

def Span.stop (span : Span) : Nat := span.start + span.length

/-- Spans that follow each other without gaps. -/
inductive Consecutive : Nat → Nat → List Span → Prop
  | done {stop : Nat} : Consecutive stop stop []
  | span {stop : Nat} {first : Span} {others : List Span}
      (rest : Consecutive first.stop stop others) : Consecutive first.start stop (first :: others)

/-- Cuts values into rows of one length. Values that do not fill a row are left out. -/
def rowsOfLength (length : Nat) (positive : 0 < length) (values : List Float32) : List Row :=
  if length ≤ values.length then
    (values.take length).toArray :: rowsOfLength length positive (values.drop length)
  else []
termination_by values.length
decreasing_by
  rw [List.length_drop]
  omega

structure MatrixLibrary (View : Type) where
  rowCount : View → Nat
  columnCount : View → Nat
  entry : View → Nat → Nat → Float32
  /-- Cuts an axis of a length into blocks of a size. -/
  blocks (size length : Nat) : List Span
  /-- The rows of a span. -/
  rowsOf : View → Span → View
  /-- All values row by row, absent if they are not to be had as one slice. -/
  rowMajor? : View → Option (List Float32)
  /-- Writes values over a span of a vector, unless the lengths differ. -/
  assign? : Array Float → Span → List Float → Option (Array Float)

namespace MatrixLibrary

variable {View : Type}

def row (library : MatrixLibrary View) (view : View) (index : Nat) : Row :=
  ((List.range (library.columnCount view)).map (library.entry view index)).toArray

structure Lawful (library : MatrixLibrary View) : Prop where
  consecutive : ∀ size length, 0 < size → Consecutive 0 length (library.blocks size length)
  rowCount_rowsOf : ∀ view span, span.stop ≤ library.rowCount view →
    library.rowCount (library.rowsOf view span) = span.length
  columnCount_rowsOf : ∀ view span, span.stop ≤ library.rowCount view →
    library.columnCount (library.rowsOf view span) = library.columnCount view
  entry_rowsOf : ∀ view span row column, span.stop ≤ library.rowCount view →
    row < span.length → column < library.columnCount view →
    library.entry (library.rowsOf view span) row column =
      library.entry view (span.start + row) column
  rowMajor : ∀ view, library.rowMajor? view =
    some ((List.range (library.rowCount view)).flatMap fun row =>
      (List.range (library.columnCount view)).map (library.entry view row))
  assign : ∀ output span values, values.length = span.length → span.stop ≤ output.size →
    ∃ filled, library.assign? output span values = some filled ∧ filled.size = output.size ∧
      ∀ index : Nat, filled[index]? =
        if span.start ≤ index ∧ index < span.stop then values[index - span.start]?
        else output[index]?

end MatrixLibrary

/-- A view of values in memory. One step leads to the next row, another one to the
next column; either may go backwards or stay. -/
structure Matrix where
  memory : Array Float32
  rowCount : Nat
  columnCount : Nat
  origin : Int
  rowStep : Int
  columnStep : Int
  inside : ∀ row < rowCount, ∀ column < columnCount,
    0 ≤ origin + row * rowStep + column * columnStep ∧
      origin + row * rowStep + column * columnStep < memory.size

namespace Matrix

def entry (matrix : Matrix) (row column : Nat) : Float32 :=
  matrix.memory.getD
    (matrix.origin + row * matrix.rowStep + column * matrix.columnStep).toNat 0.0

def rowsOf (matrix : Matrix) (span : Span) : Matrix where
  memory := matrix.memory
  rowCount := min span.length (matrix.rowCount - span.start)
  columnCount := matrix.columnCount
  origin := matrix.origin + span.start * matrix.rowStep
  rowStep := matrix.rowStep
  columnStep := matrix.columnStep
  inside := by
    intro row bound column width
    have inside := matrix.inside (span.start + row) (by omega) column width
    rw [Int.natCast_add, Int.add_mul, ← Int.add_assoc] at inside
    exact inside

def rowMajor (matrix : Matrix) : List Float32 :=
  (List.range matrix.rowCount).flatMap fun row =>
    (List.range matrix.columnCount).map (matrix.entry row)

def spans (size : Nat) (positive : 0 < size) (start stop : Nat) : List Span :=
  if start < stop then
    ⟨start, min size (stop - start)⟩ ::
      spans size positive (start + min size (stop - start)) stop
  else []
termination_by stop - start

def library : MatrixLibrary Matrix where
  rowCount := rowCount
  columnCount := columnCount
  entry := entry
  blocks size length := if positive : 0 < size then spans size positive 0 length else []
  rowsOf := rowsOf
  rowMajor? matrix := some matrix.rowMajor
  assign? output span values :=
    if values.length = span.length ∧ span.stop ≤ output.size then
      some (output.extract 0 span.start ++ values.toArray ++ output.extract span.stop)
    else none

theorem length_flat_map_to_list {columnCount : Nat} {rows : List Row}
    (rectangular : ∀ row ∈ rows, row.size = columnCount) :
    (rows.flatMap Array.toList).length = rows.length * columnCount := by
  induction rows with
  | nil => exact (Nat.zero_mul _).symm
  | cons row rest induction =>
      obtain ⟨here, later⟩ := List.forall_mem_cons.mp rectangular
      rw [List.flatMap_cons, List.length_append, Array.length_toList, here, induction later,
        List.length_cons, Nat.succ_mul, Nat.add_comm]

def ofRows? (columnCount : Nat) (rows : List Row) : Option Matrix :=
  if rectangular : ∀ row ∈ rows, row.size = columnCount then
    some
      { memory := (rows.flatMap Array.toList).toArray
        rowCount := rows.length
        columnCount := columnCount
        origin := 0
        rowStep := columnCount
        columnStep := 1
        inside := by
          intro row bound column width
          have size := length_flat_map_to_list rectangular
          have room : row * columnCount + column < rows.length * columnCount :=
            calc row * columnCount + column < row * columnCount + columnCount :=
                  Nat.add_lt_add_left width _
              _ = (row + 1) * columnCount := (Nat.succ_mul _ _).symm
              _ ≤ rows.length * columnCount := Nat.mul_le_mul_right _ bound
          rw [List.size_toArray, size]
          omega }
  else none

end Matrix

end SymmetricTrees
