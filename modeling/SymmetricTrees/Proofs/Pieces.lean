import SymmetricTrees.Proofs.StreamWriting
import SymmetricTrees.Proofs.StreamFormat

/-!
Places of headers and records. Each of them has its place in a stream, told by what
stands before it, and a cut leaves those whole that end before it.
-/

set_option autoImplicit false

namespace SymmetricTrees

namespace BlockStream

inductive Piece where
  | header
  | wide
  | single
deriving DecidableEq

def Piece.size : Piece → Nat
  | header => 16
  | wide => 32
  | single => 8

def space (pieces : List Piece) : Nat := (pieces.map fun piece => alignedSize piece.size).sum

/-- The first piece that is not whole within a length, and where it starts. -/
def firstMissing? (length : Nat) : Nat → List Piece → Option (Nat × Piece)
  | _, [] => none
  | start, piece :: rest =>
      if start + piece.size ≤ length then firstMissing? length (start + alignedSize piece.size) rest
      else some (start, piece)

def Entry.pieces (entry : Entry) : List Piece :=
  .header :: (List.replicate entry.records.wide.length .wide ++
    List.replicate entry.records.single.length .single)

def piecesOf (entries : List Entry) : List Piece := entries.flatMap Entry.pieces

theorem space_cons (piece : Piece) (pieces : List Piece) :
    space (piece :: pieces) = alignedSize piece.size + space pieces := rfl

theorem space_append (first second : List Piece) :
    space (first ++ second) = space first + space second := by
  rw [space, List.map_append, List.sum_append]
  rfl

theorem aligned_size_size (piece : Piece) :
    alignedSize piece.size = if piece = .wide then 32 else 16 := by
  cases piece <;> rfl

theorem first_missing?_append (length start : Nat) (first second : List Piece) :
    firstMissing? length start (first ++ second) =
      (firstMissing? length start first).or
        (firstMissing? length (start + space first) second) := by
  induction first generalizing start with
  | nil => rfl
  | cons piece rest induction =>
      rw [List.cons_append, firstMissing?, firstMissing?, space_cons, ← Nat.add_assoc]
      split
      · exact induction _
      · rfl

theorem first_missing?_append_eq_none {length start : Nat} {first second : List Piece}
    (whole : firstMissing? length start (first ++ second) = none) :
    firstMissing? length start first = none ∧
      firstMissing? length (start + space first) second = none := by
  rw [first_missing?_append, Option.or_eq_none_iff] at whole
  exact whole

theorem mem_of_first_missing? {length start place : Nat} {pieces : List Piece} {piece : Piece}
    (missing : firstMissing? length start pieces = some (place, piece)) : piece ∈ pieces := by
  induction pieces generalizing start with
  | nil => cases missing
  | cons first rest induction =>
      rw [firstMissing?] at missing
      split at missing
      · exact List.mem_cons_of_mem _ (induction missing)
      · cases missing
        exact List.mem_cons_self

/-- A header that is missing as the first piece opens a block, and the blocks
before it are whole. -/
theorem blocks_before_missing_header {length start place : Nat} {entries : List Entry}
    (missing : firstMissing? length start (piecesOf entries) = some (place, .header)) :
    ∃ kept lost, entries = kept ++ lost ∧ lost ≠ [] ∧
      firstMissing? length start (piecesOf kept) = none ∧
      place = start + space (piecesOf kept) := by
  induction entries generalizing start with
  | nil => cases missing
  | cons entry others induction =>
      rw [piecesOf, List.flatMap_cons, first_missing?_append] at missing
      cases here : firstMissing? length start entry.pieces with
      | none =>
          rw [here, Option.none_or] at missing
          obtain ⟨kept, lost, split, more, whole, placed⟩ := induction missing
          refine ⟨entry :: kept, lost, ?_, more, ?_, ?_⟩
          · rw [split, List.cons_append]
          · rw [piecesOf, List.flatMap_cons, first_missing?_append, here, Option.none_or]
            exact whole
          · rw [placed, piecesOf, piecesOf, List.flatMap_cons, space_append, Nat.add_assoc]
      | some found =>
          rw [here, Option.some_or, Option.some.injEq] at missing
          rw [missing, Entry.pieces, firstMissing?] at here
          split at here
          case isTrue =>
            have record := mem_of_first_missing? here
            simp [List.mem_replicate] at record
          case isFalse =>
            cases here
            exact ⟨[], entry :: others, rfl, List.cons_ne_nil _ _, rfl, rfl⟩

variable {Value : Type} {layout : Layout Value} {bytes middle after : List UInt8}
  {featureCount length start place : Nat} {piece : Piece}

/-- Pieces one after the other at the front of the bytes. Only the end of the
stream cuts the padding of a piece short. -/
inductive Laid : List UInt8 → List Piece → List UInt8 → Prop
  | nil {bytes : List UInt8} : Laid bytes [] bytes
  | cons {bytes middle after : List UInt8} {piece : Piece} {pieces : List Piece}
      (first : bytes.length = alignedSize piece.size + middle.length ∨
        piece.size ≤ bytes.length ∧ bytes.length < alignedSize piece.size ∧ middle = [])
      (others : Laid middle pieces after) : Laid bytes (piece :: pieces) after

namespace Laid

variable {pieces more : List Piece}

theorem append (laid : Laid bytes pieces middle) (others : Laid middle more after) :
    Laid bytes (pieces ++ more) after := by
  induction laid with
  | nil => exact others
  | cons first _ induction => exact .cons first (induction others)

theorem length_le (laid : Laid bytes pieces after) :
    bytes.length ≤ space pieces + after.length := by
  induction laid with
  | nil => exact Nat.le_of_eq (Nat.zero_add _).symm
  | @cons bytes middle after piece pieces first _ induction =>
      rw [space_cons]
      cases first with
      | inl full => omega
      | inr short => omega

theorem whole (laid : Laid bytes pieces after)
    (placed : bytes ≠ [] → start + bytes.length = length) :
    firstMissing? length start pieces = none := by
  induction laid generalizing start with
  | nil => rfl
  | @cons bytes middle after piece pieces first others induction =>
      have inhabited : 0 < piece.size := by cases piece <;> decide
      have aligned := size_le_aligned_size piece.size
      have present : bytes ≠ [] := by
        intro empty
        subst empty
        rw [List.length_nil] at first
        omega
      have ends := placed present
      rw [firstMissing?, if_pos (by omega)]
      apply induction
      intro more
      cases first with
      | inl full => omega
      | inr short => exact absurd short.2.2 more

end Laid

theorem Layout.Opens.laid (piece : Piece) (opens : ∃ value : Value, layout.Opens bytes value middle)
    (sized : piece.size = layout.size) : Laid bytes [piece] middle := by
  obtain ⟨value, padding, rfl, whole⟩ := opens
  have aligned := size_le_aligned_size layout.size
  refine .cons ?_ .nil
  rw [List.length_append, List.length_append, layout.length_encode, sized]
  cases whole with
  | inl full => exact .inl (by omega)
  | inr cut => exact .inr ⟨by omega, by rw [cut.2, List.length_nil]; omega, cut.2⟩

theorem Layout.Spells.laid {values : List Value} (spells : layout.Spells bytes values after)
    (piece : Piece) (sized : piece.size = layout.size) :
    Laid bytes (List.replicate values.length piece) after := by
  induction spells with
  | nil => exact .nil
  | cons first _ induction => exact (Layout.Opens.laid piece ⟨_, first⟩ sized).append induction

theorem Entry.Opens.laid {entry : Entry} (opens : entry.Opens featureCount bytes after) :
    Laid bytes entry.pieces after := by
  obtain ⟨header, body, middle, announced, -, wide, single⟩ := opens.header
  have records := (wide.laid .wide rfl).append (single.laid .single rfl)
  exact (Layout.Opens.laid .header ⟨header, announced⟩ rfl).append records

theorem Blocks.laid {entries : List Entry} (blocks : Blocks featureCount bytes entries after) :
    Laid bytes (piecesOf entries) after := by
  induction blocks with
  | nil => exact .nil
  | cons first _ induction => exact first.laid.append induction

theorem Layout.Opens.take {value : Value} (opens : layout.Opens bytes value after)
    (present : start + layout.size ≤ length) :
    layout.Opens (bytes.take (length - start)) value
      (after.take (length - (start + alignedSize layout.size))) := by
  obtain ⟨padding, rfl, whole⟩ := opens
  have aligned := size_le_aligned_size layout.size
  have kept : length - start - layout.size - padding.length =
      length - (start + layout.size + padding.length) := by omega
  refine ⟨padding.take (length - start - layout.size), ?_, ?_⟩
  · rw [List.take_append, layout.length_encode, List.take_append, kept,
      List.take_of_length_le (by rw [layout.length_encode]; omega)]
    cases whole with
    | inl full => rw [full, Nat.add_assoc, Nat.add_sub_cancel' aligned]
    | inr cut => rw [cut.2, List.take_nil, List.take_nil]
  · rw [List.length_take]
    cases whole with
    | inl full =>
        by_cases room : length - start < alignedSize layout.size
        · refine .inr ⟨by omega, ?_⟩
          rw [show length - (start + alignedSize layout.size) = 0 by omega, List.take_zero]
        · exact .inl (by omega)
    | inr cut => exact .inr ⟨by omega, by rw [cut.2, List.take_nil]⟩

theorem Layout.Spells.take {values : List Value} (spells : layout.Spells bytes values after)
    (piece : Piece) (sized : piece.size = layout.size)
    (whole : firstMissing? length start (List.replicate values.length piece) = none) :
    layout.Spells (bytes.take (length - start)) values
      (after.take (length - (start + space (List.replicate values.length piece)))) := by
  induction spells generalizing start with
  | nil => exact .nil
  | cons first _ induction =>
      rw [List.length_cons, List.replicate_succ, firstMissing?] at whole
      rw [List.length_cons, List.replicate_succ, space_cons, ← Nat.add_assoc]
      split at whole
      case isTrue present =>
        rw [sized] at present whole ⊢
        exact .cons (first.take present) (induction whole)
      case isFalse => cases whole

theorem Entry.Opens.take {entry : Entry} (opens : entry.Opens featureCount bytes after)
    (whole : firstMissing? length start entry.pieces = none) :
    entry.Opens featureCount (bytes.take (length - start))
      (after.take (length - (start + space entry.pieces))) := by
  obtain ⟨header, body, middle, announced, announces, wide, single⟩ := opens.header
  rw [Entry.pieces, firstMissing?] at whole
  split at whole
  case isFalse => cases whole
  case isTrue present =>
    have records := first_missing?_append_eq_none whole
    have singleTaken := single.take .single rfl records.2
    rw [Entry.pieces, space_cons, space_append, ← Nat.add_assoc, ← Nat.add_assoc]
    exact ⟨⟨header, _, _, announced.take present, announces, wide.take .wide rfl records.1,
      singleTaken⟩, opens.complete, opens.within⟩

theorem Blocks.take {entries : List Entry} (blocks : Blocks featureCount bytes entries after)
    (whole : firstMissing? length start (piecesOf entries) = none) :
    Blocks featureCount (bytes.take (length - start)) entries
      (after.take (length - (start + space (piecesOf entries)))) := by
  induction blocks generalizing start with
  | nil => exact .nil
  | cons first _ induction =>
      have parts := first_missing?_append_eq_none whole
      rw [piecesOf, List.flatMap_cons, space_append, ← Nat.add_assoc]
      exact .cons (first.take parts.1) (induction parts.2)

end BlockStream

end SymmetricTrees
