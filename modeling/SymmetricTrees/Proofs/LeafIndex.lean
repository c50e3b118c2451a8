import Mathlib.Tactic.Ring
import SymmetricTrees.Scoring.Row

/-!
Leaf indices as numbers. A tree, a scalar block, a block of chunks and a lane of
a group each build the leaf index of a row in words by shifts and by bitwise
union. On a row that has the tested features all of them arrive at the number
whose bit at each level is the outcome of that level's split. Lanes of a chunk
are joined by an addition, which no carry disturbs.
-/

set_option autoImplicit false

namespace SymmetricTrees

/-- The outcome of a split, a missing feature counting as no. -/
def Split.holds (split : Split) (row : Row) : Bool := (split.outcome? row).getD false

def Row.Covers (row : Row) (splits : List Split) : Prop :=
  ∀ split ∈ splits, split.feature.toNat < row.size

theorem Split.outcome?_eq_some {split : Split} {row : Row}
    (inside : split.feature.toNat < row.size) :
    split.outcome? row = some (split.holds row) := by
  simp only [holds, outcome?, Array.getElem?_eq_getElem inside, Option.map_some,
    Option.getD_some]

namespace LeafIndex

/-- The number whose bit at each level is the outcome of that level's split. -/
def number (row : Row) : List Split → Nat
  | [] => 0
  | split :: deeper => (split.holds row).toNat + 2 * number row deeper

theorem number_lt (row : Row) (splits : List Split) : number row splits < 2 ^ splits.length := by
  induction splits with
  | nil => exact Nat.one_pos
  | cons split deeper induction =>
      have bit : (split.holds row).toNat ≤ 1 := Bool.toNat_le _
      rw [number, List.length_cons, Nat.pow_succ]
      omega

theorem number_append (row : Row) (upper lower : List Split) :
    number row (upper ++ lower) = number row upper + 2 ^ upper.length * number row lower := by
  induction upper with
  | nil => simp [number]
  | cons split deeper induction =>
      rw [List.cons_append, number, number, induction, List.length_cons, Nat.pow_succ]
      ring

theorem test_bit_number (row : Row) (splits : List Split) (level : Nat) :
    (number row splits).testBit level = splits[level]?.any (·.holds row) := by
  induction splits generalizing level with
  | nil => exact Nat.zero_testBit level
  | cons split deeper induction =>
      have bit : (split.holds row).toNat ≤ 1 := Bool.toNat_le _
      cases level with
      | zero =>
          rw [number, Nat.testBit_zero, Nat.add_mul_mod_self_left, List.getElem?_cons_zero,
            Option.any_some]
          cases split.holds row <;> rfl
      | succ level =>
          have lower : ((split.holds row).toNat + 2 * number row deeper) / 2 =
              number row deeper := by omega
          rw [number, Nat.testBit_succ, lower, List.getElem?_cons_succ]
          exact induction level

def setOutcomes (row : Row) : Nat → UInt32 → List Split → UInt32
  | _, word, [] => word
  | level, word, split :: deeper =>
      setOutcomes row (level + 1)
        (word ||| ((split.holds row).toUInt32 <<< UInt32.ofNat level)) deeper

theorem shift_left_outcome_to_nat {level : Nat} (inside : level < 32) (outcome : Bool) :
    (outcome.toUInt32 <<< UInt32.ofNat level).toNat = 2 ^ level * outcome.toNat := by
  have amount : (UInt32.ofNat level).toNat = level :=
    UInt32.toNat_ofNat_of_lt' (by simp only [UInt32.size]; omega)
  have room : 2 ^ level < 2 ^ 32 := Nat.pow_lt_pow_right (by decide) inside
  have bit : outcome.toUInt32.toNat = outcome.toNat := by cases outcome <;> rfl
  have small : outcome.toNat ≤ 1 := Bool.toNat_le _
  rw [UInt32.toNat_shiftLeft, amount, bit, Nat.mod_eq_of_lt inside, Nat.shiftLeft_eq, Nat.mul_comm]
  exact Nat.mod_eq_of_lt (lt_of_le_of_lt (Nat.mul_le_mul_left _ small) (by simpa using room))

/-- A bit above all bits of a word is added by a bitwise union. -/
theorem or_bit_to_nat {word : UInt32} {level : Nat} (fits : word.toNat < 2 ^ level)
    (inside : level < 32) (outcome : Bool) :
    (word ||| (outcome.toUInt32 <<< UInt32.ofNat level)).toNat =
      word.toNat + 2 ^ level * outcome.toNat := by
  rw [UInt32.toNat_or, shift_left_outcome_to_nat inside, Nat.or_comm,
    ← Nat.two_pow_add_eq_or_of_lt fits, Nat.add_comm]

theorem or_bit_lt {word : UInt32} {level bound : Nat} (fits : word.toNat < 2 ^ level)
    (inside : level < 32) (lower : level < bound) (outcome : Bool) :
    (word ||| (outcome.toUInt32 <<< UInt32.ofNat level)).toNat < 2 ^ bound := by
  have bit : outcome.toNat ≤ 1 := Bool.toNat_le _
  have room : 2 ^ (level + 1) ≤ 2 ^ bound := Nat.pow_le_pow_right (by decide) lower
  have added : 2 ^ level * outcome.toNat ≤ 2 ^ level := by
    simpa using Nat.mul_le_mul_left (2 ^ level) bit
  rw [or_bit_to_nat fits inside]
  rw [Nat.pow_succ] at room
  omega

theorem set_outcomes_to_nat (row : Row) (splits : List Split) {level : Nat} {word : UInt32}
    (fits : word.toNat < 2 ^ level) (inside : level + splits.length ≤ 32) :
    (setOutcomes row level word splits).toNat = word.toNat + 2 ^ level * number row splits := by
  induction splits generalizing level word with
  | nil => simp [setOutcomes, number]
  | cons split deeper induction =>
      have within : level < 32 := by simp only [List.length_cons] at inside; omega
      have set := or_bit_to_nat fits within (split.holds row)
      have fitsNext := or_bit_lt fits within (Nat.lt_succ_self level) (split.holds row)
      rw [setOutcomes, induction fitsNext (by simp only [List.length_cons] at inside; omega), set,
        number, Nat.pow_succ]
      ring

def levelBits (level : Nat) : Quad UInt32 := Quad.splat (1 <<< UInt32.ofNat level)

/-- Bits for four consecutive splits, one level higher in each lane. -/
def chunkBits (chunk : Nat) : Quad UInt32 :=
  (⟨1, 2, 4, 8⟩ : Quad UInt32).shiftLeft (UInt32.ofNat (4 * chunk))

/-- Collects in each lane the bits of the splits that hold there. -/
def collect (row : Row) (bits : Nat → Quad UInt32) :
    Nat → Quad UInt32 → List (Quad Split) → Quad UInt32
  | _, words, [] => words
  | place, words, splits :: rest =>
      collect row bits (place + 1)
        (words.or (splits.map₂ (fun split bit => if split.holds row then bit else 0) (bits place)))
        rest

theorem ite_bit_eq_shift_left (outcome : Bool) (amount : UInt32) :
    (if outcome then 1 <<< amount else 0) = outcome.toUInt32 <<< amount := by
  cases outcome with
  | false => exact (UInt32.zero_shiftLeft).symm
  | true => rfl

/-- A lane of a group is not influenced by its neighbours. -/
theorem collect_level_bits (row : Row) (level : Nat) (words : Quad UInt32)
    (splits : List (Quad Split)) :
    collect row levelBits level words splits =
      ⟨setOutcomes row level words.lane0 (splits.map Quad.lane0),
        setOutcomes row level words.lane1 (splits.map Quad.lane1),
        setOutcomes row level words.lane2 (splits.map Quad.lane2),
        setOutcomes row level words.lane3 (splits.map Quad.lane3)⟩ := by
  induction splits generalizing level words with
  | nil => rfl
  | cons head rest induction =>
      rw [collect, induction]
      simp only [List.map_cons, setOutcomes, Quad.or, Quad.map₂, levelBits, Quad.splat,
        ite_bit_eq_shift_left]

/-- The words hold no bit at the levels that their lane gets in a chunk or later. -/
structure Below (chunk : Nat) (words : Quad UInt32) : Prop where
  lane0 : words.lane0.toNat < 2 ^ (4 * chunk)
  lane1 : words.lane1.toNat < 2 ^ (4 * chunk + 1)
  lane2 : words.lane2.toNat < 2 ^ (4 * chunk + 2)
  lane3 : words.lane3.toNat < 2 ^ (4 * chunk + 3)

def total (words : Quad UInt32) : Nat :=
  words.lane0.toNat + words.lane1.toNat + words.lane2.toNat + words.lane3.toNat

theorem sum_to_nat {words : Quad UInt32} (small : total words < 2 ^ 32) :
    words.sum.toNat = total words := by
  simp only [total] at small ⊢
  simp only [Quad.sum, UInt32.toNat_add]
  omega

theorem chunk_bits_eq {chunk : Nat} (inside : chunk < 8) :
    chunkBits chunk =
      ⟨1 <<< UInt32.ofNat (4 * chunk), 1 <<< UInt32.ofNat (4 * chunk + 1),
        1 <<< UInt32.ofNat (4 * chunk + 2), 1 <<< UInt32.ofNat (4 * chunk + 3)⟩ := by
  have all : ∀ chunk : Fin 8, chunkBits chunk =
      ⟨1 <<< UInt32.ofNat (4 * chunk), 1 <<< UInt32.ofNat (4 * chunk + 1),
        1 <<< UInt32.ofNat (4 * chunk + 2), 1 <<< UInt32.ofNat (4 * chunk + 3)⟩ := by
    decide
  exact all ⟨chunk, inside⟩

theorem collect_chunk_eq {chunk : Nat} (inside : chunk < 8) (words : Quad UInt32) (row : Row)
    (splits : Quad Split) :
    words.or (splits.map₂ (fun split bit => if split.holds row then bit else 0) (chunkBits chunk)) =
      ⟨words.lane0 ||| ((splits.lane0.holds row).toUInt32 <<< UInt32.ofNat (4 * chunk)),
        words.lane1 ||| ((splits.lane1.holds row).toUInt32 <<< UInt32.ofNat (4 * chunk + 1)),
        words.lane2 ||| ((splits.lane2.holds row).toUInt32 <<< UInt32.ofNat (4 * chunk + 2)),
        words.lane3 ||| ((splits.lane3.holds row).toUInt32 <<< UInt32.ofNat (4 * chunk + 3))⟩ := by
  simp only [Quad.or, Quad.map₂, chunk_bits_eq inside, ite_bit_eq_shift_left]

theorem collect_chunk_to_nat {chunk : Nat} (inside : chunk < 8) {words : Quad UInt32}
    (below : Below chunk words) (row : Row) (splits : Quad Split) :
    let next := words.or
      (splits.map₂ (fun split bit => if split.holds row then bit else 0) (chunkBits chunk))
    Below (chunk + 1) next ∧
      total next = total words + 2 ^ (4 * chunk) * number row splits.toList := by
  intro next
  have inside0 : 4 * chunk < 32 := by omega
  have inside1 : 4 * chunk + 1 < 32 := by omega
  have inside2 : 4 * chunk + 2 < 32 := by omega
  have inside3 : 4 * chunk + 3 < 32 := by omega
  -- Every lane gets a level of its own above all its bits, so the numbers of the
  -- lanes can be added instead of the words.
  rw [show next = _ from collect_chunk_eq inside words row splits]
  constructor
  · exact ⟨or_bit_lt below.lane0 inside0 (by omega) _, or_bit_lt below.lane1 inside1 (by omega) _,
      or_bit_lt below.lane2 inside2 (by omega) _, or_bit_lt below.lane3 inside3 (by omega) _⟩
  · simp only [total, or_bit_to_nat below.lane0 inside0, or_bit_to_nat below.lane1 inside1,
      or_bit_to_nat below.lane2 inside2, or_bit_to_nat below.lane3 inside3, Quad.toList, number]
    ring

theorem total_collect_chunk_bits (row : Row) (splits : List (Quad Split)) {chunk : Nat}
    {words : Quad UInt32} (below : Below chunk words) (inside : chunk + splits.length ≤ 8) :
    total (collect row chunkBits chunk words splits) =
      total words + 2 ^ (4 * chunk) * number row (splits.flatMap Quad.toList) := by
  induction splits generalizing chunk words with
  | nil => simp [collect, number]
  | cons head rest induction =>
      simp only [List.length_cons] at inside
      obtain ⟨belowNext, totalNext⟩ := collect_chunk_to_nat (by omega) below row head
      have four : head.toList.length = 4 := rfl
      rw [collect, induction belowNext (by omega), totalNext, List.flatMap_cons, number_append,
        four, Nat.mul_add 4 chunk 1, Nat.pow_add]
      ring

/-- No carry disturbs the addition of the four lanes. -/
theorem sum_collect_chunk_bits (row : Row) (splits : List (Quad Split))
    (inside : splits.length < 8) :
    (collect row chunkBits 0 (Quad.splat 0) splits).sum.toNat =
      number row (splits.flatMap Quad.toList) := by
  have below : Below 0 (Quad.splat 0) := ⟨by decide, by decide, by decide, by decide⟩
  have count := Quad.length_flat_map_to_list splits
  have small := number_lt row (splits.flatMap Quad.toList)
  have room : 2 ^ (splits.flatMap Quad.toList).length ≤ 2 ^ 32 :=
    Nat.pow_le_pow_right (by decide) (by omega)
  have collected := total_collect_chunk_bits row splits below (by omega)
  have empty : total (Quad.splat 0) = 0 := rfl
  rw [empty, Nat.mul_zero, Nat.pow_zero, Nat.one_mul, Nat.zero_add] at collected
  rw [sum_to_nat (by omega), collected]

end LeafIndex

namespace Tree

open LeafIndex

theorem foldl_m_set_outcome?_eq_some {row : Row} {splits : List Split}
    (covers : row.Covers splits) (level : Nat) (word : UInt32) :
    (splits.zipIdx level).foldlM (setOutcome? row) word =
      some (setOutcomes row level word splits) := by
  induction splits generalizing level word with
  | nil => rfl
  | cons split deeper induction =>
      have known := Split.outcome?_eq_some (covers split List.mem_cons_self)
      have others : row.Covers deeper := fun lower member =>
        covers lower (List.mem_cons_of_mem _ member)
      rw [List.zipIdx_cons, List.foldlM_cons]
      simp only [setOutcome?, known, Option.map_some, Option.bind_eq_bind, Option.bind_some]
      exact induction others (level + 1) _

theorem leaf_word?_eq_some {row : Row} {splits : List Split} (covers : row.Covers splits) :
    leafWord? row splits = some (setOutcomes row 0 0 splits) :=
  foldl_m_set_outcome?_eq_some covers 0 0

theorem covers_of_fits {tree : Tree} {row : Row} {featureCount : Nat}
    (fits : tree.Fits featureCount) (long : featureCount ≤ row.size) : row.Covers tree.splits :=
  fun split tested => Nat.lt_of_lt_of_le (fits split tested) long

/-- The leaf value of a row, zero where the row lacks a tested feature. -/
def value (tree : Tree) (row : Row) : Float := (tree.predict? row).getD 0.0

theorem leaf_index?_eq_some {tree : Tree} {row : Row} (covers : row.Covers tree.splits) :
    tree.leafIndex? row = some (number row tree.splits) := by
  have within := tree.depth_le
  have empty : (0 : UInt32).toNat < 2 ^ 0 := by decide
  have index := set_outcomes_to_nat row tree.splits empty (by simp only [maxDepth] at within; omega)
  rw [leafIndex?, leaf_word?_eq_some covers, Option.map_some, index]
  simp

theorem number_lt_leaves (tree : Tree) (row : Row) :
    number row tree.splits < tree.leaves.size := by
  rw [tree.leaves_size, Nat.one_shiftLeft]
  exact number_lt row tree.splits

theorem predict?_eq_some {tree : Tree} {row : Row} (covers : row.Covers tree.splits) :
    tree.predict? row = some (tree.value row) := by
  have found : tree.predict? row = tree.leaves[number row tree.splits]? := by
    simp only [predict?, leaf_index?_eq_some covers, Option.bind_eq_bind, Option.bind_some]
  rw [value, found, Array.getElem?_eq_getElem (tree.number_lt_leaves row), Option.getD_some]

theorem leaves_get_elem?_number {tree : Tree} {row : Row} (covers : row.Covers tree.splits) :
    tree.leaves[number row tree.splits]? = some (tree.value row) := by
  rw [← predict?_eq_some covers]
  simp only [predict?, leaf_index?_eq_some covers, Option.bind_eq_bind, Option.bind_some]

end Tree

end SymmetricTrees
