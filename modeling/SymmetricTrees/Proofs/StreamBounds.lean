import SymmetricTrees.Proofs.Visits

/-!
How far reads move and how many leaf values a stream can name. A read keeps the
sum of position and remaining length, so a walk to the end of the stream stands
at its length. A block takes at most `2 ^ 23` leaf values for each of its bytes:
streams of less than `2 ^ 40` bytes never ask for as many as a 64-bit word counts.
-/

set_option autoImplicit false

namespace SymmetricTrees.BlockStream

namespace Reader

variable {Value : Type} {reader after : Reader} {layout : Layout Value}

def finish (reader : Reader) : Nat := reader.position + reader.rest.length

theorem read?_finish {value : Value} (taken : reader.read? layout = some (value, after)) :
    after.finish = reader.finish := by
  obtain ⟨record, suffix, found, -, rfl⟩ := read?_eq_some_iff.mp taken
  obtain ⟨length, split⟩ := eq_append_of_split_exact? found
  simp only [finish, split, List.length_append, List.length_take, List.length_drop, length]
  omega

theorem read_many?_finish {count : Nat} {values : List Value}
    (taken : reader.readMany? layout count = some (values, after)) :
    after.finish = reader.finish ∧
      after.rest.length + count * layout.size ≤ reader.rest.length := by
  induction count generalizing reader values with
  | zero =>
      simp only [readMany?, Option.some.injEq, Prod.mk.injEq] at taken
      obtain ⟨-, rfl⟩ := taken
      exact ⟨rfl, by omega⟩
  | succ count induction =>
      obtain ⟨value, middle, rest, first, others, -⟩ := read_many?_succ_eq_some_iff.mp taken
      obtain ⟨kept, shorter⟩ := induction others
      have firstShorter := read?_length first
      refine ⟨kept.trans (read?_finish first), ?_⟩
      rw [Nat.succ_mul]
      omega

theorem read_records?_finish {block : Block} {records : Records}
    (taken : reader.readRecords? block = some (records, after)) :
    after.finish = reader.finish ∧
      after.rest.length + 32 * block.wideCount + 8 * block.singleCount ≤ reader.rest.length := by
  obtain ⟨middle, wideTaken, singleTaken⟩ := read_records?_eq_some_iff.mp taken
  obtain ⟨wideKept, wideShorter⟩ := read_many?_finish wideTaken
  obtain ⟨singleKept, singleShorter⟩ := read_many?_finish singleTaken
  have wideSize : WideSplit.layout.size = 32 := rfl
  have singleSize : splitLayout.size = 8 := rfl
  rw [wideSize] at wideShorter
  rw [singleSize] at singleShorter
  exact ⟨singleKept.trans wideKept, by omega⟩

theorem try_next_block_finish {block : Block}
    (next : reader.tryNextBlock = (.ok (some block), after)) :
    after.finish = reader.finish ∧ after.rest.length + 16 ≤ reader.rest.length := by
  obtain ⟨header, taken, -⟩ := header_of_try_next_block next
  exact ⟨read?_finish taken, read?_length taken⟩

end Reader

theorem leaf_word_to_nat {kind : Kind} {depth : UInt32} (shallow : depth.toNat ≤ maxDepth) :
    (kind.leafWord depth).toNat = kind.treeCount <<< depth.toNat := by
  have few : kind.treeCount ≤ 4 := by cases kind <;> decide
  have amount : depth.toUInt64.toNat = depth.toNat := by simp
  have inside : depth.toNat < 64 := by simp only [maxDepth] at shallow; omega
  have word : kind.treeCount.toUInt64.toNat = kind.treeCount :=
    UInt64.toNat_ofNat_of_lt' (by simp only [UInt64.size]; omega)
  have power : 2 ^ depth.toNat ≤ 2 ^ 31 := Nat.pow_le_pow_right (by decide) shallow
  have room : kind.treeCount * 2 ^ depth.toNat < 2 ^ 64 := by
    calc kind.treeCount * 2 ^ depth.toNat ≤ 4 * 2 ^ 31 := Nat.mul_le_mul few power
      _ < 2 ^ 64 := by decide
  rw [Kind.leafWord, UInt64.toNat_shiftLeft, amount, word, Nat.mod_eq_of_lt inside,
    Nat.shiftLeft_eq]
  exact Nat.mod_eq_of_lt room

/-- The header of a good block counts its leaf values in 32 bits. -/
theorem leaf_count_lt {reader after : Reader} {block : Block}
    (next : reader.tryNextBlock = (.ok (some block), after)) : block.leafCount < 2 ^ 32 := by
  obtain ⟨header, -, -, depth, agreed⟩ := Reader.header_of_try_next_block next
  have same : header.leafCount.toUInt64 = block.kind.leafWord header.depth := by
    simp only [Header.agrees, Bool.and_eq_true, beq_iff_eq] at agreed
    exact agreed.2
  have count : header.leafCount.toNat = block.leafCount := by
    have numbers := congrArg UInt64.toNat same
    rw [leaf_word_to_nat (by rw [depth]; exact block.depth_le), depth,
      UInt32.toNat_toUInt64] at numbers
    exact numbers
  rw [← count]
  exact header.leafCount.toNat_lt

/-- A block takes at most `2 ^ 23` leaf values for each of its bytes. -/
theorem leaf_count_le_bytes {block : Block} (counted : block.leafCount < 2 ^ 32) :
    block.leafCount ≤ 2 ^ 23 * (16 + 32 * block.wideCount + 8 * block.singleCount) := by
  obtain ⟨kind, depth, shallow⟩ := block
  have alone : ∀ depth : Fin 32,
      1 <<< depth.val ≤ 2 ^ 23 * (16 + 32 * (depth.val / 4) + 8 * (depth.val % 4)) ∧
        1 <<< depth.val ≤ 2 ^ 23 * (16 + 8 * depth.val) := by decide
  -- Four trees of depth 30 or 31 break the bound, but no header can count
  -- their leaf values.
  have four : ∀ depth : Fin 32, 4 <<< depth.val < 2 ^ 32 →
      4 <<< depth.val ≤ 2 ^ 23 * (16 + 32 * depth.val) := by decide
  have inside : depth < 32 := Nat.lt_succ_of_le shallow
  cases kind with
  | scalar => exact (alone ⟨depth, inside⟩).2
  | chunks => exact (alone ⟨depth, inside⟩).1
  | grouped => exact four ⟨depth, inside⟩ counted

namespace Reads

variable {reader last : Reader} {offset : Nat} {visits : List Visit}

theorem finish (reads : Reads reader offset visits last) : last.finish = reader.finish := by
  induction reads with
  | done => rfl
  | block next taken _ induction =>
      rw [induction, (Reader.read_records?_finish taken).1, (Reader.try_next_block_finish next).1]

theorem last_position (reads : Reads reader offset visits last) :
    last.position = reader.finish := by
  have exhausted := List.isEmpty_iff.mp reads.exhausted
  have finish := reads.finish
  simp only [Reader.finish, exhausted, List.length_nil, Nat.add_zero] at finish ⊢
  exact finish

theorem leaf_total_le (reads : Reads reader offset visits last) :
    leafTotal visits ≤ 2 ^ 23 * reader.rest.length := by
  induction reads with
  | done => exact Nat.zero_le _
  | @block reader body after last offset block records visits next taken _ induction =>
      have here := leaf_count_le_bytes (leaf_count_lt next)
      have header := (Reader.try_next_block_finish next).2
      have bytes := (Reader.read_records?_finish taken).2
      rw [leaf_total_cons]
      simp only at here ⊢
      omega

end Reads

end SymmetricTrees.BlockStream
