import SymmetricTrees.Proofs.BlockLayouts
import SymmetricTrees.Proofs.StreamWriting
import SymmetricTrees.Proofs.TreeReading

/-!
One leaf index, whatever layout a list of splits has. The kernel of a row is run
on written bytes: on one split per record, on chunks of four splits with a tail,
and on a lane of four trees. It finds the leaf index of a tree with these splits.
The lanes of a chunk hold levels of their own, so that their sum is their union.
-/

set_option autoImplicit false

namespace SymmetricTrees

open BlockStream Scoring

namespace BlockStream.Entry

/-- Reading the bytes of a block for a row yields these leaf positions, and
nothing behind the block is touched. -/
def Finds (entry : Entry) (ops : LaneOps) (row : Row) (positions : List Nat) : Prop :=
  ∀ (position : Nat) (rest : List UInt8), ∃ body after,
    (⟨position, entry.bytes ++ rest⟩ : Reader).nextBlock? = (some entry.block, body) ∧
      leafPositions ops row entry.block body = .ok (positions, after) ∧ after.rest = rest

variable {entry : Entry} {ops : LaneOps} {row : Row}

theorem finds_positions (laneWise : ops.LaneWise) (complete : entry.Complete)
    (counted : entry.block.leafCount < 2 ^ 32)
    (covers : ∀ splits ∈ entry.splitLists, row.Covers splits) :
    entry.Finds ops row (entry.positions row) := by
  intro position rest
  have within : entry.records.Within row.size := (within_iff complete).mpr covers
  have header := Reader.try_next_block_header entry.block position (entry.recordBytes ++ rest)
  rw [if_pos counted, ← List.append_assoc] at header
  rcases read_records?_record_bytes complete (position + 16) rest with ⟨finish, taken⟩
  have found := leaf_positions_eq laneWise taken within
  exact ⟨_, _, Reader.next_block?_of_try_next_block header, found, rfl⟩

theorem leaf_count_lt_of_grouped {depth : Nat} (shallow : depth ≤ maxDepth) (few : depth ≤ 29) :
    (⟨.grouped, depth, shallow⟩ : Block).leafCount < 2 ^ 32 := by
  rw [Block.leafCount, Nat.shiftLeft_eq]
  calc 4 * 2 ^ depth
      ≤ 4 * 2 ^ 29 := Nat.mul_le_mul_left 4 (Nat.pow_le_pow_right (by decide) few)
    _ < 2 ^ 32 := by decide

theorem finds_of_alone (laneWise : ops.LaneWise) (complete : entry.Complete)
    (single : entry.block.kind.treeCount = 1) {splits : List Split}
    (alone : entry.splitLists = [splits]) (covers : row.Covers splits) :
    entry.Finds ops row [LeafIndex.number row splits] := by
  have counted : entry.block.leafCount < 2 ^ 32 := by
    rw [Block.leafCount, single, Nat.one_shiftLeft]
    exact Nat.pow_lt_pow_right (by decide) (Nat.lt_succ_of_le entry.block.depth_le)
  have position : entry.positions row = [LeafIndex.number row splits] := by
    simp only [positions, alone, List.zipIdx_cons, List.zipIdx_nil, List.map_cons, List.map_nil,
      Nat.zero_mul, Nat.zero_add]
  rw [← position]
  apply finds_positions laneWise complete counted
  rw [alone, List.forall_mem_singleton]
  exact covers

theorem positions_get_elem? {splits : List Split} {lane : Nat}
    (held : entry.splitLists[lane]? = some splits) :
    (entry.positions row)[lane]? =
      some (lane * 2 ^ entry.block.depth + LeafIndex.number row splits) := by
  simp only [positions, List.getElem?_map, List.getElem?_zipIdx, held, Option.map_some,
    Nat.zero_add, Nat.one_shiftLeft]

theorem grouped_finds {lists : Quad (List Split)} {shallow : lists.lane0.length ≤ maxDepth}
    (laneWise : ops.LaneWise) (few : lists.lane0.length ≤ 29)
    (same : ∀ splits ∈ lists.toList, splits.length = lists.lane0.length)
    (covers : ∀ splits ∈ lists.toList, row.Covers splits) :
    (grouped lists shallow).Finds ops row ((grouped lists shallow).positions row) := by
  rw [← @grouped_split_lists lists shallow same] at covers
  exact finds_positions laneWise (grouped_complete same) (leaf_count_lt_of_grouped shallow few)
    covers

end BlockStream.Entry

namespace LeafIndex

def union (words : Quad UInt32) : UInt32 :=
  words.lane0 ||| words.lane1 ||| words.lane2 ||| words.lane3

/-- The bits of a word are among those that a lane gets in the first chunks. -/
def OwnLevels (lane chunks : Nat) (word : UInt32) : Prop :=
  ∀ level, word.toNat.testBit level = true → ∃ chunk < chunks, level = 4 * chunk + lane

structure Apart (chunks : Nat) (words : Quad UInt32) : Prop where
  lane0 : OwnLevels 0 chunks words.lane0
  lane1 : OwnLevels 1 chunks words.lane1
  lane2 : OwnLevels 2 chunks words.lane2
  lane3 : OwnLevels 3 chunks words.lane3

theorem own_levels_zero (lane chunks : Nat) : OwnLevels lane chunks 0 := by
  intro level bit
  have none : (0 : UInt32).toNat.testBit level = false := Nat.zero_testBit level
  rw [none] at bit
  exact absurd bit Bool.false_ne_true

theorem apart_zero : Apart 0 (Quad.splat 0) :=
  ⟨own_levels_zero 0 0, own_levels_zero 1 0, own_levels_zero 2 0, own_levels_zero 3 0⟩

theorem own_levels_or_bit {lane chunk : Nat} {word : UInt32} (own : OwnLevels lane chunk word)
    (inside : 4 * chunk + lane < 32) (outcome : Bool) :
    OwnLevels lane (chunk + 1)
      (word ||| (outcome.toUInt32 <<< UInt32.ofNat (4 * chunk + lane))) := by
  intro level bit
  rw [UInt32.toNat_or, Nat.testBit_or, Bool.or_eq_true, shift_left_outcome_to_nat inside] at bit
  rcases bit with before | added
  · rcases own level before with ⟨earlier, among, same⟩
    exact ⟨earlier, Nat.lt_succ_of_lt among, same⟩
  · cases outcome with
    | false =>
        rw [Bool.toNat_false, Nat.mul_zero, Nat.zero_testBit] at added
        exact absurd added Bool.false_ne_true
    | true =>
        rw [Bool.toNat_true, Nat.mul_one, Nat.testBit_two_pow, decide_eq_true_eq] at added
        exact ⟨chunk, Nat.lt_succ_self chunk, added.symm⟩

theorem apart_collect_chunk {chunk : Nat} (inside : chunk < 8) {words : Quad UInt32}
    (apart : Apart chunk words) (row : Row) (splits : Quad Split) :
    Apart (chunk + 1) (words.or
      (splits.map₂ (fun split bit => if split.holds row then bit else 0) (chunkBits chunk))) := by
  rw [collect_chunk_eq inside]
  constructor
  · exact own_levels_or_bit apart.lane0 (by omega) _
  · exact own_levels_or_bit apart.lane1 (by omega) _
  · exact own_levels_or_bit apart.lane2 (by omega) _
  · exact own_levels_or_bit apart.lane3 (by omega) _

theorem apart_collect (row : Row) (splits : List (Quad Split)) {chunk : Nat}
    {words : Quad UInt32} (apart : Apart chunk words) (inside : chunk + splits.length ≤ 8) :
    Apart (chunk + splits.length) (collect row chunkBits chunk words splits) := by
  induction splits generalizing chunk words with
  | nil => exact apart
  | cons head rest induction =>
      rw [List.length_cons] at inside ⊢
      have next := apart_collect_chunk (by omega) apart row head
      have later := induction next (by omega)
      rw [Nat.add_right_comm] at later
      exact later

/-- Words without a common bit are added without a carry. -/
theorem add_eq_or {left right : UInt32}
    (apart : ∀ level, left.toNat.testBit level = true → right.toNat.testBit level ≠ true) :
    left + right = left ||| right ∧ (left + right).toNat = left.toNat + right.toNat := by
  have nothing : left.toBitVec &&& right.toBitVec = 0#32 := by
    apply BitVec.eq_of_getLsbD_eq
    intro level _
    rw [BitVec.getLsbD_and, BitVec.getLsbD_zero, Bool.and_eq_false_imp]
    intro bit
    exact Bool.eq_false_iff.mpr (apart level bit)
  constructor
  · apply UInt32.toBitVec_inj.mp
    rw [UInt32.toBitVec_add, UInt32.toBitVec_or]
    exact BitVec.add_eq_or_of_and_eq_zero _ _ nothing
  · exact BitVec.toNat_add_of_and_eq_zero nothing

def LowerLanes (lane : Nat) (word : UInt32) : Prop :=
  ∀ level, word.toNat.testBit level = true → level % 4 < lane

/-- The word of the next lane is added to those of the lower ones without a carry. -/
theorem LowerLanes.add_own {lane chunks : Nat} {lower word : UInt32}
    (lanes : LowerLanes lane lower) (own : OwnLevels lane chunks word) (inside : lane < 4) :
    LowerLanes (lane + 1) (lower ||| word) ∧ lower + word = lower ||| word ∧
      (lower + word).toNat = lower.toNat + word.toNat := by
  have level_mod : ∀ level, word.toNat.testBit level = true → level % 4 = lane := by
    intro level bit
    rcases own level bit with ⟨chunk, -, rfl⟩
    omega
  constructor
  · intro level bit
    rw [UInt32.toNat_or, Nat.testBit_or, Bool.or_eq_true] at bit
    rcases bit with before | added
    · exact Nat.lt_succ_of_lt (lanes level before)
    · exact Nat.lt_succ_of_le (Nat.le_of_eq (level_mod level added))
  · apply add_eq_or
    intro level before added
    have less := lanes level before
    have same := level_mod level added
    omega

/-- The sum of lanes with levels of their own is their union, and no carry is lost. -/
theorem Apart.sum_eq {chunks : Nat} {words : Quad UInt32} (apart : Apart chunks words) :
    words.sum = union words ∧ words.sum.toNat = total words := by
  have empty : LowerLanes 0 0 := by
    intro level bit
    exact absurd (bit.symm.trans (Nat.zero_testBit level)) Bool.true_eq_false.mp
  rcases empty.add_own apart.lane0 (by decide) with ⟨lanes0, -, -⟩
  rw [UInt32.zero_or] at lanes0
  rcases lanes0.add_own apart.lane1 (by decide) with ⟨lanes1, same1, count1⟩
  rcases lanes1.add_own apart.lane2 (by decide) with ⟨lanes2, same2, count2⟩
  rcases lanes2.add_own apart.lane3 (by decide) with ⟨-, same3, count3⟩
  constructor
  · rw [Quad.sum, same1, same2, same3, union]
  · rw [Quad.sum, total, same1, same2, count3, ← same2, count2, ← same1, count1]

end LeafIndex

namespace BlockStream.Entry

open LeafIndex

variable {splits : List Split} {shallow : splits.length ≤ maxDepth} {ops : LaneOps} {row : Row}

/-- The accumulator after the first chunks, each lane having its own bits. -/
theorem chunked_accumulates (laneWise : ops.LaneWise) (covers : row.Covers splits) {chunks : Nat}
    (among : chunks ≤ splits.length / 4) (position : Nat) (rest : List UInt8) :
    ∃ words after,
      (⟨position, (chunked splits shallow).recordBytes ++ rest⟩ : Reader).foldRecords
          Trap.missingRecord WideSplit.layout (testWideAt ops row (chunkWeights ops)) chunks 0
          ops.zero = .ok (words, after) ∧
        Apart chunks (ops.toQuad words) := by
  have complete := @chunked_complete splits shallow
  have few : splits.length ≤ 31 := shallow
  -- The records of the first chunks and the bytes of all others.
  have cut := List.take_append_drop chunks (chunked splits shallow).records.wide
  have first : ((chunked splits shallow).records.wide.take chunks).length = chunks := by
    rw [List.length_take, complete.wide]
    exact Nat.min_eq_left among
  have within : (chunked splits shallow).records.Within row.size := by
    rw [within_iff complete, chunked_split_lists, List.forall_mem_singleton]
    exact covers
  have has : ∀ record ∈ (chunked splits shallow).records.wide.take chunks, Has row record :=
    fun record member => within.wide record (List.mem_of_mem_take member)
  have taken := Reader.read_many?_encode_padded WideSplit.layout
    ((chunked splits shallow).records.wide.take chunks) position
    (((chunked splits shallow).records.wide.drop chunks).flatMap WideSplit.layout.encodePadded ++
      ((chunked splits shallow).records.single.flatMap splitLayout.encodePadded ++ rest))
  rw [← List.append_assoc, ← List.flatMap_append, cut, first, ← List.append_assoc] at taken
  have folded := fold_places_test_wide_at has (@chunk_weights_eq_ok ops) 0 (by omega) ops.zero
  have lanes := to_quad_add_wides laneWise has (to_quad_chunk_words laneWise) 0 (by omega) ops.zero
  have apart := apart_collect row
    (((chunked splits shallow).records.wide.take chunks).map WideSplit.splits) apart_zero
    (by rw [List.length_map]; omega)
  rw [Nat.zero_add, List.length_map, first] at apart
  rw [to_quad_zero laneWise] at lanes
  rw [← lanes] at apart
  exact ⟨_, _, Reader.fold_records_eq taken folded, apart⟩

end BlockStream.Entry

theorem Split.holds_eq_true_iff {split : Split} {row : Row} :
    split.holds row = true ↔
      ∃ value, row[split.feature.toNat]? = some value ∧ split.threshold.value < value := by
  rw [holds, outcome?]
  cases row[split.feature.toNat]? with
  | none => simp
  | some value => simp

theorem LeafIndex.test_bit_number_iff {row : Row} {splits : List Split} {level : Nat} :
    (number row splits).testBit level = true ↔
      ∃ split value, splits[level]? = some split ∧ row[split.feature.toNat]? = some value ∧
        split.threshold.value < value := by
  rw [test_bit_number, Option.any_eq_true]
  simp only [Split.holds_eq_true_iff, exists_and_left]

/-- A list of splits has one leaf index for a row that has the tested features: the
number with a bit at each level whose split holds. A tree with these splits has it,
and so has every written block that spells them, on any lane-wise backend: one split
at a time, four at a time with a tail, or as any lane of a group. The lanes of the
chunks read so far have bits at levels of their own, and no carry disturbs their sum. -/
theorem one_leaf_index_in_all_layouts {splits : List Split} (shallow : splits.length ≤ maxDepth)
    {row : Row} (covers : row.Covers splits) :
    ∃ index < 2 ^ splits.length,
      (∀ level, index.testBit level = true ↔
        ∃ split value, splits[level]? = some split ∧ row[split.feature.toNat]? = some value ∧
          split.threshold.value < value) ∧
      (∀ tree : Tree, tree.splits = splits → tree.leafIndex? row = some index) ∧
      ∀ (backend : LaneBackend) (unit : VectorUnit), unit.LaneWise →
        let ops := backend.opsOn unit
        (Entry.scalar splits shallow).Finds ops row [index] ∧
        (Entry.chunked splits shallow).Finds ops row [index] ∧
        (∀ (lists : Quad (List Split)) (lane : Nat), splits.length ≤ 29 →
          lists.toList[lane]? = some splits →
          (∀ other ∈ lists.toList, other.length = splits.length ∧ row.Covers other) →
          ∃ admitted positions, (Entry.grouped lists admitted).Finds ops row positions ∧
            positions[lane]? = some (lane * 2 ^ splits.length + index)) ∧
        ∀ chunks ≤ splits.length / 4, ∀ (position : Nat) (rest : List UInt8), ∃ words after,
          (⟨position, (Entry.chunked splits shallow).recordBytes ++ rest⟩ : Reader).foldRecords
              Trap.missingRecord WideSplit.layout (testWideAt ops row (chunkWeights ops)) chunks 0
              ops.zero = .ok (words, after) ∧
            LeafIndex.Apart chunks (ops.toQuad words) ∧
            ops.sum words = LeafIndex.union (ops.toQuad words) ∧
            (ops.sum words).toNat = LeafIndex.total (ops.toQuad words) := by
  refine ⟨LeafIndex.number row splits, LeafIndex.number_lt row splits,
    fun level => LeafIndex.test_bit_number_iff, ?_, ?_⟩
  · intro tree same
    subst same
    exact Tree.leaf_index?_eq_some covers
  · intro backend unit unitLaneWise ops
    have laneWise : ops.LaneWise := backend.ops_on_lane_wise unitLaneWise
    have scalar := Entry.finds_of_alone laneWise (@Entry.scalar_complete splits shallow) rfl
      Entry.scalar_split_lists covers
    have chunked := Entry.finds_of_alone laneWise (@Entry.chunked_complete splits shallow) rfl
      Entry.chunked_split_lists covers
    refine ⟨scalar, chunked, ?_, ?_⟩
    · intro lists lane few held others
      have first : lists.lane0.length = splits.length := (others lists.lane0 List.mem_cons_self).1
      have same : ∀ other ∈ lists.toList, other.length = lists.lane0.length := by
        intro other member
        rw [first]
        exact (others other member).1
      have admitted : lists.lane0.length ≤ maxDepth := by
        rw [first]
        exact shallow
      have found := @Entry.grouped_finds ops row lists admitted laneWise (by omega) same
        fun other member => (others other member).2
      refine ⟨admitted, _, found, ?_⟩
      rw [← first]
      apply Entry.positions_get_elem?
      rw [Entry.grouped_split_lists same]
      exact held
    · intro chunks among position rest
      rcases @Entry.chunked_accumulates splits shallow ops row laneWise covers chunks among position
        rest with ⟨words, after, read, apart⟩
      exact ⟨words, after, read, apart, apart.sum_eq⟩

/-- Five splits over two features, as a chunk with a tail and as a lane of a group. -/
theorem one_leaf_index_in_all_layouts_five :
    let splits : List Split :=
      [⟨0, ⟨0x3F000000⟩⟩, ⟨1, ⟨0x3F000000⟩⟩, ⟨0, ⟨0⟩⟩, ⟨1, ⟨0⟩⟩, ⟨0, ⟨0x3F800000⟩⟩]
    let tree : Tree := ⟨splits, Array.replicate 32 0.5, by decide, rfl⟩
    let row : Row := #[0.25, 0.75]
    let ops := LaneBackend.simd.ops
    ∃ shallow, row.Covers splits ∧ ∃ index < 32, tree.leafIndex? row = some index ∧
      (Entry.scalar splits shallow).Finds ops row [index] ∧
      (Entry.chunked splits shallow).Finds ops row [index] ∧
      ∃ admitted positions, (Entry.grouped (Quad.splat splits) admitted).Finds ops row positions ∧
        positions[2]? = some (2 * 32 + index) := by
  intro splits tree row ops
  have shallow : splits.length ≤ maxDepth := by decide
  have covers : row.Covers splits := by
    change ∀ split ∈ splits, split.feature.toNat < row.size
    decide
  rcases one_leaf_index_in_all_layouts shallow covers with ⟨index, small, -, trees, backends⟩
  rcases backends .simd .quads VectorUnit.quads_lane_wise with ⟨scalar, chunked, grouped, -⟩
  have others : ∀ other ∈ (Quad.splat splits).toList,
      other.length = splits.length ∧ row.Covers other := by
    intro other member
    simp only [Quad.toList, Quad.splat, List.mem_cons, List.not_mem_nil, or_false,
      or_self] at member
    subst member
    exact ⟨rfl, covers⟩
  exact ⟨shallow, covers, index, small, trees tree rfl, scalar, chunked,
    grouped (Quad.splat splits) 2 (by decide) rfl others⟩

end SymmetricTrees
