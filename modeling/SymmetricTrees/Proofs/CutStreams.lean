import SymmetricTrees.Proofs.BatchScores
import SymmetricTrees.Proofs.EncodingLimits
import SymmetricTrees.Proofs.Pieces

/-!
Streams that were cut short. What is left of an accepted stream is accepted again
only if nothing but padding is missing behind its last record; otherwise the cut is
told by the first header or record that is not whole, or by the leaf values of the
blocks that are missing altogether.
-/

set_option autoImplicit false

namespace SymmetricTrees

namespace BlockStream

/-- Within the length all pieces of the blocks are whole, and there is no byte of
what follows them. -/
structure HoldsOnly (length : Nat) (entries : List Entry) : Prop where
  whole : firstMissing? length 0 (piecesOf entries) = none
  nothingElse : length ≤ space (piecesOf entries)

variable {Value : Type} {layout : Layout Value} {bytes middle after : List UInt8}
  {featureCount length start place : Nat} {piece : Piece}

theorem Layout.Spells.cut {values : List Value} (spells : layout.Spells bytes values after)
    (sized : piece.size = layout.size) (reach : length ≤ start + bytes.length)
    {found : Piece}
    (missing : firstMissing? length start (List.replicate values.length piece) =
      some (place, found)) :
    ∃ kept rest, layout.Spells (bytes.take (length - start)) kept rest ∧
      kept.length < values.length ∧ (∀ value ∈ kept, value ∈ values) ∧
      rest.length < layout.size ∧ length - rest.length = min length place := by
  induction spells generalizing start with
  | nil => cases missing
  | @cons bytes middle after value values first others induction =>
      rw [List.length_cons, List.replicate_succ, firstMissing?] at missing
      split at missing
      case isTrue present =>
        have later : length ≤ start + alignedSize piece.size + middle.length := by
          have own := (Layout.Opens.laid piece ⟨_, first⟩ sized).length_le
          rw [space_cons] at own
          simp only [space, List.map_nil, List.sum_nil] at own
          omega
        obtain ⟨kept, rest, keeps, fewer, among, few, ends⟩ := induction later missing
        rw [sized] at present keeps
        refine ⟨value :: kept, rest, .cons (first.take present) keeps, ?_, ?_, few, ends⟩
        · rw [List.length_cons, List.length_cons]
          exact Nat.succ_lt_succ fewer
        · intro other member
          cases List.mem_cons.mp member with
          | inl same => exact List.mem_cons.mpr (.inl same)
          | inr later => exact List.mem_cons_of_mem _ (among other later)
      case isFalse absent =>
        have here : start = place := congrArg Prod.fst (Option.some.inj missing)
        have inhabited : 0 < piece.size := by cases piece <;> decide
        refine ⟨[], bytes.take (length - start), .nil, Nat.succ_pos _, List.forall_mem_nil _,
          ?_, ?_⟩
        · rw [List.length_take]
          omega
        · rw [List.length_take, ← here]
          omega

theorem Entry.Opens.cut {entry : Entry} (opens : entry.Opens featureCount bytes after)
    (reach : length ≤ start + bytes.length) (begun : start < length)
    (missing : firstMissing? length start entry.pieces = some (place, piece)) :
    BlockFault featureCount length (bytes.take (length - start))
      (.truncated (min length place)) := by
  obtain ⟨header, body, middle, announced, announces, wide, single⟩ := opens.header
  have rest : (bytes.take (length - start)).length = length - start := by
    rw [List.length_take]
    omega
  rw [Entry.pieces, firstMissing?] at missing
  split at missing
  case isFalse absent =>
    have here : start = place := congrArg Prod.fst (Option.some.inj missing)
    have size : Header.layout.size = Piece.header.size := rfl
    have offset : length - (bytes.take (length - start)).length = min length place := by omega
    rw [← offset]
    refine .header (.truncated ?_ (by omega))
    intro empty
    rw [empty, List.length_nil] at rest
    omega
  case isTrue present =>
    have bodyReach : length ≤ start + alignedSize Piece.header.size + body.length := by
      have own := (Layout.Opens.laid .header ⟨header, announced⟩ rfl).length_le
      rw [space_cons] at own
      simp only [space, List.map_nil, List.sum_nil] at own
      omega
    have middleReach := (wide.laid .wide rfl).length_le
    have announcedHere := announced.take present
    rw [first_missing?_append] at missing
    cases wideWhole : firstMissing? length (start + alignedSize Piece.header.size)
        (List.replicate entry.records.wide.length .wide) with
    | some found =>
        rw [wideWhole, Option.some_or] at missing
        rw [Option.some.inj missing] at wideWhole
        obtain ⟨kept, rest, keeps, fewer, among, few, ends⟩ := wide.cut rfl bodyReach wideWhole
        rw [opens.complete.wide] at fewer
        rw [← ends]
        exact .wide announcedHere announces ⟨kept, rest, keeps, fewer,
          fun record member => opens.within.wide record (among record member), .truncated few⟩
    | none =>
        rw [wideWhole, Option.none_or] at missing
        obtain ⟨kept, rest, keeps, fewer, among, few, ends⟩ := single.cut rfl (by omega) missing
        rw [opens.complete.single] at fewer
        rw [← ends]
        refine .single announcedHere announces (wide.take .wide rfl wideWhole) opens.complete.wide
          opens.within.wide ⟨kept, rest, keeps, fewer, ?_, .truncated few⟩
        intro split member feature tested
        rw [List.mem_singleton.mp tested]
        exact opens.within.single split (among split member)

/-- A cut inside a header, or before a record that has to follow, is a fault of a
block behind those that are whole. -/
theorem Blocks.cut {entries : List Entry} (blocks : Blocks featureCount bytes entries after)
    (reach : length ≤ start + bytes.length)
    (missing : firstMissing? length start (piecesOf entries) = some (place, piece))
    (begun : piece = .header → place < length) :
    ∃ kept rest, Blocks featureCount (bytes.take (length - start)) kept rest ∧
      BlockFault featureCount length rest (.truncated (min length place)) := by
  induction blocks generalizing start with
  | nil => cases missing
  | @cons bytes middle after entry entries first others induction =>
      rw [piecesOf, List.flatMap_cons, first_missing?_append] at missing
      cases here : firstMissing? length start entry.pieces with
      | none =>
          rw [here, Option.none_or] at missing
          have later : length ≤ start + space entry.pieces + middle.length := by
            have own := first.laid.length_le
            omega
          obtain ⟨kept, rest, keeps, faulty⟩ := induction later missing
          exact ⟨entry :: kept, rest, .cons (first.take here) keeps, faulty⟩
      | some found =>
          rw [here, Option.some_or, Option.some.injEq] at missing
          subst missing
          refine ⟨[], _, .nil, first.cut reach ?_ here⟩
          rw [Entry.pieces, firstMissing?] at here
          split at here
          case isTrue present =>
            exact Nat.lt_of_lt_of_le (Nat.lt_add_of_pos_right (by decide)) present
          case isFalse =>
            have found : (start, Piece.header) = (place, piece) := Option.some.inj here
            have same : start = place := congrArg Prod.fst found
            rw [same]
            exact begun (congrArg Prod.snd found).symm

theorem Blocks.reads {entries : List Entry} (blocks : Blocks featureCount bytes entries [])
    {reader : Reader} (here : reader.rest = bytes) (offset : Nat) :
    ∃ visits last, Reads reader offset visits last ∧ visits.map Visit.entry = entries := by
  generalize ended : ([] : List UInt8) = rest at blocks
  induction blocks generalizing reader offset with
  | nil =>
      subst ended
      exact ⟨[], reader, .done (List.isEmpty_iff.mpr here), rfl⟩
  | @cons bytes middle after entry entries first _ induction =>
      rw [← here] at first
      obtain ⟨body, next, found, taken, same, -⟩ := Entry.opens_iff.mp first
      obtain ⟨visits, last, reads, read⟩ := induction same (offset + entry.block.leafCount) ended
      refine ⟨_, last, .block found taken reads, ?_⟩
      rw [List.map_cons, read]
      rfl

theorem Blocks.append_inv {kept lost : List Entry}
    (blocks : Blocks featureCount bytes (kept ++ lost) after) :
    ∃ middle, Blocks featureCount bytes kept middle ∧ Blocks featureCount middle lost after := by
  induction kept generalizing bytes with
  | nil => exact ⟨bytes, .nil, blocks⟩
  | cons entry others induction =>
      cases blocks with
      | cons first rest =>
          obtain ⟨middle, before, behind⟩ := induction rest
          exact ⟨middle, .cons first before, behind⟩

theorem leaf_sum_append (first second : List Entry) :
    leafSum (first ++ second) = leafSum first + leafSum second := by
  rw [leafSum, List.map_append, List.sum_append]
  rfl

/-- Every block takes a leaf value, so blocks cannot go missing unnoticed. -/
theorem leaf_sum_pos {entries : List Entry} (more : entries ≠ []) : 0 < leafSum entries := by
  cases entries with
  | nil => exact absurd rfl more
  | cons entry others =>
      have trees : 0 < entry.block.kind.treeCount := by cases entry.block.kind <;> decide
      have here : 0 < entry.block.leafCount := by
        rw [Block.leafCount, Nat.shiftLeft_eq]
        exact Nat.mul_pos trees (Nat.two_pow_pos _)
      rw [leaf_sum_cons]
      omega

theorem alignment_dvd_space (pieces : List Piece) : alignment ∣ space pieces := by
  induction pieces with
  | nil => exact Nat.dvd_zero _
  | cons piece rest induction =>
      rw [space_cons]
      exact Nat.dvd_add (alignment_dvd_aligned_size _) induction

theorem first_missing?_of_room {pieces : List Piece} (room : start + space pieces ≤ length) :
    firstMissing? length start pieces = none := by
  induction pieces generalizing start with
  | nil => rfl
  | cons piece rest induction =>
      have aligned := size_le_aligned_size piece.size
      rw [space_cons] at room
      rw [firstMissing?, if_pos (by omega)]
      apply induction
      omega

/-- Of an aligned stream that is cut all blocks are left exactly if the last
record is a single one and the cut is in its padding. -/
theorem Blocks.holds_only_iff {stream : List UInt8} {entries : List Entry}
    (blocks : Blocks featureCount stream entries []) (aligned : alignment ∣ stream.length)
    (cut : length < stream.length) :
    HoldsOnly length entries ↔
      (piecesOf entries).getLast? = some .single ∧ stream.length ≤ length + 8 := by
  have upper := blocks.laid.length_le
  have whole : firstMissing? stream.length 0 (piecesOf entries) = none :=
    blocks.laid.whole fun _ => Nat.zero_add stream.length
  have only : HoldsOnly length entries ↔ firstMissing? length 0 (piecesOf entries) = none := by
    constructor
    · exact HoldsOnly.whole
    · intro present
      rw [List.length_nil] at upper
      exact ⟨present, by omega⟩
  rw [only]
  cases List.eq_nil_or_concat (piecesOf entries) with
  | inl none =>
      rw [none, List.length_nil] at upper
      have empty : space [] = 0 := rfl
      omega
  | inr some =>
      -- Only a single record is shorter than its place: behind the other pieces there
      -- is no padding to lose.
      obtain ⟨before, last, split⟩ := some
      rw [List.concat_eq_append] at split
      rw [split] at upper whole ⊢
      have stored := (first_missing?_append_eq_none whole).2
      have multiple := alignment_dvd_space before
      have present : firstMissing? length 0 (before ++ [last]) = none ↔
          space before + last.size ≤ length := by
        rw [first_missing?_append, Option.or_eq_none_iff, Nat.zero_add, firstMissing?,
          firstMissing?]
        constructor
        · intro both
          by_contra absent
          rw [if_neg absent] at both
          cases both.2
        · intro room
          exact ⟨first_missing?_of_room (by omega), if_pos room⟩
      have inside : space before + last.size ≤ stream.length := by
        by_contra absent
        rw [Nat.zero_add, firstMissing?, if_neg absent] at stored
        cases stored
      have apart : space (before ++ [last]) = space before + alignedSize last.size :=
        space_append before [last]
      rw [present, List.getLast?_concat, Option.some.injEq]
      rw [apart, aligned_size_size, List.length_nil] at upper
      simp only [alignment] at aligned multiple
      cases last with
      | header =>
          simp only [Piece.size, reduceCtorEq, if_false, false_and, iff_false] at upper inside ⊢
          omega
      | wide =>
          simp only [Piece.size, reduceCtorEq, if_true, false_and, iff_false] at upper inside ⊢
          omega
      | single =>
          simp only [Piece.size, reduceCtorEq, if_false, true_and] at upper inside ⊢
          omega

end BlockStream

open BlockStream

theorem Grouping.alignment_dvd_stream {forest : Forest} {order : GroupingOrder}
    {encoded : EncodedForest} (compiled : forest.encode order = .ok encoded) :
    alignment ∣ encoded.stream.length := by
  obtain ⟨stream, leaves, encode, bytes, -⟩ := encode_eq forest order
  rw [encode] at compiled
  rw [(EncodedForest.parts_of_of_parts compiled).1, bytes]
  exact alignment_dvd_flat_map fun pack _ => pack.entry.alignment_dvd_bytes

namespace EncodedForest

variable {encoded other : EncodedForest} {ops : LaneOps}

theorem score_on_congr
    (entries : entriesFrom (.ofBytes encoded.stream) = entriesFrom (.ofBytes other.stream))
    (leaves : encoded.leaves = other.leaves) (features : encoded.featureCount = other.featureCount)
    (laneWise : ops.LaneWise) (row : Row) : encoded.scoreOn ops row = other.scoreOn ops row := by
  by_cases long : encoded.featureCount ≤ row.size
  · obtain ⟨stands, read, -, -, -, scores⟩ := encoded.reads_as_trees
    obtain ⟨otherStands, otherRead, -, -, -, otherScores⟩ := other.reads_as_trees
    rw [standsOf, entries, leaves] at read
    rw [standsOf, read] at otherRead
    rw [scores ops laneWise row long, otherScores ops laneWise row (features ▸ long),
      Except.ok.inj otherRead]
  · rw [scoreOn, scoreOn, if_neg long, if_neg (features ▸ long), features]

theorem score_into_on_congr
    (entries : entriesFrom (.ofBytes encoded.stream) = entriesFrom (.ofBytes other.stream))
    (leaves : encoded.leaves = other.leaves) (features : encoded.featureCount = other.featureCount)
    (laneWise : ops.LaneWise) (width : Nat) (rows : List Row) (output : Array Float) :
    encoded.scoreIntoOn ops width rows output = other.scoreIntoOn ops width rows output := by
  by_cases sized : output.size = rows.length
  · by_cases long : ∀ row ∈ rows, encoded.featureCount ≤ row.size
    · have otherLong : ∀ row ∈ rows, other.featureCount ≤ row.size := features ▸ long
      have same : rows.map (encoded.rawScore ops) = rows.map (other.rawScore ops) := by
        apply List.map_congr_left
        intro row held
        have alone := score_on_congr entries leaves features laneWise row
        rw [score_on_eq_ok (long row held), score_on_eq_ok (otherLong row held)] at alone
        exact Except.ok.inj alone
      rw [score_into_on_eq_ok laneWise width long sized,
        score_into_on_eq_ok laneWise width otherLong sized, same]
    · rw [scoreIntoOn, scoreIntoOn, if_pos sized, if_pos sized, features]
      split
      case h_1 => rfl
      case h_2 missing =>
        refine absurd (fun row held => ?_) long
        obtain ⟨index, bound, found⟩ := List.mem_iff_getElem.mp held
        have indexed : (row, index) ∈ rows.zipIdx := by
          rw [List.mem_zipIdx_iff_getElem?, List.getElem?_eq_getElem bound, found]
        have enough := List.find?_eq_none.mp missing _ indexed
        rw [features]
        exact Nat.not_lt.mp fun few => enough (decide_eq_true few)
  · rw [scoreIntoOn, scoreIntoOn, if_neg sized, if_neg sized]

variable {entries : List Entry} {length : Nat}

theorem exists_blocks (encoded : EncodedForest) :
    ∃ entries, Blocks encoded.featureCount encoded.stream entries [] := by
  obtain ⟨visits, last, reads, within, -⟩ := encoded.reads
  exact ⟨visits.map Visit.entry, reads.blocks within⟩

theorem length_blocks (encoded : EncodedForest) : encoded.blocks.length = encoded.blockCount := by
  obtain ⟨stops, last, itinerary⟩ := encoded.itinerary
  exact itinerary.counted

/-- The blocks of an accepted stream are those that its walks meet, and they take
the whole leaf table. -/
theorem blocks_of_stream (encoded : EncodedForest)
    (blocks : Blocks encoded.featureCount encoded.stream entries []) :
    entries.map Entry.block = encoded.blocks ∧ leafSum entries = encoded.leaves.size ∧
      entriesFrom (.ofBytes encoded.stream) = entries := by
  obtain ⟨visits, last, reads, same⟩ := blocks.reads (Reader.rest_of_bytes encoded.stream) 0
  refine ⟨?_, ?_, ?_⟩
  · rw [EncodedForest.blocks, reads.blocks_from, ← same, List.map_map]
    rfl
  · by_contra differs
    have refused := check_eq_error_iff.mpr (.leafTable blocks differs)
    rw [encoded.checked] at refused
    cases refused
  · rw [reads.entries_from, same]

theorem of_parts_of_kept {kept lost : List Entry}
    (blocks : Blocks encoded.featureCount encoded.stream (kept ++ lost) []) (more : lost ≠ [])
    (only : HoldsOnly length kept) :
    ofParts (encoded.stream.take length) encoded.leaves encoded.featureCount =
      .error (.leafTableMismatch (leafSum kept) encoded.leaves.size) := by
  obtain ⟨middle, before, -⟩ := blocks.append_inv
  have front := before.take only.whole
  have none : length - (0 + space (piecesOf kept)) = 0 := by
    have ends := only.nothingElse
    omega
  rw [none, List.take_zero, Nat.sub_zero] at front
  have differs : leafSum kept ≠ encoded.leaves.size := by
    have missing := leaf_sum_pos more
    rw [← (encoded.blocks_of_stream blocks).2.1, leaf_sum_append]
    omega
  exact of_parts_eq_error_iff.mpr (check_eq_error_iff.mpr (.leafTable front differs))

theorem of_parts_of_cut (blocks : Blocks encoded.featureCount encoded.stream entries [])
    (inside : length ≤ encoded.stream.length)
    (other : ∀ kept lost, entries = kept ++ lost → ¬HoldsOnly length kept) :
    ∃ start piece, firstMissing? length 0 (piecesOf entries) = some (start, piece) ∧
      ofParts (encoded.stream.take length) encoded.leaves encoded.featureCount =
        .error (.truncated (min length start)) := by
  cases missing : firstMissing? length 0 (piecesOf entries) with
  | none =>
      have room := blocks.laid.length_le
      rw [List.length_nil] at room
      exact absurd ⟨missing, by omega⟩ (other entries [] (List.append_nil entries).symm)
  | some found =>
      obtain ⟨start, piece⟩ := found
      -- A header at the end of what is left would be a cut between blocks.
      have begun : piece = .header → start < length := by
        intro header
        subst header
        obtain ⟨kept, lost, split, -, whole, placed⟩ := blocks_before_missing_header missing
        by_contra behind
        exact other kept lost split ⟨whole, by omega⟩
      obtain ⟨kept, rest, before, faulty⟩ := blocks.cut (by omega) missing begun
      have size : (encoded.stream.take length).length = length := by
        rw [List.length_take]
        omega
      rw [Nat.sub_zero] at before
      refine ⟨start, piece, rfl,
        of_parts_eq_error_iff.mpr (check_eq_error_iff.mpr (.block before ?_))⟩
      rw [size]
      exact faulty

theorem of_parts_of_blocks {stream : List UInt8}
    (blocks : Blocks encoded.featureCount encoded.stream entries [])
    (also : Blocks encoded.featureCount stream entries []) :
    ∃ other, ofParts stream encoded.leaves encoded.featureCount = .ok other ∧
      other.blocks = encoded.blocks ∧
      ∀ ops : LaneOps, ops.LaneWise →
        (∀ row, other.scoreOn ops row = encoded.scoreOn ops row) ∧
        ∀ width rows output, other.scoreIntoOn ops width rows output =
          encoded.scoreIntoOn ops width rows output := by
  obtain ⟨sameBlocks, whole, read⟩ := encoded.blocks_of_stream blocks
  obtain ⟨blockCount, checked⟩ := check_eq_ok_iff.mpr ⟨entries, also, whole⟩
  let other : EncodedForest := ⟨stream, encoded.leaves, encoded.featureCount, blockCount, checked⟩
  obtain ⟨alsoBlocks, -, alsoRead⟩ := other.blocks_of_stream also
  have same : entriesFrom (.ofBytes other.stream) = entriesFrom (.ofBytes encoded.stream) :=
    alsoRead.trans read.symm
  refine ⟨other, of_parts_eq_ok checked, alsoBlocks.symm.trans sameBlocks, ?_⟩
  intro ops laneWise
  exact ⟨score_on_congr same rfl rfl laneWise, score_into_on_congr same rfl rfl laneWise⟩

theorem of_parts_of_padding (blocks : Blocks encoded.featureCount encoded.stream entries [])
    (only : HoldsOnly length entries) :
    ∃ shortened,
      ofParts (encoded.stream.take length) encoded.leaves encoded.featureCount = .ok shortened ∧
      shortened.blocks = encoded.blocks ∧
      ∀ ops : LaneOps, ops.LaneWise →
        (∀ row, shortened.scoreOn ops row = encoded.scoreOn ops row) ∧
        ∀ width rows output, shortened.scoreIntoOn ops width rows output =
          encoded.scoreIntoOn ops width rows output := by
  have kept := blocks.take only.whole
  rw [List.take_nil, Nat.sub_zero] at kept
  exact of_parts_of_blocks blocks kept

end EncodedForest

/-- What is noticed of a cut to a length in a stream of some blocks. A cut behind whole
blocks leaves too few leaf values, any other cut leaves a header or a record that is not
whole, and nothing but the padding behind the last record can be cut off unnoticed. -/
structure CutNoticed (encoded : EncodedForest) (length : Nat) (entries : List Entry)
    (judged : Except Fault EncodedForest) : Prop where
  blocks : entries.map Entry.block = encoded.blocks
  leaves : leafSum entries = encoded.leaves.size
  leaves_lt : leafSum entries < 2 ^ 64
  behind_blocks : ∀ kept lost, entries = kept ++ lost → lost ≠ [] → HoldsOnly length kept →
    judged = .error (.leafTableMismatch (leafSum kept) encoded.leaves.size)
  inside : (∀ kept lost, entries = kept ++ lost → ¬HoldsOnly length kept) →
    ∃ start piece, firstMissing? length 0 (piecesOf entries) = some (start, piece) ∧
      judged = .error (.truncated (min length start))
  in_padding : HoldsOnly length entries ↔
    (piecesOf entries).getLast? = some .single ∧ encoded.stream.length ≤ length + 8
  unnoticed : HoldsOnly length entries → ∃ shortened, judged = .ok shortened ∧
    shortened.blocks = encoded.blocks ∧
    ∀ ops : LaneOps, ops.LaneWise →
      (∀ row, shortened.scoreOn ops row = encoded.scoreOn ops row) ∧
      ∀ width rows output, shortened.scoreIntoOn ops width rows output =
        encoded.scoreIntoOn ops width rows output

theorem cut_stream_noticed (encoded : EncodedForest) (short : encoded.stream.length < 2 ^ 40)
    (aligned : 16 ∣ encoded.stream.length) {length : Nat} (cut : length < encoded.stream.length) :
    (∀ (forest : Forest) (order : GroupingOrder) (packed : EncodedForest),
        forest.encode order = .ok packed → 16 ∣ packed.stream.length) ∧
      (∃ entries, Blocks encoded.featureCount encoded.stream entries []) ∧
      ∀ entries, Blocks encoded.featureCount encoded.stream entries [] →
        CutNoticed encoded length entries
          (EncodedForest.ofParts (encoded.stream.take length) encoded.leaves
            encoded.featureCount) := by
  refine ⟨fun _ _ _ => Grouping.alignment_dvd_stream, ?_, ?_⟩
  · obtain ⟨visits, last, reads, within, -⟩ := encoded.reads
    exact ⟨_, reads.blocks within⟩
  intro entries blocks
  obtain ⟨same, total, -⟩ := encoded.blocks_of_stream blocks
  constructor
  · exact same
  · exact total
  · have paid := blocks.leaf_sum_le
    omega
  · intro kept lost split more only
    exact EncodedForest.of_parts_of_kept (split ▸ blocks) more only
  · intro none
    exact EncodedForest.of_parts_of_cut blocks (Nat.le_of_lt cut) none
  · exact blocks.holds_only_iff aligned cut
  · exact EncodedForest.of_parts_of_padding blocks

/-- Two blocks of one split. A cut in the padding of the first split loses the
second block, a cut in the padding of the second one loses nothing. -/
theorem cut_stream_noticed_in_padding :
    let block : List UInt8 :=
      [1, 0, 0, 0, 1, 0, 0, 0, 1, 0, 0, 0, 2, 0, 0, 0,
        0, 0, 0, 63, 0, 0, 0, 0, 0, 0, 0, 0, 0, 0, 0, 0]
    let leaves : Array Float := #[0.5, 1.5, 2.5, 3.5]
    ∃ encoded, EncodedForest.ofParts (block ++ block) leaves 1 = .ok encoded ∧
      encoded.stream.length < 2 ^ 40 ∧ 16 ∣ encoded.stream.length ∧
      EncodedForest.ofParts ((block ++ block).take 28) leaves 1 =
        .error (.leafTableMismatch 2 4) ∧
      ∃ shortened, EncodedForest.ofParts ((block ++ block).take 60) leaves 1 = .ok shortened ∧
        shortened.blocks = encoded.blocks := by
  intro block leaves
  let entry : Entry := ⟨⟨.scalar, 1, by decide⟩, ⟨[], [⟨0, ⟨0x3F000000⟩⟩]⟩⟩
  have opens : ∀ rest, entry.Opens 1 (block ++ rest) rest := fun rest =>
    { header := ⟨⟨1, 1, 1, 2⟩, block.drop 16 ++ rest, block.drop 16 ++ rest,
        ⟨[], rfl, .inl rfl⟩, ⟨rfl, rfl, rfl, rfl⟩, .nil,
        .cons ⟨List.replicate 8 0, rfl, .inl rfl⟩ .nil⟩
      complete := ⟨rfl, rfl⟩
      within := ⟨by simp [entry], by simp [entry]⟩ }
  have blocks : Blocks 1 (block ++ block) [entry, entry] [] :=
    .cons (opens block) (.cons (opens []) .nil)
  obtain ⟨blockCount, checked⟩ := check_eq_ok_iff.mpr ⟨[entry, entry], blocks, rfl⟩
  let encoded : EncodedForest := ⟨block ++ block, leaves, 1, blockCount, checked⟩
  have size : encoded.stream.length = 64 := rfl
  have short : encoded.stream.length < 2 ^ 40 := by omega
  have aligned : 16 ∣ encoded.stream.length := by omega
  obtain ⟨-, -, inner⟩ := @cut_stream_noticed encoded short aligned 28 (by omega)
  obtain ⟨-, -, last⟩ := @cut_stream_noticed encoded short aligned 60 (by omega)
  have mismatch := (inner _ blocks).behind_blocks [entry] [entry] rfl (List.cons_ne_nil _ _)
    ⟨rfl, by decide⟩
  obtain ⟨shortened, accepted, same, -⟩ := (last _ blocks).unnoticed ⟨rfl, by decide⟩
  exact ⟨encoded, EncodedForest.of_parts_eq_ok checked, short, aligned, mismatch,
    shortened, accepted, same⟩

end SymmetricTrees
