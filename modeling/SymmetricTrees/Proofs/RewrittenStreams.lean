import SymmetricTrees.Proofs.CutStreams

/-!
Streams that are written again from what they read as. A good header is the one
that a writer builds for its kind and depth, and a record is stored as it is, so
only padding can differ: the new stream has it whole and zero.
-/

set_option autoImplicit false

namespace SymmetricTrees

namespace BlockStream

def Writer.writeEntry (writer : Writer) (entry : Entry) : Writer :=
  let announced := writer.write Header.layout
    (.ofKind entry.block.kind (UInt32.ofNat entry.block.depth))
  let widened := entry.records.wide.foldl
    (fun written record => written.write WideSplit.layout record) announced
  entry.records.single.foldl (fun written split => written.write splitLayout split) widened

/-- What a stream reads as, written again. -/
def rewrite (stream : List UInt8) : List UInt8 :=
  ((entriesFrom (.ofBytes stream)).foldl Writer.writeEntry {}).toList

/-- A place among the 8 bytes behind a single record. -/
def InPadding (pieces : List Piece) (place : Nat) : Prop :=
  ∃ index < pieces.length, pieces[index]? = some .single ∧
    space (pieces.take index) + 8 ≤ place ∧ place < space (pieces.take index) + 16

instance (pieces : List Piece) (place : Nat) : Decidable (InPadding pieces place) :=
  inferInstanceAs (Decidable (∃ index < pieces.length, _ ∧ _))

theorem Writer.to_list_foldl_write {Value : Type} (layout : Layout Value) (values : List Value)
    (writer : Writer) :
    (values.foldl (fun written value => written.write layout value) writer).toList =
      writer.toList ++ values.flatMap layout.encodePadded := by
  induction values generalizing writer with
  | nil => exact (List.append_nil _).symm
  | cons value rest induction =>
      rw [List.foldl_cons, induction, to_list_write, List.append_assoc, List.flatMap_cons]

theorem Writer.to_list_write_entry (writer : Writer) (entry : Entry) :
    (writer.writeEntry entry).toList = writer.toList ++ entry.bytes := by
  simp only [writeEntry, to_list_foldl_write, to_list_write, Entry.bytes, Entry.recordBytes,
    Block.header, List.append_assoc]

theorem rewrite_eq (stream : List UInt8) :
    rewrite stream = (entriesFrom (.ofBytes stream)).flatMap Entry.bytes := by
  have written : ∀ (entries : List Entry) (writer : Writer),
      (entries.foldl Writer.writeEntry writer).toList =
        writer.toList ++ entries.flatMap Entry.bytes := by
    intro entries
    induction entries with
    | nil => exact fun writer => (List.append_nil _).symm
    | cons entry others induction =>
        intro writer
        rw [List.foldl_cons, induction, Writer.to_list_write_entry, List.append_assoc,
          List.flatMap_cons]
  exact written _ {}

namespace Header.Announces

variable {header other : Header} {block : Block}

theorem unique (announces : header.Announces block) (also : other.Announces block) :
    header = other := by
  obtain ⟨tag, depth, recordCount, leafCount⟩ := header
  obtain ⟨otherTag, otherDepth, otherRecords, otherLeaves⟩ := other
  have tags := announces.tag.trans also.tag.symm
  have depths := UInt32.toNat_inj.mp (announces.depth.trans also.depth.symm)
  have records := UInt32.toNat_inj.mp (announces.recordCount.trans also.recordCount.symm)
  have leaves := UInt32.toNat_inj.mp (announces.leafCount.trans also.leafCount.symm)
  simp only at tags depths records leaves
  rw [tags, depths, records, leaves]

/-- The leaf count of a good header is a word, so nothing is lost where the header
of the block takes its low bits. -/
theorem leaf_count_lt (announces : header.Announces block) : block.leafCount < 2 ^ 32 := by
  have word := header.leafCount.toNat_lt
  rw [announces.leafCount] at word
  rw [Block.leafCount, Nat.shiftLeft_eq]
  exact word

theorem eq_header (announces : header.Announces block) : header = block.header := by
  refine announces.unique
    (Header.announces_iff.mpr ⟨block.kind?_header, block.depth_word_to_nat, ?_⟩)
  exact block.agrees_header.mpr announces.leaf_count_lt

end Header.Announces

/-- A header that the reader takes is the one that is built for its block. -/
theorem Reader.read?_of_try_next_block {reader body : Reader} {block : Block}
    (found : reader.tryNextBlock = (.ok (some block), body)) :
    reader.read? Header.layout = some (block.header, body) := by
  obtain ⟨header, taken, kind, depth, agreed⟩ := header_of_try_next_block found
  have announces : header.Announces block := Header.announces_iff.mpr ⟨kind, depth, agreed⟩
  rw [taken, announces.eq_header]

variable {Value : Type} {layout : Layout Value} {bytes middle after : List UInt8}
  {featureCount : Nat} {piece : Piece}

namespace InPadding

variable {first second : List Piece} {place : Nat}

theorem append_left (padding : InPadding first place) : InPadding (first ++ second) place := by
  obtain ⟨index, bound, single, span⟩ := padding
  refine ⟨index, ?_, ?_, ?_⟩
  · rw [List.length_append]
    omega
  · rw [List.getElem?_append_left bound]
    exact single
  · rw [List.take_append_of_le_length (Nat.le_of_lt bound)]
    exact span

theorem append_right (padding : InPadding second place) :
    InPadding (first ++ second) (space first + place) := by
  obtain ⟨index, bound, single, low, high⟩ := padding
  refine ⟨first.length + index, ?_, ?_, ?_⟩
  · rw [List.length_append]
    omega
  · rw [List.getElem?_append_right (Nat.le_add_right _ _), Nat.add_sub_cancel_left]
    exact single
  · rw [List.take_length_add_append, space_append]
    omega

end InPadding

/-- What is written in place of pieces at the front of the bytes. It takes the whole
space of the pieces, although the padding of the last one may be cut short there. -/
structure Renewed (front : List UInt8) (pieces : List Piece) (written : List UInt8) : Prop where
  filled : written.length = space pieces
  rounded : written.length = alignedSize front.length
  kept : ∀ place < front.length, ¬InPadding pieces place → written[place]? = front[place]?

namespace Renewed

variable {front behind written later : List UInt8} {pieces more : List Piece}

theorem append (first : Renewed front pieces written) (second : Renewed behind more later)
    (aligned : alignment ∣ front.length ∨ behind = []) :
    Renewed (front ++ behind) (pieces ++ more) (written ++ later) := by
  have inside : front.length ≤ written.length := by
    rw [first.rounded]
    exact size_le_aligned_size front.length
  have met : behind ≠ [] → front.length = written.length := by
    intro some
    rw [first.rounded, aligned_size_of_dvd (aligned.resolve_right some)]
  refine ⟨?_, ?_, fun place bound outside => ?_⟩
  · rw [List.length_append, space_append, first.filled, second.filled]
  · rw [List.length_append, List.length_append, first.rounded, second.rounded]
    cases aligned with
    | inl whole =>
        rw [alignment] at whole
        simp only [alignedSize, alignment]
        omega
    | inr none =>
        rw [none]
        rfl
  · by_cases early : place < front.length
    · rw [List.getElem?_append_left early, List.getElem?_append_left (by omega)]
      exact first.kept place early fun padding => outside padding.append_left
    · rw [List.length_append] at bound
      have same : front.length = written.length := by
        apply met
        intro none
        rw [none, List.length_nil] at bound
        omega
      rw [List.getElem?_append_right (by omega), List.getElem?_append_right (by omega), same]
      refine second.kept _ (by omega) fun padding => outside ?_
      have moved := @InPadding.append_right pieces _ _ padding
      rw [← first.filled, Nat.add_sub_cancel' (by omega)] at moved
      exact moved

end Renewed

def Rewrites (bytes : List UInt8) (pieces : List Piece) (after written : List UInt8) : Prop :=
  ∃ front, bytes = front ++ after ∧ (alignment ∣ front.length ∨ after = []) ∧
    Renewed front pieces written

namespace Rewrites

variable {written later : List UInt8} {pieces more : List Piece}

theorem nil : Rewrites bytes [] bytes [] := by
  refine ⟨[], rfl, .inl (Nat.dvd_zero _), rfl, rfl, fun place bound => ?_⟩
  exact absurd bound (Nat.not_lt_zero place)

theorem append (first : Rewrites bytes pieces middle written)
    (second : Rewrites middle more after later) :
    Rewrites bytes (pieces ++ more) after (written ++ later) := by
  obtain ⟨front, rfl, aligned, renewed⟩ := first
  obtain ⟨behind, rfl, alignedBehind, renewedBehind⟩ := second
  rw [List.append_eq_nil_iff] at aligned
  refine ⟨front ++ behind, (List.append_assoc _ _ _).symm, ?_,
    renewed.append renewedBehind (aligned.imp_right And.left)⟩
  cases aligned with
  | inr none => exact .inr none.2
  | inl whole =>
      refine alignedBehind.imp_left fun wholeBehind => ?_
      rw [List.length_append]
      exact Nat.dvd_add whole wholeBehind

end Rewrites

theorem Layout.Opens.rewrites (piece : Piece) (sized : piece.size = layout.size) {value : Value}
    (opens : layout.Opens bytes value after) :
    Rewrites bytes [piece] after (layout.encodePadded value) := by
  obtain ⟨padding, rfl, whole⟩ := opens
  have aligned := size_le_aligned_size layout.size
  have size := layout.length_encode value
  have inhabited : 0 < layout.size := by
    rw [← sized]
    cases piece <;> decide
  refine ⟨layout.encode value ++ padding, (List.append_assoc _ _ _).symm, ?_, ?_, ?_, ?_⟩
  · refine whole.imp (fun full => ?_) And.right
    rw [List.length_append, size, full, Nat.add_sub_cancel' aligned]
    exact alignment_dvd_aligned_size _
  · rw [layout.length_encode_padded, ← sized]
    rfl
  · rw [layout.length_encode_padded, List.length_append, size]
    simp only [alignedSize, alignment] at whole ⊢
    omega
  · intro place bound outside
    rw [List.length_append, size] at bound
    by_cases early : place < layout.size
    · rw [Layout.encodePadded, List.getElem?_append_left (by omega),
        List.getElem?_append_left (by omega)]
    · -- Only a single record has padding at all.
      cases piece with
      | header =>
          have own : layout.size = 16 := sized.symm
          have room : alignedSize layout.size = 16 := by rw [own]; rfl
          omega
      | wide =>
          have own : layout.size = 32 := sized.symm
          have room : alignedSize layout.size = 32 := by rw [own]; rfl
          omega
      | single =>
          have own : layout.size = 8 := sized.symm
          have room : alignedSize layout.size = 16 := by rw [own]; rfl
          have front : space [] = 0 := rfl
          exact absurd ⟨0, Nat.one_pos, rfl, by rw [List.take_zero]; omega,
            by rw [List.take_zero]; omega⟩ outside

theorem Layout.Spells.rewrites (piece : Piece) (sized : piece.size = layout.size)
    {values : List Value} (spells : layout.Spells bytes values after) :
    Rewrites bytes (List.replicate values.length piece) after
      (values.flatMap layout.encodePadded) := by
  induction spells with
  | nil => exact .nil
  | cons first _ induction => exact (first.rewrites piece sized).append induction

theorem Entry.Opens.rewrites {entry : Entry} (opens : entry.Opens featureCount bytes after) :
    Rewrites bytes entry.pieces after entry.bytes := by
  obtain ⟨header, body, middle, announced, announces, wide, single⟩ := opens.header
  have records := (wide.rewrites .wide rfl).append (single.rewrites .single rfl)
  rw [announces.eq_header] at announced
  exact (announced.rewrites .header rfl).append records

theorem Blocks.rewrites {entries : List Entry} (blocks : Blocks featureCount bytes entries after) :
    Rewrites bytes (piecesOf entries) after (entries.flatMap Entry.bytes) := by
  induction blocks with
  | nil => exact .nil
  | cons first _ induction => exact first.rewrites.append induction

theorem Blocks.written_again {entries : List Entry}
    (blocks : Blocks featureCount bytes entries after) (rest : List UInt8) :
    Blocks featureCount (entries.flatMap Entry.bytes ++ rest) entries rest := by
  induction blocks with
  | nil => exact .nil
  | cons first _ induction =>
      obtain ⟨header, body, middle, -, announces, -⟩ := first.header
      rw [List.flatMap_cons, List.append_assoc]
      exact .cons (Entry.opens_bytes first.complete announces.leaf_count_lt first.within _)
        induction

end BlockStream

open BlockStream

/-- What an accepted stream reads as gives the stream again when it is written: of
the same length up to the alignment, byte by byte the same outside of the padding
of single records, and accepted with the same outcome. A header that the reader
takes is always the one that is written. -/
theorem rewritten_stream_stands_for_stream {stream : List UInt8} {leaves : Array Float}
    {featureCount : Nat} {encoded : EncodedForest}
    (accepted : EncodedForest.ofParts stream leaves featureCount = .ok encoded) :
    let entries := entriesFrom (.ofBytes stream)
    entries.map Entry.block = encoded.blocks ∧
      (rewrite stream).length = alignedSize stream.length ∧
      (∀ place < stream.length, ¬InPadding (piecesOf entries) place →
        (rewrite stream)[place]? = stream[place]?) ∧
      (∃ again, EncodedForest.ofParts (rewrite stream) leaves featureCount = .ok again ∧
        again.blocks = encoded.blocks ∧ again.blockCount = encoded.blockCount ∧
        ∀ ops : LaneOps, ops.LaneWise →
          (∀ row, again.scoreOn ops row = encoded.scoreOn ops row) ∧
          ∀ width rows output, again.scoreIntoOn ops width rows output =
            encoded.scoreIntoOn ops width rows output) ∧
      ∀ (reader body : Reader) (block : Block),
        reader.tryNextBlock = (.ok (some block), body) →
          reader.read? Header.layout =
            some (.ofKind block.kind (UInt32.ofNat block.depth), body) := by
  intro entries
  obtain ⟨rfl, rfl, rfl⟩ := EncodedForest.parts_of_of_parts accepted
  obtain ⟨listed, blocks⟩ := encoded.exists_blocks
  obtain ⟨sameBlocks, -, read⟩ := encoded.blocks_of_stream blocks
  have written : rewrite encoded.stream = listed.flatMap Entry.bytes := by rw [rewrite_eq, read]
  obtain ⟨front, split, -, renewed⟩ := blocks.rewrites
  rw [List.append_nil] at split
  rw [← split, ← written] at renewed
  have again := blocks.written_again []
  rw [List.append_nil, ← written] at again
  obtain ⟨other, accepted, same, scores⟩ := EncodedForest.of_parts_of_blocks blocks again
  refine ⟨by rw [← sameBlocks, ← read], renewed.rounded, ?_, ⟨other, accepted, same, ?_, scores⟩,
    fun reader body block found => Reader.read?_of_try_next_block found⟩
  · rw [← read] at renewed
    exact renewed.kept
  · rw [← other.length_blocks, ← encoded.length_blocks, same]

/-- A split whose padding is filled and one whose padding is missing. -/
theorem rewritten_stream_stands_for_stream_zero_padded :
    let header : List UInt8 := [1, 0, 0, 0, 1, 0, 0, 0, 1, 0, 0, 0, 2, 0, 0, 0]
    let split : List UInt8 := [0, 0, 0, 63, 0, 0, 0, 0]
    let stream := header ++ split ++ List.replicate 8 7 ++ header ++ split
    let leaves : Array Float := #[0.5, 1.5, 2.5, 3.5]
    let pieces := piecesOf (entriesFrom (.ofBytes stream))
    ∃ encoded, EncodedForest.ofParts stream leaves 1 = .ok encoded ∧
      (rewrite stream).length = 64 ∧
      ¬InPadding pieces 19 ∧ (rewrite stream)[19]? = some 63 ∧
      InPadding pieces 24 ∧ (rewrite stream)[24]? = some 0 ∧ stream[24]? = some 7 ∧
      ∃ again, EncodedForest.ofParts (rewrite stream) leaves 1 = .ok again ∧
        again.blocks = encoded.blocks := by
  intro header split stream leaves pieces
  have reads : Reads (.ofBytes stream) 0
      [⟨⟨0, ⟨.scalar, 1, by decide⟩, ⟨16, stream.drop 16⟩⟩, ⟨[], [⟨0, ⟨0x3F000000⟩⟩]⟩⟩,
        ⟨⟨2, ⟨.scalar, 1, by decide⟩, ⟨48, stream.drop 48⟩⟩, ⟨[], [⟨0, ⟨0x3F000000⟩⟩]⟩⟩]
      ⟨56, []⟩ :=
    .block rfl rfl (.block rfl rfl (.done rfl))
  have within : (⟨[], [⟨0, ⟨0x3F000000⟩⟩]⟩ : Records).Within 1 := ⟨by simp, by simp⟩
  have checked : BlockStream.check stream leaves.size 1 = .ok 2 :=
    EncodedForest.check_eq_ok reads
      (List.forall_mem_cons.mpr ⟨within, List.forall_mem_singleton.mpr within⟩) rfl
  have accepted := EncodedForest.of_parts_eq_ok checked
  obtain ⟨-, length, kept, ⟨again, acceptedAgain, same, -⟩, -⟩ :=
    rewritten_stream_stands_for_stream accepted
  have listed : pieces = [.header, .single, .header, .single] := by
    rw [show pieces = piecesOf (entriesFrom (.ofBytes stream)) from rfl, reads.entries_from]
    rfl
  have zero : (rewrite stream)[24]? = some 0 := by
    rw [rewrite_eq, reads.entries_from]
    rfl
  have outside : ¬InPadding pieces 19 := by
    rw [listed]
    decide
  have inside : InPadding pieces 24 := by
    rw [listed]
    decide
  exact ⟨_, accepted, length.trans (by decide), outside, kept 19 (by decide) outside, inside, zero,
    rfl, again, acceptedAgain, same⟩

end SymmetricTrees
