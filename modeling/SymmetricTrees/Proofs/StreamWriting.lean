import SymmetricTrees.Proofs.BlockPositions
import SymmetricTrees.Proofs.StreamBounds

/-!
Streams that were written block by block. A padded record reads back as itself,
and so does a header whose leaf count fits in 32 bits; any other header is
refused. A stream of written blocks therefore reads as these blocks or not at
all, and it reads if no block asks for more leaf values than a header counts.
-/

set_option autoImplicit false

namespace SymmetricTrees.BlockStream

theorem size_le_aligned_size (size : Nat) : size ≤ alignedSize size := by
  rw [alignedSize, alignment]
  omega

theorem alignment_dvd_aligned_size (size : Nat) : alignment ∣ alignedSize size :=
  Nat.dvd_mul_left _ _

theorem aligned_size_of_dvd {size : Nat} (aligned : alignment ∣ size) :
    alignedSize size = size := by
  rw [alignment] at aligned
  rw [alignedSize, alignment]
  omega

theorem Layout.length_encode_padded {Value : Type} (layout : Layout Value) (value : Value) :
    (layout.encodePadded value).length = alignedSize layout.size := by
  have aligned := size_le_aligned_size layout.size
  rw [encodePadded, List.length_append, layout.length_encode, List.length_replicate]
  omega

theorem Layout.alignment_dvd_encode_padded {Value : Type} (layout : Layout Value) (value : Value) :
    alignment ∣ (layout.encodePadded value).length := by
  rw [layout.length_encode_padded]
  exact alignment_dvd_aligned_size _

theorem alignment_dvd_flat_map {Item : Type*} {items : List Item} {form : Item → List UInt8}
    (each : ∀ item ∈ items, alignment ∣ (form item).length) :
    alignment ∣ (items.flatMap form).length := by
  induction items with
  | nil => exact Nat.dvd_zero _
  | cons item rest induction =>
      obtain ⟨here, later⟩ := List.forall_mem_cons.mp each
      rw [List.flatMap_cons, List.length_append]
      exact Nat.dvd_add here (induction later)

namespace Reader

variable {Value : Type} {layout : Layout Value}

theorem read?_encode_padded (layout : Layout Value) (value : Value) (position : Nat)
    (rest : List UInt8) :
    (⟨position, layout.encodePadded value ++ rest⟩ : Reader).read? layout =
      some (value, ⟨position + (layout.encodePadded value).length, rest⟩) := by
  have aligned := size_le_aligned_size layout.size
  have found := split_exact?_append (layout.encode value)
    (List.replicate (alignedSize layout.size - layout.size) 0 ++ rest)
  rw [layout.length_encode] at found
  have padding : (List.replicate (alignedSize layout.size - layout.size) (0 : UInt8)).length =
      alignedSize layout.size - layout.size := List.length_replicate
  simp only [read?, Layout.encodePadded, List.append_assoc, found, layout.decode_encode,
    List.take_left' padding, List.drop_left' padding, List.length_append, layout.length_encode,
    padding, Nat.add_assoc]

theorem read_many?_encode_padded (layout : Layout Value) (values : List Value) (position : Nat)
    (rest : List UInt8) :
    (⟨position, values.flatMap layout.encodePadded ++ rest⟩ : Reader).readMany? layout
        values.length =
      some (values, ⟨position + (values.flatMap layout.encodePadded).length, rest⟩) := by
  induction values generalizing position with
  | nil => rfl
  | cons value others induction =>
      rw [List.flatMap_cons, List.append_assoc, List.length_cons, readMany?,
        read?_encode_padded]
      simp only [induction, List.length_append, Nat.add_assoc]

end Reader

def Block.header (block : Block) : Header := .ofKind block.kind (UInt32.ofNat block.depth)

namespace Block

theorem depth_word_to_nat (block : Block) : (UInt32.ofNat block.depth).toNat = block.depth := by
  have shallow := block.depth_le
  refine UInt32.toNat_ofNat_of_lt' ?_
  simp only [maxDepth, UInt32.size] at shallow ⊢
  omega

theorem kind?_header (block : Block) : block.header.kind? = some block.kind := by
  obtain ⟨kind, depth, shallow⟩ := block
  cases kind <;> rfl

theorem record_count_header (block : Block) :
    block.header.recordCount.toNat = block.wideCount + block.singleCount := by
  obtain ⟨kind, depth, shallow⟩ := block
  have word := depth_word_to_nat ⟨kind, depth, shallow⟩
  simp only at word
  simp only [header, Header.ofKind, word, wideCount, singleCount]
  refine UInt32.toNat_ofNat_of_lt' ?_
  simp only [maxDepth, UInt32.size] at shallow ⊢
  cases kind <;> simp only [Kind.wideCount, Kind.singleCount] <;> omega

theorem agrees_header (block : Block) :
    block.header.agrees block.kind = true ↔ block.leafCount < 2 ^ 32 := by
  have word := block.depth_word_to_nat
  have records := block.record_count_header
  have leaves : (block.kind.leafWord (UInt32.ofNat block.depth)).toNat = block.leafCount := by
    rw [leaf_word_to_nat (by rw [word]; exact block.depth_le), word]
    rfl
  have depth : block.header.depth = UInt32.ofNat block.depth := rfl
  have counted : block.header.leafCount =
      (block.kind.leafWord (UInt32.ofNat block.depth)).toUInt32 := rfl
  simp only [Header.agrees, Bool.and_eq_true, beq_iff_eq, depth, word, counted]
  constructor
  · intro agreed
    have numbers := congrArg UInt64.toNat agreed.2
    rw [UInt32.toNat_toUInt64, UInt64.toNat_toUInt32, leaves] at numbers
    omega
  · intro small
    refine ⟨records, UInt64.toNat_inj.mp ?_⟩
    rw [UInt32.toNat_toUInt64, UInt64.toNat_toUInt32, leaves]
    exact Nat.mod_eq_of_lt small

end Block

namespace Reader

/-- A written header is taken as its block, or refused because it cannot count
the leaf values of the block. -/
theorem try_next_block_header (block : Block) (position : Nat) (rest : List UInt8) :
    (⟨position, Header.layout.encodePadded block.header ++ rest⟩ : Reader).tryNextBlock =
      (if block.leafCount < 2 ^ 32 then .ok (some block) else .error (.inconsistentHeader position),
        ⟨position + 16, rest⟩) := by
  have taken := read?_encode_padded Header.layout block.header position rest
  have size : (Header.layout.encodePadded block.header).length = 16 := by
    simp only [Layout.encodePadded, List.length_append, Header.layout.length_encode,
      List.length_replicate]
    rfl
  have present : ¬(⟨position, Header.layout.encodePadded block.header ++ rest⟩ :
      Reader).isExhausted = true := by
    intro exhausted
    have empty := congrArg List.length (List.isEmpty_iff.mp exhausted)
    simp only [List.length_append, size, List.length_nil] at empty
    omega
  have depth : block.header.depth.toNat = block.depth := block.depth_word_to_nat
  have shallow : block.header.depth.toNat ≤ maxDepth := by
    rw [depth]
    exact block.depth_le
  rw [size] at taken
  simp only [tryNextBlock, if_neg present, taken, block.kind?_header, dif_pos shallow,
    Block.agrees_header]
  by_cases counted : block.leafCount < 2 ^ 32
  · simp only [if_pos counted, depth]
  · simp only [if_neg counted]

end Reader

namespace Entry

def recordBytes (entry : Entry) : List UInt8 :=
  entry.records.wide.flatMap WideSplit.layout.encodePadded ++
    entry.records.single.flatMap splitLayout.encodePadded

def bytes (entry : Entry) : List UInt8 :=
  Header.layout.encodePadded entry.block.header ++ entry.recordBytes

theorem alignment_dvd_bytes (entry : Entry) : alignment ∣ entry.bytes.length := by
  rw [bytes, recordBytes, List.length_append, List.length_append]
  apply Nat.dvd_add
  · exact Header.layout.alignment_dvd_encode_padded _
  · apply Nat.dvd_add
    · exact alignment_dvd_flat_map fun record _ =>
        WideSplit.layout.alignment_dvd_encode_padded record
    · exact alignment_dvd_flat_map fun split _ => splitLayout.alignment_dvd_encode_padded split

variable {entry : Entry} {entries : List Entry}

theorem read_records?_record_bytes (complete : entry.Complete) (position : Nat)
    (rest : List UInt8) :
    ∃ finish, (⟨position, entry.recordBytes ++ rest⟩ : Reader).readRecords? entry.block =
      some (entry.records, ⟨finish, rest⟩) := by
  have wide := Reader.read_many?_encode_padded WideSplit.layout entry.records.wide position
    (entry.records.single.flatMap splitLayout.encodePadded ++ rest)
  have single := Reader.read_many?_encode_padded splitLayout entry.records.single
    (position + (entry.records.wide.flatMap WideSplit.layout.encodePadded).length) rest
  rw [complete.wide] at wide
  rw [complete.single] at single
  refine ⟨position + (entry.records.wide.flatMap WideSplit.layout.encodePadded).length +
    (entry.records.single.flatMap splitLayout.encodePadded).length, ?_⟩
  simp only [Reader.readRecords?, recordBytes, List.append_assoc, wide, single]

/-- Written blocks read as themselves if their headers can count the leaf values. -/
theorem reads_of_bytes (complete : ∀ entry ∈ entries, entry.Complete)
    (counted : ∀ entry ∈ entries, entry.block.leafCount < 2 ^ 32) (position offset : Nat) :
    ∃ visits last, Reads ⟨position, entries.flatMap bytes⟩ offset visits last ∧
      visits.map Visit.entry = entries := by
  induction entries generalizing position offset with
  | nil => exact ⟨[], _, .done rfl, rfl⟩
  | cons entry others induction =>
      obtain ⟨completeHere, completeLater⟩ := List.forall_mem_cons.mp complete
      obtain ⟨countedHere, countedLater⟩ := List.forall_mem_cons.mp counted
      have next := Reader.try_next_block_header entry.block position
        (entry.recordBytes ++ others.flatMap bytes)
      rw [if_pos countedHere] at next
      obtain ⟨finish, taken⟩ :=
        read_records?_record_bytes completeHere (position + 16) (others.flatMap bytes)
      obtain ⟨visits, last, reads, same⟩ :=
        induction completeLater countedLater finish (offset + entry.block.leafCount)
      have readsHere := Reads.block next taken reads
      rw [← List.append_assoc] at readsHere
      refine ⟨_, last, readsHere, ?_⟩
      rw [List.map_cons, same]
      rfl

theorem entries_of_reads (complete : ∀ entry ∈ entries, entry.Complete) {position offset : Nat}
    {visits : List Visit} {last : Reader}
    (reads : Reads ⟨position, entries.flatMap bytes⟩ offset visits last) :
    visits.map Visit.entry = entries := by
  induction entries generalizing position offset visits with
  | nil =>
      cases reads with
      | done => rfl
      | block next => cases next
  | cons entry others induction =>
      obtain ⟨completeHere, completeLater⟩ := List.forall_mem_cons.mp complete
      have header := Reader.try_next_block_header entry.block position
        (entry.recordBytes ++ others.flatMap bytes)
      obtain ⟨finish, stored⟩ :=
        read_records?_record_bytes completeHere (position + 16) (others.flatMap bytes)
      rw [List.flatMap_cons, bytes, List.append_assoc] at reads
      cases reads with
      | done exhausted =>
          rw [Reader.try_next_block_of_exhausted exhausted] at header
          split at header <;> simp at header
      | block next taken laterReads =>
          -- A written header is either refused or read as the block it was
          -- written for, and here it was not refused.
          rw [header] at next
          split at next
          case isFalse => simp at next
          case isTrue =>
            simp only [Prod.mk.injEq, Except.ok.injEq, Option.some.injEq] at next
            obtain ⟨rfl, rfl⟩ := next
            have same := stored.symm.trans taken
            simp only [Option.some.injEq, Prod.mk.injEq] at same
            obtain ⟨rfl, rfl⟩ := same
            rw [List.map_cons, induction completeLater laterReads]
            rfl

end Entry

end SymmetricTrees.BlockStream
