import SymmetricTrees.Proofs.BlockPositions
import SymmetricTrees.Proofs.StreamBounds

/-!
The format of block streams, told by the bytes alone. A stream is a row of
blocks: a header whose fields agree with each other, the wide records that it
announces, then the single ones. The reader finds a record, a header or a block
exactly where the format has one.
-/

set_option autoImplicit false

namespace SymmetricTrees.BlockStream

variable {Value : Type}

namespace Layout

/-- A record opens the bytes. Headers (16 bytes) and wide records (32 bytes) have no
padding, single records (8 bytes) have 8 bytes of it. The padding may hold anything,
and only the end of the stream cuts it short. -/
def Opens (layout : Layout Value) (bytes : List UInt8) (value : Value) (after : List UInt8) :
    Prop :=
  ∃ padding, bytes = layout.encode value ++ (padding ++ after) ∧
    (padding.length = alignedSize layout.size - layout.size ∨
      padding.length < alignedSize layout.size - layout.size ∧ after = [])

inductive Spells (layout : Layout Value) : List UInt8 → List Value → List UInt8 → Prop
  | nil {bytes : List UInt8} : layout.Spells bytes [] bytes
  | cons {bytes middle after : List UInt8} {value : Value} {values : List Value}
      (first : layout.Opens bytes value middle) (others : layout.Spells middle values after) :
      layout.Spells bytes (value :: values) after

end Layout

/-- The fields of a header are those of a block; its leaf count is the number of
leaf values itself, not a remainder of it. -/
structure Header.Announces (header : Header) (block : Block) : Prop where
  tag : header.tag = block.kind.tag
  depth : header.depth.toNat = block.depth
  recordCount : header.recordCount.toNat = block.wideCount + block.singleCount
  leafCount : header.leafCount.toNat = block.kind.treeCount * 2 ^ block.depth

/-- A block opens the bytes and tests declared features only. -/
structure Entry.Opens (entry : Entry) (featureCount : Nat) (bytes after : List UInt8) : Prop where
  header : ∃ header body middle, Header.layout.Opens bytes header body ∧
    header.Announces entry.block ∧ WideSplit.layout.Spells body entry.records.wide middle ∧
    splitLayout.Spells middle entry.records.single after
  complete : entry.Complete
  within : entry.records.Within featureCount

/-- One block after the other at the front of the bytes. -/
inductive Blocks (featureCount : Nat) : List UInt8 → List Entry → List UInt8 → Prop
  | nil {bytes : List UInt8} : Blocks featureCount bytes [] bytes
  | cons {bytes middle after : List UInt8} {entry : Entry} {entries : List Entry}
      (first : entry.Opens featureCount bytes middle)
      (others : Blocks featureCount middle entries after) :
      Blocks featureCount bytes (entry :: entries) after

def leafSum (entries : List Entry) : Nat := (entries.map fun entry => entry.block.leafCount).sum

theorem leaf_sum_cons (entry : Entry) (entries : List Entry) :
    leafSum (entry :: entries) = entry.block.leafCount + leafSum entries := rfl

theorem split_exact?_eq_none_iff {count : Nat} {input : List UInt8} :
    splitExact? count input = none ↔ input.length < count := by
  induction count generalizing input with
  | zero => simp [splitExact?]
  | succ count induction =>
      cases input with
      | nil => simp [splitExact?]
      | cons byte rest =>
          rw [splitExact?, List.length_cons, Nat.succ_lt_succ_iff, ← induction]
          split <;> simp_all

namespace Reader

variable {reader : Reader} {layout : Layout Value} {after : List UInt8}

theorem rest_of_bytes (bytes : List UInt8) : (ofBytes bytes).rest = bytes := rfl

theorem finish_of_bytes (bytes : List UInt8) : (ofBytes bytes).finish = bytes.length :=
  Nat.zero_add _

theorem position_eq (reader : Reader) : reader.position = reader.finish - reader.rest.length :=
  (Nat.add_sub_cancel _ _).symm

theorem read?_eq_none_iff : reader.read? layout = none ↔ reader.rest.length < layout.size := by
  rw [← split_exact?_eq_none_iff, read?]
  split <;> simp_all

/-- The reader finds a record exactly where one opens the bytes. -/
theorem opens_iff_read? {value : Value} :
    layout.Opens reader.rest value after ↔
      ∃ next, reader.read? layout = some (value, next) ∧ next.rest = after := by
  constructor
  · rintro ⟨padding, bytes, whole⟩
    have found := split_exact?_append (layout.encode value) (padding ++ after)
    rw [layout.length_encode, ← bytes] at found
    refine ⟨_, read?_eq_some_iff.mpr ⟨_, _, found, layout.decode_encode value, rfl⟩, ?_⟩
    rcases whole with full | ⟨cut, rfl⟩
    · exact List.drop_left' full
    · rw [List.append_nil]
      exact List.drop_eq_nil_of_le (Nat.le_of_lt cut)
  · rintro ⟨next, taken, rfl⟩
    obtain ⟨record, suffix, found, decoded, rfl⟩ := read?_eq_some_iff.mp taken
    obtain ⟨length, bytes⟩ := eq_append_of_split_exact? found
    have encoded : layout.encode value = record := by
      rw [← decoded]
      exact layout.encode_decode record length
    refine ⟨suffix.take (alignedSize layout.size - layout.size), ?_, ?_⟩
    · rw [List.take_append_drop, encoded, bytes]
    · rw [List.length_take, List.drop_eq_nil_iff]
      omega

theorem spells_iff_read_many? {values : List Value} :
    layout.Spells reader.rest values after ↔
      ∃ next, reader.readMany? layout values.length = some (values, next) ∧ next.rest = after := by
  induction values generalizing reader with
  | nil =>
      constructor
      · intro spells
        cases spells
        exact ⟨reader, rfl, rfl⟩
      · rintro ⟨next, taken, rfl⟩
        simp only [List.length_nil, readMany?, Option.some.injEq, Prod.mk.injEq, true_and] at taken
        rw [taken]
        exact .nil
  | cons value values induction =>
      constructor
      · intro spells
        cases spells with
        | cons first others =>
            obtain ⟨middle, taken, rfl⟩ := opens_iff_read?.mp first
            obtain ⟨next, later, same⟩ := induction.mp others
            exact ⟨next, read_many?_succ_eq_some_iff.mpr ⟨value, middle, values, taken, later, rfl⟩,
              same⟩
      · rintro ⟨next, taken, same⟩
        obtain ⟨_, middle, _, first, later, equal⟩ := read_many?_succ_eq_some_iff.mp taken
        obtain ⟨rfl, rfl⟩ := List.cons.inj equal
        exact .cons (opens_iff_read?.mpr ⟨middle, first, rfl⟩)
          (induction.mpr ⟨next, later, same⟩)

end Reader

theorem Layout.Opens.size_le {layout : Layout Value} {bytes after : List UInt8} {value : Value}
    (opens : layout.Opens bytes value after) : layout.size ≤ bytes.length := by
  obtain ⟨padding, rfl, -⟩ := opens
  rw [List.length_append, layout.length_encode]
  exact Nat.le_add_right _ _

theorem Layout.Opens.value_unique {layout : Layout Value} {bytes after later : List UInt8}
    {value other : Value} (opens : layout.Opens bytes value after)
    (also : layout.Opens bytes other later) : value = other := by
  obtain ⟨next, taken, -⟩ := (@Reader.opens_iff_read? _ ⟨0, bytes⟩ _ _ _).mp opens
  obtain ⟨last, found, -⟩ := (@Reader.opens_iff_read? _ ⟨0, bytes⟩ _ _ _).mp also
  rw [taken] at found
  exact (Prod.mk.inj (Option.some.inj found)).1

theorem Kind.of_tag?_eq_some_iff {tag : UInt32} {kind : Kind} :
    Kind.ofTag? tag = some kind ↔ tag = kind.tag := by
  unfold ofTag?
  split
  · cases kind <;> simp_all [Kind.tag]
  · split
    · cases kind <;> simp_all [Kind.tag]
    · split <;> cases kind <;> simp_all [Kind.tag]

theorem Header.announces_iff {header : Header} {block : Block} :
    header.Announces block ↔
      header.kind? = some block.kind ∧ header.depth.toNat = block.depth ∧
        header.agrees block.kind = true := by
  have leaves (depth : header.depth.toNat = block.depth) :
      header.leafCount.toUInt64 = block.kind.leafWord header.depth ↔
        header.leafCount.toNat = block.kind.treeCount * 2 ^ block.depth := by
    have word : (block.kind.leafWord header.depth).toNat =
        block.kind.treeCount * 2 ^ block.depth := by
      rw [leaf_word_to_nat (by rw [depth]; exact block.depth_le), depth, Nat.shiftLeft_eq]
    rw [← UInt64.toNat_inj, UInt32.toNat_toUInt64, word]
  rw [kind?, Kind.of_tag?_eq_some_iff]
  simp only [agrees, Bool.and_eq_true, beq_iff_eq]
  constructor
  · rintro ⟨tag, depth, records, counted⟩
    refine ⟨tag, depth, ?_, (leaves depth).mpr counted⟩
    rw [depth]
    exact records
  · rintro ⟨tag, depth, records, counted⟩
    rw [depth] at records
    exact ⟨tag, depth, records, (leaves depth).mp counted⟩

/-- The block of a header that stands at an offset, or its first fault. -/
def Header.judge (header : Header) (offset : Nat) : Except Fault Block :=
  match header.kind? with
  | none => .error (.unknownKind offset header.tag)
  | some kind =>
      if shallow : header.depth.toNat ≤ maxDepth then
        if header.agrees kind then .ok ⟨kind, header.depth.toNat, shallow⟩
        else .error (.inconsistentHeader offset)
      else .error (.depthTooLarge offset header.depth)

theorem Header.judge_eq_ok {header : Header} {block : Block} (announces : header.Announces block)
    (offset : Nat) : header.judge offset = .ok block := by
  obtain ⟨kind, depth, agreed⟩ := Header.announces_iff.mp announces
  simp only [judge, kind, if_pos agreed, depth, dif_pos block.depth_le]

namespace Reader

variable {reader : Reader} {after : List UInt8}

theorem not_exhausted_of_read? {Value : Type} {layout : Layout Value} (sized : 0 < layout.size)
    {value : Value} {next : Reader} (taken : reader.read? layout = some (value, next)) :
    ¬reader.isExhausted = true := by
  intro exhausted
  have shorter := read?_length taken
  rw [List.isEmpty_iff.mp exhausted] at shorter
  simp only [List.length_nil] at shorter
  omega

theorem try_next_block_of_read? {header : Header} {next : Reader}
    (taken : reader.read? Header.layout = some (header, next)) :
    reader.tryNextBlock = ((header.judge reader.position).map some, next) := by
  have present := not_exhausted_of_read? (show 0 < Header.layout.size by decide) taken
  simp only [tryNextBlock, if_neg present, taken, Header.judge]
  cases header.kind? with
  | none => rfl
  | some kind =>
      by_cases shallow : header.depth.toNat ≤ maxDepth
      · simp only [dif_pos shallow]
        split <;> rfl
      · simp only [dif_neg shallow]
        rfl

theorem announces_iff_try_next_block {block : Block} :
    (∃ header, Header.layout.Opens reader.rest header after ∧ header.Announces block) ↔
      ∃ next, reader.tryNextBlock = (.ok (some block), next) ∧ next.rest = after := by
  constructor
  · rintro ⟨header, opens, announces⟩
    obtain ⟨next, taken, same⟩ := opens_iff_read?.mp opens
    refine ⟨next, ?_, same⟩
    rw [try_next_block_of_read? taken, Header.judge_eq_ok announces]
    rfl
  · rintro ⟨next, found, same⟩
    obtain ⟨header, taken, kind, depth, agreed⟩ := header_of_try_next_block found
    exact ⟨header, opens_iff_read?.mpr ⟨next, taken, same⟩,
      Header.announces_iff.mpr ⟨kind, depth, agreed⟩⟩

end Reader

theorem Entry.opens_iff {entry : Entry} {featureCount : Nat} {reader : Reader}
    {after : List UInt8} :
    entry.Opens featureCount reader.rest after ↔
      ∃ body next, reader.tryNextBlock = (.ok (some entry.block), body) ∧
        body.readRecords? entry.block = some (entry.records, next) ∧ next.rest = after ∧
        entry.records.Within featureCount := by
  constructor
  · rintro ⟨⟨header, body, middle, opens, announces, wide, single⟩, complete, within⟩
    obtain ⟨afterHeader, found, rfl⟩ :=
      Reader.announces_iff_try_next_block.mp ⟨header, opens, announces⟩
    obtain ⟨afterWide, wideTaken, rfl⟩ := Reader.spells_iff_read_many?.mp wide
    obtain ⟨next, singleTaken, same⟩ := Reader.spells_iff_read_many?.mp single
    rw [complete.wide] at wideTaken
    rw [complete.single] at singleTaken
    exact ⟨afterHeader, next, found,
      Reader.read_records?_eq_some_iff.mpr ⟨afterWide, wideTaken, singleTaken⟩, same, within⟩
  · rintro ⟨body, next, found, taken, same, within⟩
    have complete : entry.Complete := Reader.read_records?_complete taken
    obtain ⟨middle, wideTaken, singleTaken⟩ := Reader.read_records?_eq_some_iff.mp taken
    obtain ⟨header, opens, announces⟩ := Reader.announces_iff_try_next_block.mpr ⟨body, found, rfl⟩
    rw [← complete.wide] at wideTaken
    rw [← complete.single] at singleTaken
    exact ⟨⟨header, body.rest, middle.rest, opens, announces,
      Reader.spells_iff_read_many?.mpr ⟨middle, wideTaken, rfl⟩,
      Reader.spells_iff_read_many?.mpr ⟨next, singleTaken, same⟩⟩, complete, within⟩

/-- What is read to the end of a stream are its blocks. -/
theorem Reads.blocks {featureCount : Nat} {reader last : Reader} {offset : Nat}
    {visits : List Visit} (reads : Reads reader offset visits last)
    (within : ∀ visit ∈ visits, visit.records.Within featureCount) :
    Blocks featureCount reader.rest (visits.map Visit.entry) [] := by
  induction reads with
  | done exhausted =>
      rw [List.isEmpty_iff.mp exhausted]
      exact .nil
  | block next taken _ induction =>
      obtain ⟨here, later⟩ := List.forall_mem_cons.mp within
      exact .cons (Entry.opens_iff.mpr ⟨_, _, next, taken, rfl, here⟩) (induction later)

/-- Blocks are paid for by their bytes, so their leaf values never outgrow a
64-bit word in a stream of less than `2 ^ 40` bytes. -/
theorem Blocks.leaf_sum_le {featureCount : Nat} {bytes after : List UInt8} {entries : List Entry}
    (blocks : Blocks featureCount bytes entries after) :
    leafSum entries + 2 ^ 23 * after.length ≤ 2 ^ 23 * bytes.length := by
  induction blocks with
  | nil => exact Nat.le_of_eq (Nat.zero_add _)
  | @cons bytes middle after entry entries first _ induction =>
      obtain ⟨body, next, found, taken, rfl, -⟩ :=
        (@Entry.opens_iff entry featureCount (Reader.ofBytes bytes) middle).mp first
      have here := leaf_count_le_bytes (leaf_count_lt found)
      have header : body.rest.length + 16 ≤ bytes.length := (Reader.try_next_block_finish found).2
      have records := (Reader.read_records?_finish taken).2
      rw [leaf_sum_cons]
      omega

end SymmetricTrees.BlockStream
