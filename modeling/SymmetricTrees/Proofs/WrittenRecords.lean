import SymmetricTrees.BlockStream.Writer
import SymmetricTrees.Proofs.StreamFormat
import SymmetricTrees.Proofs.StreamWriting

/-!
Rows of records of any formats and sizes. Each write appends a whole number of
alignment units, so a reader that asks for the same formats in the same order
gets every record back and stands, after each read, where the writer stood after
the corresponding write.
-/

set_option autoImplicit false

namespace SymmetricTrees.BlockStream

/-- What a plain record may look like. Its size is any number of bytes, zero included. -/
structure Format where
  Value : Type
  layout : Layout Value

def Format.size (format : Format) : Nat := format.layout.size

structure Item where
  format : Format
  value : format.Value

namespace Item

def size (item : Item) : Nat := item.format.size

def bytes (item : Item) : List UInt8 := item.format.layout.encodePadded item.value

theorem length_bytes (item : Item) : item.bytes.length = alignedSize item.size :=
  item.format.layout.length_encode_padded item.value

theorem alignment_dvd_bytes (item : Item) : alignment ∣ item.bytes.length := by
  rw [item.length_bytes]
  exact alignment_dvd_aligned_size item.size

theorem bytes_eq_nil_iff (item : Item) : item.bytes = [] ↔ item.size = 0 := by
  rw [← List.length_eq_zero_iff, item.length_bytes, alignedSize, alignment]
  omega

end Item

namespace Writer

def writeItems (writer : Writer) (items : List Item) : Writer :=
  items.foldl (fun writer item => writer.write item.format.layout item.value) writer

theorem to_list_write_items (writer : Writer) (items : List Item) :
    (writer.writeItems items).toList = writer.toList ++ items.flatMap Item.bytes := by
  induction items generalizing writer with
  | nil => exact (List.append_nil _).symm
  | cons item rest induction =>
      have written : writer.writeItems (item :: rest) =
          (writer.write item.format.layout item.value).writeItems rest := rfl
      rw [written, induction, to_list_write, List.flatMap_cons, List.append_assoc]
      rfl

theorem length_write_items (items : List Item) :
    (({} : Writer).writeItems items).length = (items.flatMap Item.bytes).length := by
  have bytes := congrArg List.length (to_list_write_items {} items)
  exact bytes

end Writer

theorem length_flat_map_bytes (items : List Item) :
    (items.flatMap Item.bytes).length = (items.map fun item => alignedSize item.size).sum := by
  rw [List.length_flatMap]
  exact congrArg List.sum (List.map_congr_left fun item _ => item.length_bytes)

namespace Reader

def readItems? (reader : Reader) : List Format → Option (List Item × Reader)
  | [] => some ([], reader)
  | format :: others =>
      match reader.read? format.layout with
      | none => none
      | some (value, after) =>
          match after.readItems? others with
          | none => none
          | some (items, last) => some (⟨format, value⟩ :: items, last)

theorem read_items?_bytes (items : List Item) (position : Nat) (rest : List UInt8) :
    (⟨position, items.flatMap Item.bytes ++ rest⟩ : Reader).readItems? (items.map Item.format) =
      some (items, ⟨position + (items.flatMap Item.bytes).length, rest⟩) := by
  induction items generalizing position with
  | nil => rfl
  | cons item others induction =>
      have first := read?_encode_padded item.format.layout item.value position
        (others.flatMap Item.bytes ++ rest)
      rw [List.flatMap_cons, List.append_assoc, List.map_cons, readItems?, Item.bytes, first]
      simp only [induction, List.length_append, Nat.add_assoc]

end Reader

/-- A reader of a written row that has read the records before some place stands
at the length that the writer had there, having got these records back as they
were. It is exhausted exactly if all records from there on are empty, and then
there is neither another record nor another block. -/
theorem written_records_read_back (before after : List Item) :
    let writer := ({} : Writer).writeItems before
    writer.length = (before.map fun item => alignedSize item.size).sum ∧
      16 ∣ writer.length ∧
      ∃ reader, (Reader.ofBytes (writer.writeItems after).toList).readItems?
          (before.map Item.format) = some (before, reader) ∧
        reader.position = writer.length ∧
        (reader.isExhausted ↔ ∀ item ∈ after, item.size = 0) ∧
        (reader.isExhausted → reader.tryNextBlock = (.ok none, reader) ∧
          ∀ format : Format, 0 < format.size → reader.read? format.layout = none) := by
  intro writer
  have length : writer.length = (before.flatMap Item.bytes).length :=
    Writer.length_write_items before
  have stream : (writer.writeItems after).toList =
      before.flatMap Item.bytes ++ after.flatMap Item.bytes := by
    rw [Writer.to_list_write_items, Writer.to_list_write_items]
    rfl
  refine ⟨?_, ?_, ⟨writer.length, after.flatMap Item.bytes⟩, ?_, rfl, ?_, ?_⟩
  · rw [length, length_flat_map_bytes]
  · rw [length]
    exact alignment_dvd_flat_map fun item _ => item.alignment_dvd_bytes
  · have read := Reader.read_items?_bytes before 0 (after.flatMap Item.bytes)
    rw [Nat.zero_add, ← length] at read
    rw [stream]
    exact read
  · rw [Reader.isExhausted, List.isEmpty_iff, List.flatMap_eq_nil_iff]
    exact forall₂_congr fun item _ => item.bytes_eq_nil_iff
  · intro exhausted
    refine ⟨Reader.try_next_block_of_exhausted exhausted, fun format sized => ?_⟩
    rw [Reader.read?_eq_none_iff, List.isEmpty_iff.mp exhausted]
    exact sized

/-- A split and three bytes, with an empty record behind them. -/
theorem written_records_read_back_before_empty :
    let split : Item := ⟨⟨Split, splitLayout⟩, ⟨1, ⟨0x3F000000⟩⟩⟩
    let bytes : Item := ⟨⟨_, Layout.byte.repeated 3⟩, ⟨[7, 8, 9], rfl⟩⟩
    let empty : Item := ⟨⟨_, Layout.byte.repeated 0⟩, ⟨[], rfl⟩⟩
    let writer := ({} : Writer).writeItems [split, bytes]
    writer.length = 32 ∧
      ∃ reader, (Reader.ofBytes (writer.writeItems [empty]).toList).readItems?
          [split.format, bytes.format] = some ([split, bytes], reader) ∧
        reader.position = 32 ∧ reader.isExhausted ∧
        reader.tryNextBlock = (.ok none, reader) ∧ reader.read? splitLayout = none := by
  intro split bytes empty writer
  obtain ⟨length, -, reader, read, position, exhausted, ended⟩ :=
    written_records_read_back [split, bytes] [empty]
  have sum : ([split, bytes].map fun item => alignedSize item.size).sum = 32 := by decide
  have last := exhausted.mpr (List.forall_mem_singleton.mpr rfl)
  exact ⟨length.trans sum, reader, read, position.trans (length.trans sum), last, (ended last).1,
    (ended last).2 split.format (by decide)⟩

end SymmetricTrees.BlockStream
