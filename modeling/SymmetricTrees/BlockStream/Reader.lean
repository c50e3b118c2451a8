import SymmetricTrees.BlockStream.Record
import SymmetricTrees.BlockStream.Fault

/-!
A forward-only checked reader of block streams. A read that does not fit in the
remaining bytes yields nothing and moves nothing; a read that fits also passes
the padding, as far as the stream has it. Main statements: a successful read
takes exactly the record's bytes and its padding from the front.
-/

set_option autoImplicit false

namespace SymmetricTrees.BlockStream

/-- The first `count` bytes and the rest, or nothing if there are fewer. -/
def splitExact? : Nat → List UInt8 → Option (List UInt8 × List UInt8)
  | 0, input => some ([], input)
  | _ + 1, [] => none
  | count + 1, byte :: rest =>
      match splitExact? count rest with
      | some (front, suffix) => some (byte :: front, suffix)
      | none => none

theorem split_exact?_append (front suffix : List UInt8) :
    splitExact? front.length (front ++ suffix) = some (front, suffix) := by
  induction front with
  | nil => rfl
  | cons byte rest induction =>
      simp only [List.length_cons, List.cons_append, splitExact?, induction]

theorem eq_append_of_split_exact? {count : Nat} {input front suffix : List UInt8}
    (found : splitExact? count input = some (front, suffix)) :
    front.length = count ∧ input = front ++ suffix := by
  induction count generalizing input front suffix with
  | zero =>
      simp only [splitExact?, Option.some.injEq, Prod.mk.injEq] at found
      simp [← found.1, ← found.2]
  | succ count induction =>
      cases input with
      | nil => simp [splitExact?] at found
      | cons byte rest =>
          simp only [splitExact?] at found
          split at found
          case h_1 deeper suffix' shorter =>
            simp only [Option.some.injEq, Prod.mk.injEq] at found
            obtain ⟨length, split⟩ := induction shorter
            simp [← found.1, ← found.2, length, split]
          case h_2 => simp at found

structure Reader where
  /-- The byte offset of the next record. -/
  position : Nat
  rest : List UInt8

namespace Reader

variable {Value : Type}

def ofBytes (bytes : List UInt8) : Reader := ⟨0, bytes⟩

def isExhausted (reader : Reader) : Bool := reader.rest.isEmpty

/-- Reads one record and passes its padding. -/
def read? (reader : Reader) (layout : Layout Value) : Option (Value × Reader) :=
  match splitExact? layout.size reader.rest with
  | none => none
  | some (record, after) =>
      let padding := alignedSize layout.size - layout.size
      some (layout.decode record,
        ⟨reader.position + layout.size + (after.take padding).length, after.drop padding⟩)

def readMany? (reader : Reader) (layout : Layout Value) :
    Nat → Option (List Value × Reader)
  | 0 => some ([], reader)
  | count + 1 =>
      match reader.read? layout with
      | none => none
      | some (value, after) =>
          match after.readMany? layout count with
          | none => none
          | some (values, last) => some (value :: values, last)

/-- Reads and judges the next header: nothing at the end of the stream, else a
block or the first fault of the header. A bad header that could be read is
passed all the same. -/
def tryNextBlock (reader : Reader) : Except Fault (Option Block) × Reader :=
  if reader.isExhausted then (.ok none, reader)
  else
    match reader.read? Header.layout with
    | none => (.error (.truncated reader.position), reader)
    | some (header, after) =>
        match header.kind? with
        | none => (.error (.unknownKind reader.position header.tag), after)
        | some kind =>
            if shallow : header.depth.toNat ≤ maxDepth then
              if header.agrees kind then
                (.ok (some ⟨kind, header.depth.toNat, shallow⟩), after)
              else (.error (.inconsistentHeader reader.position), after)
            else (.error (.depthTooLarge reader.position header.depth), after)

/-- The next block, absent at the end of the stream and on a bad header. -/
def nextBlock? (reader : Reader) : Option Block × Reader :=
  match reader.tryNextBlock with
  | (.ok block, after) => (block, after)
  | (.error _, after) => (none, after)

theorem read?_eq_some_iff {reader after : Reader} {layout : Layout Value} {value : Value} :
    reader.read? layout = some (value, after) ↔
      ∃ record suffix, splitExact? layout.size reader.rest = some (record, suffix) ∧
        layout.decode record = value ∧
        ⟨reader.position + layout.size +
            (suffix.take (alignedSize layout.size - layout.size)).length,
          suffix.drop (alignedSize layout.size - layout.size)⟩ = after := by
  constructor
  · intro taken
    simp only [read?] at taken
    split at taken
    case h_1 => simp at taken
    case h_2 record suffix found =>
      simp only [Option.some.injEq, Prod.mk.injEq] at taken
      exact ⟨record, suffix, found, taken⟩
  · rintro ⟨record, suffix, found, rfl, rfl⟩
    simp only [read?, found]

theorem read_many?_succ_eq_some_iff {reader after : Reader} {layout : Layout Value} {count : Nat}
    {values : List Value} :
    reader.readMany? layout (count + 1) = some (values, after) ↔
      ∃ value middle rest, reader.read? layout = some (value, middle) ∧
        middle.readMany? layout count = some (rest, after) ∧ value :: rest = values := by
  constructor
  · intro taken
    simp only [readMany?] at taken
    split at taken
    case h_1 => simp at taken
    case h_2 value middle first =>
      split at taken
      case h_1 => simp at taken
      case h_2 rest last others =>
        simp only [Option.some.injEq, Prod.mk.injEq] at taken
        obtain ⟨same, rfl⟩ := taken
        exact ⟨value, middle, rest, first, others, same⟩
  · rintro ⟨value, middle, rest, first, others, rfl⟩
    simp only [readMany?, first, others]

theorem read?_length {reader after : Reader} {layout : Layout Value} {value : Value}
    (taken : reader.read? layout = some (value, after)) :
    after.rest.length + layout.size ≤ reader.rest.length := by
  obtain ⟨record, suffix, found, -, rfl⟩ := read?_eq_some_iff.mp taken
  obtain ⟨length, split⟩ := eq_append_of_split_exact? found
  rw [split, List.length_append, List.length_drop, length]
  omega

theorem read_many?_length {layout : Layout Value} {count : Nat} {reader after : Reader}
    {values : List Value} (taken : reader.readMany? layout count = some (values, after)) :
    after.rest.length ≤ reader.rest.length := by
  induction count generalizing reader values with
  | zero =>
      simp only [readMany?, Option.some.injEq, Prod.mk.injEq] at taken
      exact Nat.le_of_eq (congrArg (fun reader => reader.rest.length) taken.2.symm)
  | succ count induction =>
      obtain ⟨value, middle, rest, first, others, -⟩ := read_many?_succ_eq_some_iff.mp taken
      have shorter := read?_length first
      have later := induction others
      omega

/-- A block is told by a good header and nothing else. -/
theorem header_of_try_next_block {reader after : Reader} {block : Block}
    (next : reader.tryNextBlock = (.ok (some block), after)) :
    ∃ header : Header, reader.read? Header.layout = some (header, after) ∧
      header.kind? = some block.kind ∧ header.depth.toNat = block.depth ∧
      header.agrees block.kind := by
  unfold tryNextBlock at next
  split at next
  case isTrue => simp at next
  case isFalse =>
    split at next
    case h_1 => simp at next
    case h_2 header passed taken =>
      split at next
      case h_1 => simp at next
      case h_2 kind known =>
        split at next
        case isFalse => simp at next
        case isTrue shallow =>
          split at next
          case isFalse => simp at next
          case isTrue agreed =>
            simp only [Prod.mk.injEq, Except.ok.injEq, Option.some.injEq] at next
            obtain ⟨rfl, rfl⟩ := next
            exact ⟨header, taken, known, rfl, agreed⟩

theorem try_next_block_length {reader after : Reader} {block : Block}
    (found : reader.tryNextBlock = (.ok (some block), after)) :
    after.rest.length < reader.rest.length := by
  obtain ⟨header, taken, -⟩ := header_of_try_next_block found
  have shorter := read?_length taken
  have size : Header.layout.size = 16 := rfl
  omega

theorem next_block?_length {reader after : Reader} {block : Block}
    (found : reader.nextBlock? = (some block, after)) :
    after.rest.length < reader.rest.length := by
  unfold nextBlock? at found
  split at found
  case h_1 block' after' tried =>
    simp only [Prod.mk.injEq] at found
    obtain ⟨rfl, rfl⟩ := found
    exact try_next_block_length tried
  case h_2 => simp at found

end Reader

end SymmetricTrees.BlockStream
