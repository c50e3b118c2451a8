import SymmetricTrees.BlockStream.Reader

/-!
The split records that follow a header: wide ones first, then single ones, as
many of each as kind and depth of the block ask for. They are read as a whole
where a stream is listed, and one by one where each of them changes a state.
-/

set_option autoImplicit false

namespace SymmetricTrees.BlockStream

structure Records where
  wide : List WideSplit
  single : List Split

namespace Reader

def readRecords? (reader : Reader) (block : Block) : Option (Records × Reader) :=
  match reader.readMany? WideSplit.layout block.wideCount with
  | none => none
  | some (wide, afterWide) =>
      match afterWide.readMany? splitLayout block.singleCount with
      | none => none
      | some (single, after) => some (⟨wide, single⟩, after)

theorem read_records?_eq_some_iff {reader after : Reader} {block : Block} {records : Records} :
    reader.readRecords? block = some (records, after) ↔
      ∃ middle, reader.readMany? WideSplit.layout block.wideCount = some (records.wide, middle) ∧
        middle.readMany? splitLayout block.singleCount = some (records.single, after) := by
  constructor
  · intro taken
    simp only [readRecords?] at taken
    split at taken
    case h_1 => simp at taken
    case h_2 wide middle wideTaken =>
      split at taken
      case h_1 => simp at taken
      case h_2 single last singleTaken =>
        simp only [Option.some.injEq, Prod.mk.injEq] at taken
        obtain ⟨rfl, rfl⟩ := taken
        exact ⟨middle, wideTaken, singleTaken⟩
  · rintro ⟨middle, wideTaken, singleTaken⟩
    simp only [readRecords?, wideTaken, singleTaken]

theorem read_records?_length {reader after : Reader} {block : Block} {records : Records}
    (taken : reader.readRecords? block = some (records, after)) :
    after.rest.length ≤ reader.rest.length := by
  obtain ⟨middle, wideTaken, singleTaken⟩ := read_records?_eq_some_iff.mp taken
  exact Nat.le_trans (read_many?_length singleTaken) (read_many?_length wideTaken)

/-- Reads a given number of records one by one, each changing a state by its
place in the row of records. -/
def foldRecords {Value State Failure : Type} (missing : Failure) (layout : Layout Value)
    (step : Nat → State → Value → Except Failure State) :
    Nat → Nat → State → Reader → Except Failure (State × Reader)
  | 0, _, state, reader => .ok (state, reader)
  | count + 1, place, state, reader =>
      match reader.read? layout with
      | none => .error missing
      | some (value, after) =>
          match step place state value with
          | .error failure => .error failure
          | .ok changed => foldRecords missing layout step count (place + 1) changed after

theorem fold_records_length {Value State Failure : Type} {missing : Failure}
    {layout : Layout Value} {step : Nat → State → Value → Except Failure State}
    {count place : Nat} {state changed : State} {reader after : Reader}
    (taken : foldRecords missing layout step count place state reader = .ok (changed, after)) :
    after.rest.length ≤ reader.rest.length := by
  induction count generalizing place state reader with
  | zero =>
      simp only [foldRecords, Except.ok.injEq, Prod.mk.injEq] at taken
      exact Nat.le_of_eq (congrArg (fun reader => reader.rest.length) taken.2.symm)
  | succ count induction =>
      simp only [foldRecords] at taken
      split at taken
      case h_1 => simp at taken
      case h_2 value middle first =>
        split at taken
        case h_1 => simp at taken
        case h_2 =>
          have shorter := read?_length first
          have others := induction taken
          omega

end Reader

/-- The blocks from here on, as far as headers are good and records present,
and the reader in front of what is no such block. -/
def blocksFrom (reader : Reader) : List Block × Reader :=
  match _next : reader.nextBlock? with
  | (none, _) => ([], reader)
  | (some block, afterHeader) =>
      match _taken : afterHeader.readRecords? block with
      | none => ([], reader)
      | some (_, after) =>
          let (blocks, last) := blocksFrom after
          (block :: blocks, last)
termination_by reader.rest.length
decreasing_by
  have header := Reader.next_block?_length _next
  have block := Reader.read_records?_length _taken
  omega

end SymmetricTrees.BlockStream
