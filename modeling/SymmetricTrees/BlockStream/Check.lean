import SymmetricTrees.BlockStream.Record
import SymmetricTrees.BlockStream.Walk

/-!
Judging a whole stream: every header, the presence of every record, every
tested feature, and the size of the leaf table. The first fault in stream order
is reported; the leaf table is judged last.
-/

set_option autoImplicit false

namespace SymmetricTrees.BlockStream

/-- The first feature of a record that is not declared is a fault of the record. -/
def checkFeatures (featureCount offset : Nat) : List UInt32 → Except Fault Unit
  | [] => .ok ()
  | feature :: rest =>
      if feature.toNat < featureCount then checkFeatures featureCount offset rest
      else .error (.featureOutOfRange offset feature featureCount)

def checkRecords {Value : Type} (layout : Layout Value) (features : Value → List UInt32)
    (featureCount : Nat) : Nat → Reader → Except Fault Reader
  | 0, reader => .ok reader
  | count + 1, reader =>
      match reader.read? layout with
      | none => .error (.truncated reader.position)
      | some (value, after) =>
          match checkFeatures featureCount reader.position (features value) with
          | .error fault => .error fault
          | .ok () => checkRecords layout features featureCount count after

theorem check_records_length {Value : Type} {layout : Layout Value}
    {features : Value → List UInt32} {featureCount count : Nat} {reader after : Reader}
    (passed : checkRecords layout features featureCount count reader = .ok after) :
    after.rest.length ≤ reader.rest.length := by
  induction count generalizing reader with
  | zero =>
      simp only [checkRecords, Except.ok.injEq] at passed
      exact Nat.le_of_eq (congrArg (fun reader => reader.rest.length) passed.symm)
  | succ count induction =>
      simp only [checkRecords] at passed
      split at passed
      case h_1 => simp at passed
      case h_2 value middle taken =>
        split at passed
        case h_1 => simp at passed
        case h_2 =>
          have shorter := Reader.read?_length taken
          have others := induction passed
          omega

def checkBlock (featureCount : Nat) (block : Block) (reader : Reader) : Except Fault Reader :=
  match checkRecords WideSplit.layout (fun record => record.features.toList) featureCount
      block.wideCount reader with
  | .error fault => .error fault
  | .ok afterWide =>
      checkRecords splitLayout (fun split => [split.feature]) featureCount
        block.singleCount afterWide

theorem check_block_length {featureCount : Nat} {block : Block} {reader after : Reader}
    (passed : checkBlock featureCount block reader = .ok after) :
    after.rest.length ≤ reader.rest.length := by
  unfold checkBlock at passed
  split at passed
  case h_1 => simp at passed
  case h_2 middle wide =>
    exact Nat.le_trans (check_records_length passed) (check_records_length wide)

def checker (featureCount : Nat) : Walker Fault Nat where
  next := Reader.tryNextBlock
  visit _ block blockCount reader :=
    match checkBlock featureCount block reader with
    | .error fault => .error fault
    | .ok after => .ok (blockCount + 1, after)
  next_length := Reader.try_next_block_length
  visit_length := by
    intro offset block blockCount counted reader after visited
    split at visited
    case h_1 => simp at visited
    case h_2 middle judged =>
      simp only [Except.ok.injEq, Prod.mk.injEq] at visited
      obtain ⟨-, rfl⟩ := visited
      exact check_block_length judged

/-- The number of blocks of a good stream, else its first fault. -/
def check (stream : List UInt8) (leafCount featureCount : Nat) : Except Fault Nat :=
  match (checker featureCount).walk (Reader.ofBytes stream) 0 0 with
  | .error fault => .error fault
  | .ok arrival =>
      if arrival.offset = leafCount then .ok arrival.state
      else .error (.leafTableMismatch arrival.offset leafCount)

end SymmetricTrees.BlockStream
