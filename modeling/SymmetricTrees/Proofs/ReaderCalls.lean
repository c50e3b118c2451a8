import SymmetricTrees.Proofs.WrittenRecords

/-!
Readers that are asked for anything, in any order, on any bytes. A call leaves a
reader as it is or reads one record. The reader therefore moves forward only,
stays inside the bytes, and stands where a record may start or at their end.
-/

set_option autoImplicit false

namespace SymmetricTrees.BlockStream.Reader

inductive Call where
  | read (format : Format)
  | tryNext
  | next

inductive Answer where
  | record (found : Option Item)
  | judged (outcome : Except Fault (Option Block))
  | block (found : Option Block)

def Call.size : Call → Nat
  | .read format => format.size
  | .tryNext => Header.layout.size
  | .next => Header.layout.size

def Answer.isBlock : Answer → Bool
  | .judged (.ok (some _)) => true
  | .block (some _) => true
  | _ => false

/-- Neither a record nor a block was found. -/
def Answer.isEnd : Answer → Bool
  | .record (some _) => false
  | .judged (.ok (some _)) => false
  | .block (some _) => false
  | _ => true

def perform (reader : Reader) : Call → Answer × Reader
  | .read format =>
      match reader.read? format.layout with
      | none => (.record none, reader)
      | some (value, after) => (.record (some ⟨format, value⟩), after)
  | .tryNext => (.judged reader.tryNextBlock.1, reader.tryNextBlock.2)
  | .next => (.block reader.nextBlock?.1, reader.nextBlock?.2)

def run (reader : Reader) : List Call → List Answer × Reader
  | [] => ([], reader)
  | call :: calls =>
      let rest := (reader.perform call).2.run calls
      ((reader.perform call).1 :: rest.1, rest.2)

/-- A reader stands inside the bytes, where a record may start or at their end,
and has the bytes from there on before it. -/
structure Placed (reader : Reader) (bytes : List UInt8) : Prop where
  inside : reader.position ≤ bytes.length
  aligned : 16 ∣ reader.position ∨ reader.position = bytes.length
  rest : reader.rest = bytes.drop reader.position

variable {Value : Type} {reader after : Reader} {layout : Layout Value} {bytes : List UInt8}

theorem read?_position_le {value : Value} (taken : reader.read? layout = some (value, after)) :
    reader.position + layout.size ≤ after.position := by
  rcases read?_eq_some_iff.mp taken with ⟨record, suffix, -, -, rfl⟩
  exact Nat.le_add_right _ _

theorem read?_header_position {header : Header}
    (taken : reader.read? Header.layout = some (header, after)) :
    after.position = reader.position + 16 := by
  rcases read?_eq_some_iff.mp taken with ⟨record, suffix, -, -, rfl⟩
  rfl

namespace Placed

theorem of_bytes (bytes : List UInt8) : (ofBytes bytes).Placed bytes where
  inside := Nat.zero_le _
  aligned := .inl (Nat.dvd_zero 16)
  rest := rfl

theorem length_rest (placed : reader.Placed bytes) :
    reader.rest.length = bytes.length - reader.position := by
  rw [placed.rest, List.length_drop]

theorem read?_absent_iff (placed : reader.Placed bytes) :
    reader.read? layout = none ↔ bytes.length < reader.position + layout.size := by
  have inside := placed.inside
  rw [read?_eq_none_iff, placed.length_rest]
  omega

/-- A record that is read is passed with its padding, as far as the bytes go. -/
theorem read?_position (placed : reader.Placed bytes) {value : Value}
    (taken : reader.read? layout = some (value, after)) :
    after.position = min (reader.position + alignedSize layout.size) bytes.length := by
  have aligned := size_le_aligned_size layout.size
  have inside := placed.inside
  have length := placed.length_rest
  rcases read?_eq_some_iff.mp taken with ⟨record, suffix, found, -, rfl⟩
  rcases eq_append_of_split_exact? found with ⟨size, split⟩
  rw [split, List.length_append, size] at length
  simp only [List.length_take]
  omega

theorem read? (placed : reader.Placed bytes) {value : Value}
    (taken : reader.read? layout = some (value, after)) : after.Placed bytes := by
  have position := placed.read?_position taken
  constructor
  case inside =>
    rw [position]
    exact Nat.min_le_right _ _
  case aligned =>
    have unit : 16 ∣ alignedSize layout.size := alignment_dvd_aligned_size _
    have start := placed.aligned
    omega
  case rest =>
    rcases read?_eq_some_iff.mp taken with ⟨record, suffix, found, -, rfl⟩
    rcases eq_append_of_split_exact? found with ⟨size, split⟩
    have aligned := size_le_aligned_size layout.size
    have behind : suffix = bytes.drop (reader.position + layout.size) := by
      rw [← List.drop_drop, ← placed.rest, split, List.drop_left' size]
    calc suffix.drop (alignedSize layout.size - layout.size)
        = bytes.drop (reader.position + alignedSize layout.size) := by
          rw [behind, List.drop_drop, Nat.add_assoc, Nat.add_sub_cancel' aligned]
      _ = bytes.drop (min (reader.position + alignedSize layout.size) bytes.length) :=
          List.drop_eq_drop_min
      _ = bytes.drop _ := by rw [position]

end Placed

theorem map_judge_ne (header : Header) (offset : Nat) :
    (header.judge offset).map some ≠ .ok none ∧
      ∀ place, (header.judge offset).map some ≠ .error (.truncated place) := by
  unfold Header.judge
  split
  case h_1 => simp [Except.map]
  case h_2 =>
    split
    case isTrue => split <;> simp [Except.map]
    case isFalse => simp [Except.map]

/-- All that becomes of a reader that is asked for a header. -/
theorem try_next_block_cases (reader : Reader) :
    (reader.tryNextBlock = (.ok none, reader) ∧ reader.rest.length = 0) ∨
    (reader.tryNextBlock = (.error (.truncated reader.position), reader) ∧
      0 < reader.rest.length ∧ reader.rest.length < 16) ∨
    ∃ header after, reader.read? Header.layout = some (header, after) ∧
      reader.tryNextBlock = ((header.judge reader.position).map some, after) := by
  cases found : reader.read? Header.layout with
  | some taken => exact .inr (.inr ⟨taken.1, taken.2, rfl, try_next_block_of_read? found⟩)
  | none =>
      have few : reader.rest.length < 16 := read?_eq_none_iff.mp found
      by_cases exhausted : reader.isExhausted = true
      · left
        exact ⟨try_next_block_of_exhausted exhausted,
          List.length_eq_zero_iff.mpr (List.isEmpty_iff.mp exhausted)⟩
      · right
        left
        refine ⟨?_, List.length_pos_iff.mpr fun none => exhausted (List.isEmpty_iff.mpr none), few⟩
        simp only [tryNextBlock, if_neg exhausted, found]

theorem next_block?_eq (reader : Reader) :
    reader.nextBlock? = (reader.tryNextBlock.1.toOption.join, reader.tryNextBlock.2) := by
  unfold nextBlock?
  split
  case h_1 block after next => rw [next]; rfl
  case h_2 fault after next => rw [next]; rfl

theorem perform_read_none {format : Format} (missing : reader.read? format.layout = none) :
    reader.perform (.read format) = (.record none, reader) := by
  simp only [perform, missing]

theorem perform_read_some {format : Format} {value : format.Value}
    (taken : reader.read? format.layout = some (value, after)) :
    reader.perform (.read format) = (.record (some ⟨format, value⟩), after) := by
  simp only [perform, taken]

theorem perform_next (reader : Reader) :
    reader.perform .next =
      (.block reader.tryNextBlock.1.toOption.join, (reader.perform .tryNext).2) := by
  simp only [perform, next_block?_eq]

/-- A call leaves the reader as it is, or the reader has passed one record. -/
theorem perform_cases (reader : Reader) (call : Call) :
    (reader.perform call).2 = reader ∨
      ∃ (format : Format) (value : format.Value),
        reader.read? format.layout = some (value, (reader.perform call).2) := by
  have header : (reader.perform .tryNext).2 = reader ∨
      ∃ (format : Format) (value : format.Value),
        reader.read? format.layout = some (value, (reader.perform .tryNext).2) := by
    rw [perform]
    rcases reader.try_next_block_cases with ⟨next, -⟩ | ⟨next, -⟩ | ⟨header, after, taken, next⟩
    · exact .inl (congrArg Prod.snd next)
    · exact .inl (congrArg Prod.snd next)
    · rw [next]
      exact .inr ⟨⟨Header, Header.layout⟩, header, taken⟩
  cases call with
  | read format =>
      cases found : reader.read? format.layout with
      | none => exact .inl (congrArg Prod.snd (perform_read_none found))
      | some taken =>
          rw [perform_read_some found]
          exact .inr ⟨format, taken.1, found⟩
  | tryNext => exact header
  | next =>
      rw [perform_next]
      exact header

theorem perform_position_le (reader : Reader) (call : Call) :
    reader.position ≤ (reader.perform call).2.position := by
  rcases reader.perform_cases call with same | ⟨format, value, taken⟩
  · rw [same]
  · exact Nat.le_of_add_right_le (read?_position_le taken)

theorem Placed.perform (placed : reader.Placed bytes) (call : Call) :
    (reader.perform call).2.Placed bytes := by
  rcases reader.perform_cases call with same | ⟨format, value, taken⟩
  · rw [same]
    exact placed
  · exact placed.read? taken

theorem Placed.perform_read (placed : reader.Placed bytes) (format : Format) :
    (reader.perform (.read format) = (.record none, reader) ∧
      bytes.length < reader.position + format.size) ∨
    ∃ value after, reader.perform (.read format) = (.record (some ⟨format, value⟩), after) ∧
      after.position = min (reader.position + alignedSize format.size) bytes.length ∧
      reader.position + format.size ≤ after.position := by
  cases found : reader.read? format.layout with
  | none => exact .inl ⟨perform_read_none found, placed.read?_absent_iff.mp found⟩
  | some taken =>
      exact .inr ⟨taken.1, taken.2, perform_read_some found, placed.read?_position found,
        read?_position_le found⟩

theorem Placed.perform_try_next (placed : reader.Placed bytes) :
    (reader.perform .tryNext = (.judged (.ok none), reader) ∧ reader.position = bytes.length) ∨
    (reader.perform .tryNext = (.judged (.error (.truncated reader.position)), reader) ∧
      reader.position < bytes.length ∧ bytes.length < reader.position + 16) ∨
    ∃ outcome after, reader.perform .tryNext = (.judged outcome, after) ∧
      outcome ≠ .ok none ∧ (∀ offset, outcome ≠ .error (.truncated offset)) ∧
      after.position = reader.position + 16 := by
  have length := placed.length_rest
  have inside := placed.inside
  rw [Reader.perform]
  rcases reader.try_next_block_cases with ⟨next, finished⟩ | ⟨next, more, cut⟩ |
    ⟨header, after, taken, next⟩
  · rw [next]
    exact .inl ⟨rfl, by omega⟩
  · rw [next]
    exact .inr (.inl ⟨rfl, by omega, by omega⟩)
  · rw [next]
    rcases map_judge_ne header reader.position with ⟨present, whole⟩
    exact .inr (.inr ⟨_, after, rfl, present, whole, read?_header_position taken⟩)

theorem Answer.is_end_block (outcome : Except Fault (Option Block)) :
    (Answer.block outcome.toOption.join).isEnd = (Answer.judged outcome).isEnd := by
  cases outcome with
  | error fault => rfl
  | ok block => cases block <;> rfl

theorem Answer.is_end_of_is_block {answer : Answer} (block : answer.isBlock = true) :
    answer.isEnd = false := by
  unfold isBlock at block
  split at block
  case h_1 => rfl
  case h_2 => rfl
  case h_3 => cases block

/-- An answer with a record or a block has moved the reader by what was asked for. -/
theorem perform_advances {call : Call} (found : (reader.perform call).1.isEnd = false) :
    reader.position + call.size ≤ (reader.perform call).2.position := by
  have header (block : (Answer.judged reader.tryNextBlock.1).isEnd = false) :
      reader.position + Header.layout.size ≤ (reader.perform .tryNext).2.position := by
    rw [perform]
    rcases reader.try_next_block_cases with ⟨next, -⟩ | ⟨next, -⟩ | ⟨header, after, taken, next⟩
    · rw [next] at block
      cases block
    · rw [next] at block
      cases block
    · rw [next]
      exact read?_position_le taken
  cases call with
  | read format =>
      cases taken : reader.read? format.layout with
      | none =>
          rw [perform_read_none taken] at found
          cases found
      | some pair =>
          rw [perform_read_some taken]
          exact read?_position_le taken
  | tryNext => exact header found
  | next =>
      rw [perform_next, Answer.is_end_block] at found
      rw [perform_next]
      exact header found

theorem perform_block_advances {call : Call} (block : (reader.perform call).1.isBlock = true) :
    reader.position + 16 ≤ (reader.perform call).2.position := by
  have advanced := perform_advances (Answer.is_end_of_is_block block)
  cases call with
  | read format =>
      rw [perform] at block
      split at block
      case h_1 => cases block
      case h_2 => cases block
  | tryNext => exact advanced
  | next => exact advanced

theorem run_append (reader : Reader) (calls more : List Call) :
    reader.run (calls ++ more) =
      ((reader.run calls).1 ++ ((reader.run calls).2.run more).1,
        ((reader.run calls).2.run more).2) := by
  induction calls generalizing reader with
  | nil => rfl
  | cons call others induction => simp only [List.cons_append, run, induction]

theorem Placed.run (placed : reader.Placed bytes) (calls : List Call) :
    (reader.run calls).2.Placed bytes := by
  induction calls generalizing reader with
  | nil => exact placed
  | cons call others induction => exact induction (placed.perform call)

/-- Every block has cost its 16 bytes, and nothing is given back. -/
theorem run_position (reader : Reader) (calls : List Call) :
    reader.position + 16 * (reader.run calls).1.countP Answer.isBlock ≤
      (reader.run calls).2.position := by
  induction calls generalizing reader with
  | nil => exact Nat.le_refl _
  | cons call others induction =>
      have later := induction (reader.perform call).2
      have here := reader.perform_position_le call
      simp only [run, List.countP_cons]
      by_cases block : (reader.perform call).1.isBlock = true
      · have header := perform_block_advances block
        rw [if_pos block]
        omega
      · rw [if_neg block]
        omega

theorem run_position_le (reader : Reader) (calls : List Call) :
    reader.position ≤ (reader.run calls).2.position :=
  Nat.le_of_add_right_le (reader.run_position calls)

end SymmetricTrees.BlockStream.Reader
