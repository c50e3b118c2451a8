import SymmetricTrees.Proofs.ReaderCalls

/-!
Loops over a reader, on any bytes. A loop may choose its next call by all answers
so far, and it ends at the first answer with neither a record nor a block. A block
costs 16 bytes and a record its own bytes. A loop therefore gets one block at most for
every 16 bytes, and it comes to its end unless it asks for empty records for ever. The
check of a stream and the listing of its blocks meet no more blocks than that.
-/

set_option autoImplicit false

namespace SymmetricTrees.BlockStream

namespace Reader

/-- A loop over a reader. Which call comes next, if any, depends on all answers so far. -/
structure Loop where
  choose : List Answer → Option Call

namespace Loop

def pending? (loop : Loop) (answers : List Answer) : Option Call :=
  if answers.any Answer.isEnd then none else loop.choose answers

/-- The answers in the first rounds of a loop, and the reader behind them. -/
def run (loop : Loop) (reader : Reader) : Nat → List Answer × Reader
  | 0 => ([], reader)
  | rounds + 1 =>
      let (answers, now) := loop.run reader rounds
      match loop.pending? answers with
      | none => (answers, now)
      | some call => (answers ++ [(now.perform call).1], (now.perform call).2)

variable {loop : Loop} {reader : Reader} {rounds : Nat} {bytes : List UInt8}

theorem run_of_ended (ended : loop.pending? (loop.run reader rounds).1 = none) :
    loop.run reader (rounds + 1) = loop.run reader rounds := by
  simp only [run, ended]

theorem run_of_pending {call : Call}
    (pending : loop.pending? (loop.run reader rounds).1 = some call) :
    loop.run reader (rounds + 1) =
      ((loop.run reader rounds).1 ++ [((loop.run reader rounds).2.perform call).1],
        ((loop.run reader rounds).2.perform call).2) := by
  simp only [run, pending]

theorem exists_calls (loop : Loop) (reader : Reader) (rounds : Nat) :
    ∃ calls, loop.run reader rounds = reader.run calls := by
  induction rounds with
  | zero => exact ⟨[], rfl⟩
  | succ rounds induction =>
      rcases induction with ⟨calls, same⟩
      cases pending : loop.pending? (loop.run reader rounds).1 with
      | none => exact ⟨calls, (run_of_ended pending).trans same⟩
      | some call =>
          refine ⟨calls ++ [call], ?_⟩
          rw [run_of_pending pending, same, run_append]
          rfl

theorem count_blocks_le (placed : reader.Placed bytes) (loop : Loop) (rounds : Nat) :
    reader.position + 16 * (loop.run reader rounds).1.countP Answer.isBlock ≤ bytes.length := by
  rcases loop.exists_calls reader rounds with ⟨calls, same⟩
  rw [same]
  exact Nat.le_trans (reader.run_position calls) (placed.run calls).inside

theorem position_mono (loop : Loop) (reader : Reader) {rounds later : Nat}
    (behind : rounds ≤ later) :
    (loop.run reader rounds).2.position ≤ (loop.run reader later).2.position := by
  induction later, behind using Nat.le_induction with
  | base => exact Nat.le_refl _
  | succ later _ induction =>
      apply Nat.le_trans induction
      cases pending : loop.pending? (loop.run reader later).1 with
      | none => rw [run_of_ended pending]
      | some call =>
          rw [run_of_pending pending]
          exact perform_position_le _ call

theorem advances {call : Call} (pending : loop.pending? (loop.run reader rounds).1 = some call)
    (goesOn : loop.pending? (loop.run reader (rounds + 1)).1 ≠ none) :
    (loop.run reader rounds).2.position + call.size ≤
      (loop.run reader (rounds + 1)).2.position := by
  rw [run_of_pending pending] at goesOn ⊢
  apply perform_advances
  by_contra ended
  apply goesOn
  simp [pending?, ended]

/-- A loop that asks for bytes again and again comes to its end. -/
theorem ends (placed : reader.Placed bytes)
    (asks : ∀ rounds, ∃ later, rounds ≤ later ∧
      ∀ call, loop.pending? (loop.run reader later).1 = some call → 0 < call.size) :
    ∃ rounds, loop.pending? (loop.run reader rounds).1 = none := by
  by_contra endless
  have goesOn : ∀ rounds, loop.pending? (loop.run reader rounds).1 ≠ none :=
    fun rounds ended => endless ⟨rounds, ended⟩
  -- Without an end the reader would come past any place, the end of the bytes included.
  have passes : ∀ place, ∃ rounds, place ≤ (loop.run reader rounds).2.position := by
    intro place
    induction place with
    | zero => exact ⟨0, Nat.zero_le _⟩
    | succ place induction =>
        rcases induction with ⟨rounds, reached⟩
        rcases asks rounds with ⟨later, behind, asked⟩
        rcases Option.ne_none_iff_exists'.mp (goesOn later) with ⟨call, pending⟩
        have kept := loop.position_mono reader behind
        have advanced := advances pending (goesOn (later + 1))
        have sized := asked call pending
        exact ⟨later + 1, by omega⟩
  rcases passes (bytes.length + 1) with ⟨rounds, beyond⟩
  rcases loop.exists_calls reader rounds with ⟨calls, same⟩
  rw [same] at beyond
  exact Nat.not_lt.mpr (placed.run calls).inside beyond

end Loop

end Reader

/-- A stage of a walk: these blocks were visited, and the walk goes on from here. -/
inductive Walker.Walked {Failure State : Type} (walker : Walker Failure State) :
    Arrival State → List Block → Arrival State → Prop
  | start {place : Arrival State} : walker.Walked place [] place
  | block {place now : Arrival State} {block : Block} {body after : Reader} {state : State}
      {blocks : List Block} (next : walker.next place.reader = (.ok (some block), body))
      (visited : walker.visit place.offset block place.state body = .ok (state, after))
      (others : walker.Walked ⟨state, place.offset + block.leafCount, after⟩ blocks now) :
      walker.Walked place (block :: blocks) now

namespace Walker.Walked

variable {Failure State : Type} {walker : Walker Failure State} {place now : Arrival State}
  {blocks : List Block}

theorem walk_eq (walked : walker.Walked place blocks now) :
    walker.walk place.reader place.offset place.state =
      walker.walk now.reader now.offset now.state := by
  induction walked with
  | start => rfl
  | block next visited _ induction =>
      rw [walker.walk_block next, visited]
      exact induction

theorem length_le (walked : walker.Walked place blocks now)
    (headers : ∀ {reader body : Reader} {block : Block},
      walker.next reader = (.ok (some block), body) →
        body.rest.length + 16 ≤ reader.rest.length) :
    16 * blocks.length ≤ place.reader.rest.length := by
  induction walked with
  | start => exact Nat.zero_le _
  | block next visited _ induction =>
      have header := headers next
      have records := walker.visit_length visited
      simp only [List.length_cons] at induction ⊢
      omega

end Walker.Walked

theorem Reader.next_block?_finish {reader after : Reader} {block : Block}
    (next : reader.nextBlock? = (some block, after)) :
    after.rest.length + 16 ≤ reader.rest.length := by
  unfold nextBlock? at next
  split at next
  case h_1 found behind tried =>
    rcases Prod.mk.inj next with ⟨rfl, rfl⟩
    exact (try_next_block_finish tried).2
  case h_2 => cases next

theorem length_blocks_from_le (reader : Reader) :
    16 * (blocksFrom reader).1.length ≤ reader.rest.length := by
  fun_induction blocksFrom reader with
  | case1 => exact Nat.zero_le _
  | case2 => exact Nat.zero_le _
  | case3 reader block body next records after taken blocks last others induction =>
      have header := Reader.next_block?_finish next
      have shorter := Reader.read_records?_length taken
      rw [others] at induction
      simp only [List.length_cons] at induction ⊢
      omega

open Reader

/-- Whatever a reader was asked for, it has moved forward only, is inside the bytes and
stands at a multiple of 16 or at their end. A read without room leaves it as it was, any
other read passes the record. A header, good or bad, is passed with its 16 bytes, unless
it is not there as a whole. A loop that ends at the first answer with neither a record nor
a block gets one block at most for every 16 bytes, and it ends if it does not stay with
empty records for ever. The check and the listing meet no more blocks than that. -/
theorem reading_moves_forward (bytes : List UInt8) :
    (∀ calls,
      let reader := ((ofBytes bytes).run calls).2
      (reader.position ≤ bytes.length ∧
        (16 ∣ reader.position ∨ reader.position = bytes.length) ∧
        reader.rest = bytes.drop reader.position ∧
        ∀ more, reader.position ≤ ((ofBytes bytes).run (calls ++ more)).2.position) ∧
      (∀ format : Format,
        (reader.perform (.read format) = (.record none, reader) ∧
          bytes.length < reader.position + format.size) ∨
        ∃ value after, reader.perform (.read format) = (.record (some ⟨format, value⟩), after) ∧
          after.position = min (reader.position + alignedSize format.size) bytes.length ∧
          reader.position + format.size ≤ after.position) ∧
      ((reader.perform .tryNext = (.judged (.ok none), reader) ∧
          reader.position = bytes.length) ∨
        (reader.perform .tryNext = (.judged (.error (.truncated reader.position)), reader) ∧
          reader.position < bytes.length ∧ bytes.length < reader.position + 16) ∨
        ∃ outcome after, reader.perform .tryNext = (.judged outcome, after) ∧
          outcome ≠ .ok none ∧ (∀ offset, outcome ≠ .error (.truncated offset)) ∧
          after.position = reader.position + 16) ∧
      reader.perform .next =
        (.block reader.tryNextBlock.1.toOption.join, (reader.perform .tryNext).2)) ∧
    (∀ loop : Loop,
      (∀ rounds,
        (loop.run (ofBytes bytes) rounds).1.countP Answer.isBlock ≤ bytes.length / 16) ∧
      ((∀ rounds, ∃ later, rounds ≤ later ∧
          ∀ call, loop.pending? (loop.run (ofBytes bytes) later).1 = some call → 0 < call.size) →
        ∃ rounds, loop.pending? (loop.run (ofBytes bytes) rounds).1 = none)) ∧
    (∀ featureCount blocks now,
      (checker featureCount).Walked ⟨0, 0, ofBytes bytes⟩ blocks now →
        (checker featureCount).walk (ofBytes bytes) 0 0 =
          (checker featureCount).walk now.reader now.offset now.state ∧
        blocks.length ≤ bytes.length / 16) ∧
    (blocksFrom (ofBytes bytes)).1.length ≤ bytes.length / 16 := by
  have fresh : (ofBytes bytes).Placed bytes := Placed.of_bytes bytes
  have room {count : Nat} (paid : 16 * count ≤ bytes.length) : count ≤ bytes.length / 16 := by
    omega
  refine ⟨?_, ?_, ?_, ?_⟩
  · intro calls reader
    have placed : reader.Placed bytes := fresh.run calls
    refine ⟨⟨placed.inside, placed.aligned, placed.rest, ?_⟩, placed.perform_read,
      placed.perform_try_next, reader.perform_next⟩
    intro more
    rw [run_append]
    exact reader.run_position_le more
  · intro loop
    refine ⟨?_, Loop.ends fresh⟩
    intro rounds
    apply room
    exact Nat.le_of_add_left_le (loop.count_blocks_le fresh rounds)
  · intro featureCount blocks now walked
    refine ⟨walked.walk_eq, room ?_⟩
    exact walked.length_le fun next => (try_next_block_finish next).2
  · exact room (length_blocks_from_le (ofBytes bytes))

/-- A good block, a bad header and a split whose padding is cut. -/
theorem reading_moves_forward_past_bad_header :
    let bytes : List UInt8 :=
      [1, 0, 0, 0, 1, 0, 0, 0, 1, 0, 0, 0, 2, 0, 0, 0,
        0, 0, 0, 63, 0, 0, 0, 0, 7, 7, 7, 7, 7, 7, 7, 7,
        9, 0, 0, 0, 1, 0, 0, 0, 1, 0, 0, 0, 2, 0, 0, 0,
        0, 0, 0, 63, 0, 0, 0, 0]
    let split : Format := ⟨Split, splitLayout⟩
    let behindBlock := ((ofBytes bytes).run [.next, .read split]).2
    let behindAll := ((ofBytes bytes).run [.next, .read split, .tryNext, .read split]).2
    let loop : Loop := ⟨fun answers => some (if answers.length % 2 = 0 then .next else .read split)⟩
    let stump : Block := ⟨.scalar, 1, by decide⟩
    (behindBlock.position = 32 ∧ ∃ outcome after,
        behindBlock.perform .tryNext = (.judged outcome, after) ∧ after.position = 48) ∧
      (behindAll.position = 56 ∧ behindAll.perform (.read split) = (.record none, behindAll)) ∧
      (∀ rounds, ∃ later, rounds ≤ later ∧
        ∀ call, loop.pending? (loop.run (ofBytes bytes) later).1 = some call → 0 < call.size) ∧
      (∃ rounds, loop.pending? (loop.run (ofBytes bytes) rounds).1 = none) ∧
      (∀ rounds, (loop.run (ofBytes bytes) rounds).1.countP Answer.isBlock ≤ 3) ∧
      ∃ now, (checker 1).Walked ⟨0, 0, ofBytes bytes⟩ [stump] now ∧
        (checker 1).walk (ofBytes bytes) 0 0 =
          (checker 1).walk now.reader now.offset now.state := by
  intro bytes split behindBlock behindAll loop stump
  have length : bytes.length = 56 := rfl
  have place : ((ofBytes bytes).run [.next, .read split]).2.position = 32 := by decide
  have finish : ((ofBytes bytes).run [.next, .read split, .tryNext, .read split]).2.position =
      56 := by decide
  have asks : ∀ rounds, ∃ later, rounds ≤ later ∧
      ∀ call, loop.pending? (loop.run (ofBytes bytes) later).1 = some call → 0 < call.size := by
    intro rounds
    refine ⟨rounds, Nat.le_refl _, fun call pending => ?_⟩
    unfold Loop.pending? at pending
    split at pending
    case isTrue => cases pending
    case isFalse =>
      rcases Option.some.inj pending with rfl
      split <;> decide
  have walked : (checker 1).Walked ⟨0, 0, ofBytes bytes⟩ [stump]
      ⟨1, 2, ⟨32, bytes.drop 32⟩⟩ :=
    .block rfl rfl .start
  rcases reading_moves_forward bytes with ⟨calls, loops, walks, -⟩
  refine ⟨⟨place, ?_⟩, ⟨finish, ?_⟩, asks, (loops loop).2 asks, ?_, _, walked,
    (walks 1 _ _ walked).1⟩
  · rcases (calls [.next, .read split]).2.2.1 with ⟨-, ended⟩ | ⟨-, -, cut⟩ |
      ⟨outcome, after, judged, -, -, moved⟩
    · cases place.symm.trans ended
    · omega
    · exact ⟨outcome, after, judged, moved.trans (congrArg (· + 16) place)⟩
  · rcases (calls [.next, .read split, .tryNext, .read split]).2.1 split with
      ⟨missing, -⟩ | ⟨value, after, -, capped, moved⟩
    · exact missing
    · have size : split.size = 8 := rfl
      omega
  · intro rounds
    have few := (loops loop).1 rounds
    omega

end SymmetricTrees.BlockStream
