import SymmetricTrees.Proofs.StreamBounds
import SymmetricTrees.Proofs.TreeReading

/-!
One itinerary for all walks. A walker can note where it stands at each block
without a change to what it does. On an accepted stream the check, the listing
of the blocks, the walk of one row and the walk of a batch note the same stops,
all of them come to the end of the stream, and nothing that a walk does at a
stop reaches outside the row, the word or the block's own leaf values.
-/

set_option autoImplicit false

namespace SymmetricTrees.BlockStream

variable {Failure State : Type}

def Arrival.forget (arrival : Arrival (State × List Stop)) : Arrival State :=
  ⟨arrival.state.1, arrival.offset, arrival.reader⟩

namespace Walker

def noting (walker : Walker Failure State) : Walker Failure (State × List Stop) where
  next := walker.next
  visit offset block noted body :=
    match walker.visit offset block noted.1 body with
    | .error failure => .error failure
    | .ok (visited, after) => .ok ((visited, noted.2 ++ [⟨offset, block, body⟩]), after)
  next_length := walker.next_length
  visit_length := by
    intro offset block noted changed body after passed
    split at passed
    case h_1 => simp at passed
    case h_2 visited behind taken =>
      simp only [Except.ok.injEq, Prod.mk.injEq] at passed
      obtain ⟨-, rfl⟩ := passed
      exact walker.visit_length taken

/-- Notes change neither the outcome of a walk nor what it does. -/
theorem walk_eq_noting (walker : Walker Failure State) (reader : Reader) (offset : Nat)
    (state : State) (stops : List Stop) :
    walker.walk reader offset state =
      (walker.noting.walk reader offset (state, stops)).map Arrival.forget := by
  fun_induction walker.walk reader offset state generalizing stops with
  | case1 reader offset state failure after next =>
      rw [walker.noting.walk_fault next]
      rfl
  | case2 reader offset state after next =>
      rw [walker.noting.walk_end next]
      rfl
  | case3 reader offset state block body next failure visited =>
      rw [walker.noting.walk_block next]
      simp only [noting, visited]
      rfl
  | case4 reader offset state block body next changed after visited induction =>
      rw [walker.noting.walk_block next]
      simp only [noting, visited]
      exact induction _

theorem Follows.noting {walker : Walker Failure State} {accepts : Visit → Prop}
    {advance : Visit → State → State} (follows : walker.Follows accepts advance) :
    walker.noting.Follows accepts
      (fun visit noted => (advance visit noted.1, noted.2 ++ [visit.toStop])) where
  next_block := follows.next_block
  next_end := follows.next_end
  visit_eq accepted taken noted := by
    simp only [Walker.noting, follows.visit_eq accepted taken noted.1]

theorem foldl_noting (advance : Visit → State → State) (visits : List Visit) (state : State)
    (stops : List Stop) :
    visits.foldl (fun noted visit => (advance visit noted.1, noted.2 ++ [visit.toStop]))
        (state, stops) =
      (visits.foldl (fun state visit => advance visit state) state,
        stops ++ visits.map Visit.toStop) := by
  induction visits generalizing state stops with
  | nil => rw [List.map_nil, List.append_nil]; rfl
  | cons visit rest induction =>
      rw [List.foldl_cons, induction, List.append_assoc]
      rfl

end Walker

end SymmetricTrees.BlockStream

namespace SymmetricTrees

open BlockStream Scoring

/-- The walk of the stream of an encoded forest makes these stops, passes all
leaf values and ends at this reader with this result. -/
def EncodedForest.Toured {Failure State : Type} (encoded : EncodedForest)
    (walker : Walker Failure State) (start : State) (stops : List Stop) (last : Reader)
    (result : State) : Prop :=
  walker.noting.walk (Reader.ofBytes encoded.stream) 0 (start, []) =
    .ok ⟨(result, stops), encoded.leaves.size, last⟩

namespace EncodedForest

variable {Failure State : Type} {encoded : EncodedForest} {walker : Walker Failure State}
  {start result : State} {stops : List Stop} {last : Reader}

theorem Toured.walk_eq (toured : encoded.Toured walker start stops last result) :
    walker.walk (Reader.ofBytes encoded.stream) 0 start =
      .ok ⟨result, encoded.leaves.size, last⟩ := by
  rw [walker.walk_eq_noting _ _ _ [], toured]
  rfl

theorem toured_of_follows {accepts : Visit → Prop} {advance : Visit → State → State}
    {visits : List Visit} (follows : walker.Follows accepts advance)
    (reads : Reads (Reader.ofBytes encoded.stream) 0 visits last)
    (accepted : ∀ visit ∈ visits, accepts visit)
    (total : leafTotal visits = encoded.leaves.size) (start : State) :
    encoded.Toured walker start (visits.map Visit.toStop) last
      (visits.foldl (fun state visit => advance visit state) start) := by
  have walked := follows.noting.walk_eq reads accepted (start, [])
  rw [Walker.foldl_noting, List.nil_append, Nat.zero_add, total] at walked
  exact walked

/-- One list of stops for every walk of an encoded forest. -/
structure Itinerary (encoded : EncodedForest) (stops : List Stop) (last : Reader) : Prop where
  exhausted : last.isExhausted
  position : last.position = encoded.stream.length
  counted : encoded.blocks.length = encoded.blockCount
  listed : blocksFrom (Reader.ofBytes encoded.stream) = (stops.map fun stop => stop.block, last)
  checked : encoded.Toured (checker encoded.featureCount) 0 stops last encoded.blockCount
  regions : ∀ stop ∈ stops, stop.offset + stop.block.leafCount ≤ encoded.leaves.size
  /-- The walk of a row tests no missing feature, shifts by less than the width
  of a word, and takes every leaf value from the part of the stop. -/
  row : ∀ (backend : LaneBackend) {unit : VectorUnit}, unit.LaneWise →
    ∀ row : Row, encoded.featureCount ≤ row.size →
      (∃ score, encoded.Toured (rowWalker (backend.opsOn unit) encoded.leaves row) 0.0 stops last
          score ∧ encoded.scoreOn (backend.opsOn unit) row = .ok score) ∧
        ∀ stop ∈ stops, ∃ positions after,
          leafPositions (backend.opsOn unit) row stop.block stop.body = .ok (positions, after) ∧
            ∀ position ∈ positions, position < stop.block.leafCount
  /-- The same for the rows of a batch, which reaches the kernel of its width. -/
  rows : ∀ (backend : LaneBackend) {unit : VectorUnit}, unit.LaneWise →
    ∀ rows : List Row, rows.length ≤ maxBatchWidth →
      (∀ row ∈ rows, encoded.featureCount ≤ row.size) →
      (∃ scores, encoded.Toured (batchWalker (backend.opsOn unit) encoded.leaves rows)
          (rows.map fun _ => 0.0) stops last scores ∧
          ∀ output : List Float, output.length = rows.length →
            encoded.dispatch (backend.opsOn unit) rows output = scores) ∧
        ∀ stop ∈ stops, ∃ positions after,
          leafPositionsOfRows (backend.opsOn unit) rows stop.block stop.body =
              .ok (positions, after) ∧
            ∀ own ∈ positions, ∀ position ∈ own, position < stop.block.leafCount

theorem dispatch_eq {ops : LaneOps} {rows : List Row} {scores : List Float}
    (few : rows.length ≤ maxBatchWidth)
    (toured : encoded.Toured (batchWalker ops encoded.leaves rows) (rows.map fun _ => 0.0) stops
      last scores)
    (sized : scores.length = rows.length) {output : List Float}
    (length : output.length = rows.length) :
    encoded.dispatch ops rows output = scores := by
  cases rows with
  | nil =>
      rw [List.eq_nil_of_length_eq_zero sized]
      exact List.eq_nil_of_length_eq_zero length
  | cons row rest =>
      have width : (row :: rest).length = min (row :: rest).length maxBatchWidth :=
        (Nat.min_eq_left few).symm
      rw [dispatch, if_neg (by simp), runBatch, if_pos width, toured.walk_eq]

theorem itinerary (encoded : EncodedForest) :
    ∃ stops last, encoded.Itinerary stops last := by
  obtain ⟨visits, last, reads, within, count, total⟩ := encoded.reads
  have counted : visits.foldl (fun blockCount _ => blockCount + 1) 0 = encoded.blockCount := by
    rw [count_visits, Nat.zero_add, count]
  have whole : 0 + leafTotal visits = encoded.leaves.size := by
    rw [Nat.zero_add]
    exact total
  have suits : ∀ row : Row, encoded.featureCount ≤ row.size → ∀ visit ∈ visits,
      Suits encoded.leaves row visit :=
    fun row long => suits_of_reads reads within whole long
  refine ⟨visits.map Visit.toStop, last, ?_⟩
  constructor
  case exhausted => exact reads.exhausted
  case position =>
    rw [reads.last_position]
    exact Nat.zero_add _
  case counted => rw [blocks, reads.blocks_from, List.length_map, count]
  case listed => rw [reads.blocks_from, List.map_map]; rfl
  case checked =>
    have toured := toured_of_follows (checker_follows _) reads within total 0
    rw [counted] at toured
    exact toured
  case regions =>
    intro stop member
    obtain ⟨visit, visited, rfl⟩ := List.mem_map.mp member
    have region := reads.regions visit visited
    omega
  case row =>
    intro backend unit unitLaneWise row long
    have laneWise := backend.ops_on_lane_wise unitLaneWise
    have toured :=
      toured_of_follows (row_walker_follows laneWise row) reads (suits row long) total 0.0
    refine ⟨⟨_, toured, ?_⟩, ?_⟩
    · rw [scoreOn, if_pos long, rawScore, toured.walk_eq]
    · intro stop member
      obtain ⟨visit, visited, rfl⟩ := List.mem_map.mp member
      obtain ⟨after, taken⟩ := reads.taken visit visited
      exact ⟨_, after, leaf_positions_eq laneWise taken (suits row long visit visited).features,
        fun _ => Entry.positions_lt (Reader.read_records?_complete taken)⟩
  case rows =>
    intro backend unit unitLaneWise rows few long
    have laneWise := backend.ops_on_lane_wise unitLaneWise
    have toured := toured_of_follows (batch_walker_follows laneWise rows) reads
      (fun visit member row held => suits row (long row held) visit member) total
      (rows.map fun _ => 0.0)
    rw [foldl_add_visit_to_rows] at toured
    refine ⟨⟨_, toured, fun output => dispatch_eq few toured (List.length_map _)⟩, ?_⟩
    intro stop member
    obtain ⟨visit, visited, rfl⟩ := List.mem_map.mp member
    obtain ⟨after, taken⟩ := reads.taken visit visited
    refine ⟨_, after, leaf_positions_of_rows_eq laneWise taken
      (fun row held => (suits row (long row held) visit visited).features), ?_⟩
    intro own reached
    obtain ⟨row, -, rfl⟩ := List.mem_map.mp reached
    exact fun _ => Entry.positions_lt (Reader.read_records?_complete taken)

end EncodedForest

/-- On an accepted stream the check, the listing of the blocks and the walks of
rows and of batches meet the same blocks at the same places and come to the end
of the stream, and no walk is cut short. -/
theorem accepted_stream_has_itinerary {stream : List UInt8} {leaves : Array Float}
    {featureCount : Nat} {encoded : EncodedForest}
    (accepted : EncodedForest.ofParts stream leaves featureCount = .ok encoded)
    (short : stream.length < 2 ^ 40) :
    encoded.stream = stream ∧ encoded.leaves = leaves ∧ encoded.featureCount = featureCount ∧
      leaves.size < 2 ^ 64 ∧ ∃ stops last, encoded.Itinerary stops last := by
  obtain ⟨rfl, rfl, rfl⟩ := EncodedForest.parts_of_of_parts accepted
  refine ⟨rfl, rfl, rfl, ?_, encoded.itinerary⟩
  obtain ⟨visits, last, reads, -, -, total⟩ := encoded.reads
  have bound : leafTotal visits ≤ 2 ^ 23 * encoded.stream.length := reads.leaf_total_le
  omega

/-- A group of four trees in front of a shallower tree. -/
theorem accepted_stream_has_itinerary_unsorted :
    let stream : List UInt8 :=
      [3, 0, 0, 0, 1, 0, 0, 0, 1, 0, 0, 0, 8, 0, 0, 0,
        0, 0, 0, 63, 0, 0, 192, 127, 0, 0, 128, 127, 0, 0, 0, 128,
        1, 0, 0, 0, 0, 0, 0, 0, 1, 0, 0, 0, 0, 0, 0, 0,
        1, 0, 0, 0, 0, 0, 0, 0, 0, 0, 0, 0, 1, 0, 0, 0]
    let leaves : Array Float := #[0.5, 1.5, 2.5, 3.5, 4.5, 5.5, 6.5, 7.5, 8.5]
    ∃ encoded, EncodedForest.ofParts stream leaves 2 = .ok encoded ∧ stream.length < 2 ^ 40 ∧
      encoded.stream = stream ∧ encoded.leaves = leaves ∧ encoded.featureCount = 2 ∧
      leaves.size < 2 ^ 64 ∧ ∃ stops last, encoded.Itinerary stops last := by
  intro stream leaves
  have reads : Reads (.ofBytes stream) 0
      [⟨⟨0, ⟨.grouped, 1, by decide⟩, ⟨16, stream.drop 16⟩⟩,
          ⟨[⟨⟨⟨0x3F000000⟩, ⟨0x7FC00000⟩, ⟨0x7F800000⟩, ⟨0x80000000⟩⟩, ⟨1, 0, 1, 0⟩⟩], []⟩⟩,
        ⟨⟨8, ⟨.scalar, 0, by decide⟩, ⟨64, []⟩⟩, ⟨[], []⟩⟩] ⟨64, []⟩ :=
    .block rfl rfl (.block rfl rfl (.done rfl))
  have checked : BlockStream.check stream leaves.size 2 = .ok 2 := by
    refine EncodedForest.check_eq_ok reads ?_ rfl
    exact List.forall_mem_cons.mpr ⟨⟨by simp [Quad.toList], by simp⟩,
      List.forall_mem_singleton.mpr ⟨by simp, by simp⟩⟩
  have accepted := EncodedForest.of_parts_eq_ok checked
  have short : stream.length < 2 ^ 40 := by simp [stream]
  exact ⟨_, accepted, short, accepted_stream_has_itinerary accepted short⟩

end SymmetricTrees
