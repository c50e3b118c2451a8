import Mathlib.Algebra.Ring.Nat
import SymmetricTrees.Encoded

/-!
What a walk meets in a block stream. `Reads` relates a reader to the blocks with
their records from there to the end of the stream, whoever reads them. A stream
passes the check exactly if it reads as blocks with declared features, and a
walker that keeps up with the blocks (`Follows`) visits exactly these.
-/

set_option autoImplicit false

namespace SymmetricTrees.BlockStream

structure Entry where
  block : Block
  records : Records

/-- The place of a block: the number of leaf values before its own, and the
reader at its records. -/
structure Stop where
  offset : Nat
  block : Block
  body : Reader

structure Visit extends Stop where
  records : Records

def Visit.entry (visit : Visit) : Entry := ⟨visit.block, visit.records⟩

def leafTotal (visits : List Visit) : Nat := (visits.map fun visit => visit.block.leafCount).sum

theorem leaf_total_cons (visit : Visit) (visits : List Visit) :
    leafTotal (visit :: visits) = visit.block.leafCount + leafTotal visits := rfl

/-- The stream goes on with the visited blocks and nothing else. -/
inductive Reads : Reader → Nat → List Visit → Reader → Prop
  | done {reader : Reader} {offset : Nat} (exhausted : reader.isExhausted) :
      Reads reader offset [] reader
  | block {reader body after last : Reader} {offset : Nat} {block : Block} {records : Records}
      {visits : List Visit} (next : reader.tryNextBlock = (.ok (some block), body))
      (taken : body.readRecords? block = some (records, after))
      (others : Reads after (offset + block.leafCount) visits last) :
      Reads reader offset (⟨⟨offset, block, body⟩, records⟩ :: visits) last

structure Records.Within (records : Records) (featureCount : Nat) : Prop where
  wide : ∀ record ∈ records.wide, ∀ feature ∈ record.features.toList,
    feature.toNat < featureCount
  single : ∀ split ∈ records.single, split.feature.toNat < featureCount

theorem Records.Within.mono {records : Records} {fewer more : Nat}
    (within : records.Within fewer) (le : fewer ≤ more) : records.Within more where
  wide record member feature tested :=
    Nat.lt_of_lt_of_le (within.wide record member feature tested) le
  single split member := Nat.lt_of_lt_of_le (within.single split member) le

theorem check_features_eq_ok_iff {featureCount offset : Nat} {features : List UInt32} :
    checkFeatures featureCount offset features = .ok () ↔
      ∀ feature ∈ features, feature.toNat < featureCount := by
  induction features with
  | nil => simp [checkFeatures]
  | cons feature rest induction =>
      rw [checkFeatures]
      split
      case isTrue inside => simp [induction, inside]
      case isFalse outside => simp [outside]

theorem check_records_succ_eq_ok_iff {Value : Type} {layout : Layout Value}
    {features : Value → List UInt32} {featureCount count : Nat} {reader after : Reader} :
    checkRecords layout features featureCount (count + 1) reader = .ok after ↔
      ∃ value middle, reader.read? layout = some (value, middle) ∧
        (∀ feature ∈ features value, feature.toNat < featureCount) ∧
        checkRecords layout features featureCount count middle = .ok after := by
  constructor
  · intro passed
    simp only [checkRecords] at passed
    split at passed
    case h_1 => simp at passed
    case h_2 value middle taken =>
      split at passed
      case h_1 => simp at passed
      case h_2 _ judged =>
        exact ⟨value, middle, taken, check_features_eq_ok_iff.mp judged, passed⟩
  · rintro ⟨value, middle, taken, inside, passed⟩
    have judged : checkFeatures featureCount reader.position (features value) = .ok () :=
      check_features_eq_ok_iff.mpr inside
    simp only [checkRecords, taken, judged, passed]

theorem check_records_eq_ok_iff {Value : Type} {layout : Layout Value}
    {features : Value → List UInt32} {featureCount count : Nat} {reader after : Reader} :
    checkRecords layout features featureCount count reader = .ok after ↔
      ∃ values, reader.readMany? layout count = some (values, after) ∧
        ∀ value ∈ values, ∀ feature ∈ features value, feature.toNat < featureCount := by
  induction count generalizing reader with
  | zero =>
      simp only [checkRecords, Reader.readMany?, Except.ok.injEq, Option.some.injEq, Prod.mk.injEq]
      constructor
      · rintro rfl
        exact ⟨[], ⟨rfl, rfl⟩, by simp⟩
      · rintro ⟨_, ⟨_, same⟩, _⟩
        exact same
  | succ count induction =>
      rw [check_records_succ_eq_ok_iff]
      constructor
      · rintro ⟨value, middle, taken, inside, passed⟩
        obtain ⟨values, others, within⟩ := induction.mp passed
        exact ⟨value :: values,
          Reader.read_many?_succ_eq_some_iff.mpr ⟨value, middle, values, taken, others, rfl⟩,
          List.forall_mem_cons.mpr ⟨inside, within⟩⟩
      · rintro ⟨values, taken, within⟩
        obtain ⟨value, middle, rest, first, others, rfl⟩ :=
          Reader.read_many?_succ_eq_some_iff.mp taken
        obtain ⟨inside, withinRest⟩ := List.forall_mem_cons.mp within
        exact ⟨value, middle, first, inside, induction.mpr ⟨rest, others, withinRest⟩⟩

theorem check_block_eq_ok_iff {featureCount : Nat} {block : Block} {reader after : Reader} :
    checkBlock featureCount block reader = .ok after ↔
      ∃ records, reader.readRecords? block = some (records, after) ∧
        records.Within featureCount := by
  constructor
  · intro passed
    unfold checkBlock at passed
    split at passed
    case h_1 => simp at passed
    case h_2 middle wideJudged =>
      obtain ⟨wide, wideTaken, wideWithin⟩ := check_records_eq_ok_iff.mp wideJudged
      obtain ⟨single, singleTaken, singleWithin⟩ := check_records_eq_ok_iff.mp passed
      refine ⟨⟨wide, single⟩, ?_, wideWithin, fun split member => ?_⟩
      · exact Reader.read_records?_eq_some_iff.mpr ⟨middle, wideTaken, singleTaken⟩
      · exact singleWithin split member split.feature (List.mem_singleton_self _)
  · rintro ⟨records, taken, within⟩
    obtain ⟨middle, wideTaken, singleTaken⟩ := Reader.read_records?_eq_some_iff.mp taken
    have wideJudged := check_records_eq_ok_iff.mpr ⟨records.wide, wideTaken, within.wide⟩
    have singleJudged : checkRecords splitLayout (fun split => [split.feature]) featureCount
        block.singleCount middle = .ok after := by
      refine check_records_eq_ok_iff.mpr ⟨records.single, singleTaken, ?_⟩
      intro split member feature tested
      rw [List.mem_singleton.mp tested]
      exact within.single split member
    simp only [checkBlock, wideJudged, singleJudged]

namespace Reader

theorem try_next_block_of_exhausted {reader : Reader} (exhausted : reader.isExhausted) :
    reader.tryNextBlock = (.ok none, reader) := by
  rw [tryNextBlock, if_pos exhausted]

theorem exhausted_of_try_next_block {reader after : Reader}
    (none : reader.tryNextBlock = (.ok none, after)) : reader.isExhausted ∧ after = reader := by
  unfold tryNextBlock at none
  split at none
  case isTrue exhausted => exact ⟨exhausted, (congrArg Prod.snd none).symm⟩
  case isFalse =>
    split at none
    case h_1 => simp at none
    case h_2 =>
      split at none
      case h_1 => simp at none
      case h_2 =>
        split at none
        · split at none <;> simp at none
        · simp at none

theorem next_block?_of_try_next_block {reader after : Reader} {block : Option Block}
    (next : reader.tryNextBlock = (.ok block, after)) : reader.nextBlock? = (block, after) := by
  rw [nextBlock?, next]

end Reader

namespace Reads

variable {reader last : Reader} {offset : Nat} {visits : List Visit}

theorem exhausted (reads : Reads reader offset visits last) : last.isExhausted := by
  induction reads with
  | done exhausted => exact exhausted
  | block _ _ _ induction => exact induction

theorem blocks_from (reads : Reads reader offset visits last) :
    blocksFrom reader = (visits.map fun visit => visit.block, last) := by
  induction reads with
  | done exhausted =>
      have next :=
        Reader.next_block?_of_try_next_block (Reader.try_next_block_of_exhausted exhausted)
      rw [BlockStream.blocksFrom]
      split <;> simp_all
  | block header taken _ induction =>
      have next := Reader.next_block?_of_try_next_block header
      rw [BlockStream.blocksFrom]
      split
      · simp_all
      · rename_i found foundBody again
        obtain ⟨rfl, rfl⟩ : found = _ ∧ foundBody = _ := by
          simpa using again.symm.trans next
        split <;> simp_all

theorem taken (reads : Reads reader offset visits last) :
    ∀ visit ∈ visits, ∃ after,
      visit.body.readRecords? visit.block = some (visit.records, after) := by
  induction reads with
  | done => exact fun _ member => absurd member List.not_mem_nil
  | block _ taken _ induction => exact List.forall_mem_cons.mpr ⟨⟨_, taken⟩, induction⟩

theorem regions (reads : Reads reader offset visits last) :
    ∀ visit ∈ visits, visit.offset + visit.block.leafCount ≤ offset + leafTotal visits := by
  induction reads with
  | done => exact fun _ member => absurd member List.not_mem_nil
  | block next taken _ induction =>
      rw [leaf_total_cons]
      refine List.forall_mem_cons.mpr ⟨by simp only; omega, fun visit member => ?_⟩
      have later := induction visit member
      simp only at later ⊢
      omega

end Reads

/-- A stream that passes the check reads as blocks with declared features. -/
theorem reads_of_check {featureCount : Nat} {reader : Reader} {offset blockCount : Nat}
    {arrival : Arrival Nat}
    (passed : (checker featureCount).walk reader offset blockCount = .ok arrival) :
    ∃ visits, Reads reader offset visits arrival.reader ∧
      (∀ visit ∈ visits, visit.records.Within featureCount) ∧
      arrival.state = blockCount + visits.length ∧
      arrival.offset = offset + leafTotal visits := by
  fun_induction (checker featureCount).walk reader offset blockCount with
  | case1 => simp at passed
  | case2 reader offset blockCount after next =>
      obtain ⟨exhausted, rfl⟩ := Reader.exhausted_of_try_next_block next
      obtain rfl := Except.ok.inj passed
      exact ⟨[], .done exhausted, by simp, rfl, rfl⟩
  | case3 => simp at passed
  | case4 reader offset blockCount block body next counted after visited induction =>
      obtain ⟨visits, reads, within, count, total⟩ := induction passed
      simp only [checker] at visited
      split at visited
      case h_1 => simp at visited
      case h_2 last judged =>
        obtain ⟨records, taken, inside⟩ := check_block_eq_ok_iff.mp judged
        simp only [Except.ok.injEq, Prod.mk.injEq] at visited
        obtain ⟨rfl, rfl⟩ := visited
        refine ⟨⟨⟨offset, block, body⟩, records⟩ :: visits, .block next taken reads,
          List.forall_mem_cons.mpr ⟨inside, within⟩, ?_, ?_⟩
        · rw [count, List.length_cons]
          omega
        · rw [total, leaf_total_cons]
          exact Nat.add_assoc _ _ _

namespace Walker

variable {Failure State : Type}

/-- The walker takes every good header and ends at the end of the stream, and a
visit that it accepts reads the block's records and advances the state. -/
structure Follows (walker : Walker Failure State) (accepts : Visit → Prop)
    (advance : Visit → State → State) : Prop where
  next_block : ∀ {reader body : Reader} {block : Block},
    reader.tryNextBlock = (.ok (some block), body) → walker.next reader = (.ok (some block), body)
  next_end : ∀ {reader : Reader}, reader.isExhausted → walker.next reader = (.ok none, reader)
  visit_eq : ∀ {visit : Visit} {after : Reader}, accepts visit →
    visit.body.readRecords? visit.block = some (visit.records, after) → ∀ state,
    walker.visit visit.offset visit.block state visit.body = .ok (advance visit state, after)

/-- A walker that keeps up with the blocks visits all of them and nothing else. -/
theorem Follows.walk_eq {walker : Walker Failure State} {accepts : Visit → Prop}
    {advance : Visit → State → State} (follows : walker.Follows accepts advance)
    {reader last : Reader} {offset : Nat} {visits : List Visit}
    (reads : Reads reader offset visits last) (accepted : ∀ visit ∈ visits, accepts visit)
    (state : State) :
    walker.walk reader offset state =
      .ok ⟨visits.foldl (fun state visit => advance visit state) state,
        offset + leafTotal visits, last⟩ := by
  induction reads generalizing state with
  | done exhausted => exact walker.walk_end (follows.next_end exhausted) _ state
  | @block reader body after last offset block records visits next taken others induction =>
      obtain ⟨here, later⟩ := List.forall_mem_cons.mp accepted
      rw [walker.walk_block (follows.next_block next), follows.visit_eq here taken state]
      simp only [induction later, List.foldl_cons, leaf_total_cons, Nat.add_assoc]

end Walker

theorem checker_follows (featureCount : Nat) :
    (checker featureCount).Follows (fun visit => visit.records.Within featureCount)
      (fun _ blockCount => blockCount + 1) where
  next_block next := next
  next_end := Reader.try_next_block_of_exhausted
  visit_eq within taken blockCount := by
    have judged := check_block_eq_ok_iff.mpr ⟨_, taken, within⟩
    simp only [checker, judged]

theorem count_visits (visits : List Visit) (blockCount : Nat) :
    visits.foldl (fun blockCount _ => blockCount + 1) blockCount = blockCount + visits.length := by
  induction visits generalizing blockCount with
  | nil => rfl
  | cons visit rest induction =>
      rw [List.foldl_cons, induction, List.length_cons]
      omega

theorem next_or_end_block {Failure : Type} {reader body : Reader} {block : Block}
    (next : reader.tryNextBlock = (.ok (some block), body)) :
    nextOrEnd reader = ((.ok (some block) : Except Failure (Option Block)), body) := by
  rw [nextOrEnd, Reader.next_block?_of_try_next_block next]

theorem next_or_end_end {Failure : Type} {reader : Reader} (exhausted : reader.isExhausted) :
    nextOrEnd reader = ((.ok none : Except Failure (Option Block)), reader) := by
  rw [nextOrEnd,
    Reader.next_block?_of_try_next_block (Reader.try_next_block_of_exhausted exhausted)]

end SymmetricTrees.BlockStream

namespace SymmetricTrees.EncodedForest

open BlockStream

/-- An encoded forest reads as blocks with declared features that take the leaf
table as a whole. -/
theorem reads (encoded : EncodedForest) :
    ∃ visits last, Reads (Reader.ofBytes encoded.stream) 0 visits last ∧
      (∀ visit ∈ visits, visit.records.Within encoded.featureCount) ∧
      visits.length = encoded.blockCount ∧ leafTotal visits = encoded.leaves.size := by
  have checked := encoded.checked
  unfold BlockStream.check at checked
  split at checked
  case h_1 => simp at checked
  case h_2 arrival passed =>
    obtain ⟨visits, reads, within, count, total⟩ := reads_of_check passed
    split at checked
    case isTrue complete =>
      have counted := Except.ok.inj checked
      exact ⟨visits, arrival.reader, reads, within, by omega, by omega⟩
    case isFalse => simp at checked

theorem check_eq_ok {stream : List UInt8} {leafCount featureCount : Nat} {visits : List Visit}
    {last : Reader} (reads : Reads (Reader.ofBytes stream) 0 visits last)
    (within : ∀ visit ∈ visits, visit.records.Within featureCount)
    (whole : leafTotal visits = leafCount) :
    BlockStream.check stream leafCount featureCount = .ok visits.length := by
  have walked := (checker_follows featureCount).walk_eq reads within 0
  rw [BlockStream.check, walked]
  simp only [Nat.zero_add, whole, if_true, count_visits]

theorem of_parts_eq_ok {stream : List UInt8} {leaves : Array Float}
    {featureCount blockCount : Nat}
    (checked : BlockStream.check stream leaves.size featureCount = .ok blockCount) :
    ofParts stream leaves featureCount =
      .ok ⟨stream, leaves, featureCount, blockCount, checked⟩ := by
  unfold ofParts
  split
  case h_1 fault judged => cases checked.symm.trans judged
  case h_2 again judged =>
    obtain rfl := Except.ok.inj (checked.symm.trans judged)
    rfl

theorem parts_of_of_parts {stream : List UInt8} {leaves : Array Float} {featureCount : Nat}
    {encoded : EncodedForest} (accepted : ofParts stream leaves featureCount = .ok encoded) :
    encoded.stream = stream ∧ encoded.leaves = leaves ∧ encoded.featureCount = featureCount := by
  unfold ofParts at accepted
  split at accepted
  case h_1 => simp at accepted
  case h_2 =>
    obtain rfl := Except.ok.inj accepted
    exact ⟨rfl, rfl, rfl⟩

end SymmetricTrees.EncodedForest
