import SymmetricTrees.Proofs.StreamFormat

/-!
The first fault of a stream, told by the bytes alone. Good blocks may come
before it; then a header, a record or, behind all blocks, the leaf table fails
the first of its conditions in order. The check accepts a stream exactly if it
is a row of blocks that take the whole leaf table, and it reports a fault
exactly if this is the stream's first.
-/

set_option autoImplicit false

namespace SymmetricTrees.BlockStream

variable {Value : Type}

/-- What is wrong with a header that should open the bytes. The conditions are
judged in the order of the cases, each case telling that those before it hold. -/
inductive HeaderFault (offset : Nat) (bytes : List UInt8) : Fault → Prop
  | truncated (more : bytes ≠ []) (few : bytes.length < Header.layout.size) :
      HeaderFault offset bytes (.truncated offset)
  | unknownKind {header : Header} {after : List UInt8}
      (opens : Header.layout.Opens bytes header after)
      (unknown : ∀ kind : Kind, header.tag ≠ kind.tag) :
      HeaderFault offset bytes (.unknownKind offset header.tag)
  | depthTooLarge {header : Header} {after : List UInt8} {kind : Kind}
      (opens : Header.layout.Opens bytes header after) (known : header.tag = kind.tag)
      (deep : maxDepth < header.depth.toNat) :
      HeaderFault offset bytes (.depthTooLarge offset header.depth)
  | inconsistent {header : Header} {after : List UInt8} {kind : Kind}
      (opens : Header.layout.Opens bytes header after) (known : header.tag = kind.tag)
      (shallow : header.depth.toNat ≤ maxDepth)
      (differs : ¬header.Announces ⟨kind, header.depth.toNat, shallow⟩) :
      HeaderFault offset bytes (.inconsistentHeader offset)

def Declared (featureCount : Nat) (features : List UInt32) : Prop :=
  ∀ feature ∈ features, feature.toNat < featureCount

/-- The lowest lane that tests an undeclared feature, and that feature. -/
def FirstUndeclared (featureCount : Nat) (features : List UInt32) (feature : UInt32) : Prop :=
  ∃ lower upper, features = lower ++ feature :: upper ∧ Declared featureCount lower ∧
    featureCount ≤ feature.toNat

inductive RecordFault (layout : Layout Value) (features : Value → List UInt32)
    (featureCount offset : Nat) (bytes : List UInt8) : Fault → Prop
  | truncated (few : bytes.length < layout.size) :
      RecordFault layout features featureCount offset bytes (.truncated offset)
  | undeclared {value : Value} {after : List UInt8} {feature : UInt32}
      (opens : layout.Opens bytes value after)
      (first : FirstUndeclared featureCount (features value) feature) :
      RecordFault layout features featureCount offset bytes
        (.featureOutOfRange offset feature featureCount)

/-- One of the next `count` records is faulty and those before it are good. An
offset is told by the length of the stream and of what is left of it. -/
def RecordsFault (layout : Layout Value) (features : Value → List UInt32)
    (featureCount size count : Nat) (bytes : List UInt8) (fault : Fault) : Prop :=
  ∃ values rest, layout.Spells bytes values rest ∧ values.length < count ∧
    (∀ value ∈ values, Declared featureCount (features value)) ∧
    RecordFault layout features featureCount (size - rest.length) rest fault

/-- What is wrong with a block that should open the bytes: its header, else one
of its wide records, else one of its single records. -/
inductive BlockFault (featureCount size : Nat) (bytes : List UInt8) (fault : Fault) : Prop
  | header (faulty : HeaderFault (size - bytes.length) bytes fault)
  | wide {header : Header} {body : List UInt8} {block : Block}
      (opens : Header.layout.Opens bytes header body) (announces : header.Announces block)
      (faulty : RecordsFault WideSplit.layout (fun record => record.features.toList)
        featureCount size block.wideCount body fault)
  | single {header : Header} {body middle : List UInt8} {block : Block} {wide : List WideSplit}
      (opens : Header.layout.Opens bytes header body) (announces : header.Announces block)
      (spells : WideSplit.layout.Spells body wide middle)
      (complete : wide.length = block.wideCount)
      (declared : ∀ record ∈ wide, Declared featureCount record.features.toList)
      (faulty : RecordsFault splitLayout (fun split => [split.feature])
        featureCount size block.singleCount middle fault)

/-- The first fault of a stream. The leaf table is judged behind the last block. -/
inductive FirstFault (featureCount leafCount : Nat) (stream : List UInt8) : Fault → Prop
  | block {entries : List Entry} {rest : List UInt8} {fault : Fault}
      (before : Blocks featureCount stream entries rest)
      (faulty : BlockFault featureCount stream.length rest fault) :
      FirstFault featureCount leafCount stream fault
  | leafTable {entries : List Entry} (whole : Blocks featureCount stream entries [])
      (differs : leafSum entries ≠ leafCount) :
      FirstFault featureCount leafCount stream (.leafTableMismatch (leafSum entries) leafCount)

theorem first_undeclared_cons_iff {featureCount : Nat} {head feature : UInt32}
    {rest : List UInt32} :
    FirstUndeclared featureCount (head :: rest) feature ↔
      featureCount ≤ head.toNat ∧ feature = head ∨
        head.toNat < featureCount ∧ FirstUndeclared featureCount rest feature := by
  constructor
  · rintro ⟨lower, upper, split, declared, outside⟩
    cases lower with
    | nil =>
        obtain ⟨rfl, -⟩ := List.cons.inj split
        exact .inl ⟨outside, rfl⟩
    | cons first lower =>
        obtain ⟨rfl, rfl⟩ := List.cons.inj split
        obtain ⟨inside, declared⟩ := List.forall_mem_cons.mp declared
        exact .inr ⟨inside, lower, upper, rfl, declared, outside⟩
  · rintro (⟨outside, rfl⟩ | ⟨inside, lower, upper, rfl, declared, outside⟩)
    · exact ⟨[], rest, rfl, List.forall_mem_nil _, outside⟩
    · exact ⟨head :: lower, upper, rfl, List.forall_mem_cons.mpr ⟨inside, declared⟩, outside⟩

theorem check_features_eq_error_iff {featureCount offset : Nat} {features : List UInt32}
    {fault : Fault} :
    checkFeatures featureCount offset features = .error fault ↔
      ∃ feature, FirstUndeclared featureCount features feature ∧
        fault = .featureOutOfRange offset feature featureCount := by
  induction features with
  | nil => simp [checkFeatures, FirstUndeclared]
  | cons head rest induction =>
      simp only [checkFeatures, first_undeclared_cons_iff]
      split
      case isTrue inside => simp only [induction, inside, Nat.not_le.mpr inside, false_and,
        true_and, false_or]
      case isFalse outside => simp [outside, Nat.not_lt.mp outside, eq_comm]

theorem record_fault_iff {layout : Layout Value} {features : Value → List UInt32}
    {featureCount : Nat} {reader : Reader} {fault : Fault} :
    RecordFault layout features featureCount reader.position reader.rest fault ↔
      reader.read? layout = none ∧ fault = .truncated reader.position ∨
        ∃ value next, reader.read? layout = some (value, next) ∧
          checkFeatures featureCount reader.position (features value) = .error fault := by
  constructor
  · intro faulty
    cases faulty with
    | truncated few => exact .inl ⟨Reader.read?_eq_none_iff.mpr few, rfl⟩
    | undeclared opens first =>
        obtain ⟨next, taken, -⟩ := Reader.opens_iff_read?.mp opens
        exact .inr ⟨_, next, taken, check_features_eq_error_iff.mpr ⟨_, first, rfl⟩⟩
  · rintro (⟨missing, rfl⟩ | ⟨value, next, taken, judged⟩)
    · exact .truncated (Reader.read?_eq_none_iff.mp missing)
    · obtain ⟨feature, first, rfl⟩ := check_features_eq_error_iff.mp judged
      exact .undeclared (Reader.opens_iff_read?.mpr ⟨next, taken, rfl⟩) first

theorem records_fault_succ_iff {layout : Layout Value} {features : Value → List UInt32}
    {featureCount size count : Nat} {bytes : List UInt8} {fault : Fault} :
    RecordsFault layout features featureCount size (count + 1) bytes fault ↔
      RecordFault layout features featureCount (size - bytes.length) bytes fault ∨
        ∃ value after, layout.Opens bytes value after ∧ Declared featureCount (features value) ∧
          RecordsFault layout features featureCount size count after fault := by
  constructor
  · rintro ⟨values, rest, spells, few, declared, faulty⟩
    cases spells with
    | nil => exact .inl faulty
    | cons opens others =>
        obtain ⟨here, later⟩ := List.forall_mem_cons.mp declared
        exact .inr ⟨_, _, opens, here, _, rest, others, Nat.lt_of_succ_lt_succ few, later, faulty⟩
  · rintro (faulty | ⟨value, after, opens, here, values, rest, others, few, later, faulty⟩)
    · exact ⟨[], bytes, .nil, Nat.succ_pos count, List.forall_mem_nil _, faulty⟩
    · exact ⟨value :: values, rest, .cons opens others, Nat.succ_lt_succ few,
        List.forall_mem_cons.mpr ⟨here, later⟩, faulty⟩

theorem check_records_eq_error_iff {layout : Layout Value} {features : Value → List UInt32}
    {featureCount count : Nat} {reader : Reader} {fault : Fault} :
    checkRecords layout features featureCount count reader = .error fault ↔
      RecordsFault layout features featureCount reader.finish count reader.rest fault := by
  induction count generalizing reader with
  | zero => simp [checkRecords, RecordsFault]
  | succ count induction =>
      -- The end of the stream stays where it is, so the place of a later record is
      -- still told by what is left of it.
      rw [records_fault_succ_iff, ← reader.position_eq, record_fault_iff]
      constructor
      · intro failed
        simp only [checkRecords] at failed
        split at failed
        case h_1 missing => exact .inl (.inl ⟨missing, (Except.error.inj failed).symm⟩)
        case h_2 value next taken =>
          split at failed
          case h_1 other judged =>
            obtain rfl := Except.error.inj failed
            exact .inl (.inr ⟨value, next, taken, judged⟩)
          case h_2 judged =>
            have faulty := induction.mp failed
            rw [Reader.read?_finish taken] at faulty
            exact .inr ⟨value, next.rest, Reader.opens_iff_read?.mpr ⟨next, taken, rfl⟩,
              check_features_eq_ok_iff.mp judged, faulty⟩
      · rintro ((⟨missing, rfl⟩ | ⟨value, next, taken, judged⟩) |
          ⟨value, after, opens, here, faulty⟩)
        · simp only [checkRecords, missing]
        · simp only [checkRecords, taken, judged]
        · obtain ⟨next, taken, rfl⟩ := Reader.opens_iff_read?.mp opens
          rw [← Reader.read?_finish taken] at faulty
          have judged : checkFeatures featureCount reader.position (features value) = .ok () :=
            check_features_eq_ok_iff.mpr here
          simp only [checkRecords, taken, judged]
          exact induction.mpr faulty

theorem judge_eq_error_iff {header : Header} {offset : Nat} {bytes after : List UInt8}
    {fault : Fault} (opens : Header.layout.Opens bytes header after) :
    header.judge offset = .error fault ↔ HeaderFault offset bytes fault := by
  constructor
  · intro failed
    unfold Header.judge at failed
    split at failed
    case h_1 unknown =>
      obtain rfl := Except.error.inj failed
      refine .unknownKind opens fun kind known => ?_
      rw [Header.kind?, Kind.of_tag?_eq_some_iff.mpr known] at unknown
      cases unknown
    case h_2 kind known =>
      have tag := Kind.of_tag?_eq_some_iff.mp known
      split at failed
      case isTrue shallow =>
        split at failed
        case isTrue => simp at failed
        case isFalse disagrees =>
          obtain rfl := Except.error.inj failed
          exact .inconsistent opens tag shallow fun announces =>
            disagrees (Header.announces_iff.mp announces).2.2
      case isFalse deep =>
        obtain rfl := Except.error.inj failed
        exact .depthTooLarge opens tag (Nat.not_le.mp deep)
  · intro faulty
    cases faulty with
    | truncated more few => exact absurd few (Nat.not_lt.mpr opens.size_le)
    | unknownKind found unknown =>
        obtain rfl := opens.value_unique found
        have kind : header.kind? = none := Option.eq_none_iff_forall_ne_some.mpr
          fun kind known => unknown kind (Kind.of_tag?_eq_some_iff.mp known)
        simp only [Header.judge, kind]
    | depthTooLarge found known deep =>
        obtain rfl := opens.value_unique found
        have kind : header.kind? = some _ := Kind.of_tag?_eq_some_iff.mpr known
        simp only [Header.judge, kind, dif_neg (Nat.not_le.mpr deep)]
    | @inconsistent _ _ kind found known shallow differs =>
        obtain rfl := opens.value_unique found
        have kindFound : header.kind? = some kind := Kind.of_tag?_eq_some_iff.mpr known
        have disagrees : ¬header.agrees kind = true := fun agreed =>
          differs (Header.announces_iff.mpr ⟨kindFound, rfl, agreed⟩)
        simp only [Header.judge, kindFound, dif_pos shallow, if_neg disagrees]

namespace Reader

variable {reader : Reader} {fault : Fault}

theorem try_next_block_eq_error_iff :
    (∃ next, reader.tryNextBlock = (.error fault, next)) ↔
      HeaderFault reader.position reader.rest fault := by
  cases found : reader.read? Header.layout with
  | some taken =>
      obtain ⟨header, next⟩ := taken
      have opens := opens_iff_read?.mpr ⟨next, found, rfl⟩
      rw [try_next_block_of_read? found, ← judge_eq_error_iff opens]
      cases header.judge reader.position <;> simp [Except.map]
  | none =>
      have few := read?_eq_none_iff.mp found
      constructor
      · rintro ⟨next, failed⟩
        unfold tryNextBlock at failed
        split at failed
        case isTrue => simp at failed
        case isFalse present =>
          rw [found] at failed
          obtain rfl := Except.error.inj (Prod.mk.inj failed).1
          exact .truncated (fun none => present (List.isEmpty_iff.mpr none)) few
      · intro faulty
        cases faulty with
        | truncated more =>
            have present : ¬reader.isExhausted = true :=
              fun none => more (List.isEmpty_iff.mp none)
            exact ⟨reader, by simp only [tryNextBlock, if_neg present, found]⟩
        | unknownKind opens | depthTooLarge opens | inconsistent opens =>
            exact absurd few (Nat.not_lt.mpr opens.size_le)

end Reader

variable {featureCount : Nat} {fault : Fault}

theorem check_block_eq_error_iff {block : Block} {reader : Reader} :
    checkBlock featureCount block reader = .error fault ↔
      RecordsFault WideSplit.layout (fun record => record.features.toList) featureCount
          reader.finish block.wideCount reader.rest fault ∨
        ∃ wide middle, WideSplit.layout.Spells reader.rest wide middle ∧
          wide.length = block.wideCount ∧
          (∀ record ∈ wide, Declared featureCount record.features.toList) ∧
          RecordsFault splitLayout (fun split => [split.feature]) featureCount
            reader.finish block.singleCount middle fault := by
  constructor
  · intro failed
    unfold checkBlock at failed
    split at failed
    case h_1 wideFailed =>
      obtain rfl := Except.error.inj failed
      exact .inl (check_records_eq_error_iff.mp wideFailed)
    case h_2 middle judged =>
      obtain ⟨wide, taken, declared⟩ := check_records_eq_ok_iff.mp judged
      have complete := Reader.read_many?_values_length taken
      have faulty := check_records_eq_error_iff.mp failed
      rw [(Reader.read_many?_finish taken).1] at faulty
      rw [← complete] at taken
      exact .inr ⟨wide, middle.rest, Reader.spells_iff_read_many?.mpr ⟨middle, taken, rfl⟩,
        complete, declared, faulty⟩
  · rintro (faulty | ⟨wide, rest, spells, complete, declared, faulty⟩)
    · simp only [checkBlock, check_records_eq_error_iff.mpr faulty]
    · obtain ⟨middle, taken, rfl⟩ := Reader.spells_iff_read_many?.mp spells
      rw [complete] at taken
      rw [← (Reader.read_many?_finish taken).1] at faulty
      have judged := check_records_eq_ok_iff.mpr ⟨wide, taken, declared⟩
      simp only [checkBlock, judged, check_records_eq_error_iff.mpr faulty]

theorem walk_of_blocks {bytes rest : List UInt8} {entries : List Entry}
    (blocks : Blocks featureCount bytes entries rest) {reader : Reader} (here : reader.rest = bytes)
    (offset blockCount : Nat) :
    ∃ last, last.rest = rest ∧ last.finish = reader.finish ∧
      (checker featureCount).walk reader offset blockCount =
        (checker featureCount).walk last (offset + leafSum entries)
          (blockCount + entries.length) := by
  induction blocks generalizing reader offset blockCount with
  | nil => exact ⟨reader, here, rfl, rfl⟩
  | @cons bytes middle after entry entries first _ induction =>
      rw [← here] at first
      obtain ⟨body, next, found, taken, same, within⟩ := Entry.opens_iff.mp first
      have judged := check_block_eq_ok_iff.mpr ⟨_, taken, within⟩
      obtain ⟨last, ending, finish, walked⟩ :=
        induction same (offset + entry.block.leafCount) (blockCount + 1)
      refine ⟨last, ending, ?_, ?_⟩
      · rw [finish, (Reader.read_records?_finish taken).1, (Reader.try_next_block_finish found).1]
      · rw [(checker featureCount).walk_block found]
        simp only [checker, judged] at walked ⊢
        rw [walked, leaf_sum_cons, List.length_cons, Nat.add_assoc, Nat.add_assoc,
          Nat.add_comm 1 entries.length]

theorem walk_of_fault {reader : Reader}
    (faulty : BlockFault featureCount reader.finish reader.rest fault) (offset blockCount : Nat) :
    (checker featureCount).walk reader offset blockCount = .error fault := by
  have failed : ∀ {header : Header} {block : Block} {body : List UInt8},
      Header.layout.Opens reader.rest header body → header.Announces block →
      (∀ next : Reader, next.rest = body → next.finish = reader.finish →
        checkBlock featureCount block next = .error fault) →
      (checker featureCount).walk reader offset blockCount = .error fault := by
    intro header block body opens announces judged
    obtain ⟨next, found, same⟩ := Reader.announces_iff_try_next_block.mp ⟨header, opens, announces⟩
    rw [(checker featureCount).walk_block found]
    simp only [checker, judged next same (Reader.try_next_block_finish found).1]
  cases faulty with
  | header faulty =>
      rw [← reader.position_eq] at faulty
      obtain ⟨next, found⟩ := Reader.try_next_block_eq_error_iff.mpr faulty
      exact (checker featureCount).walk_fault found offset blockCount
  | wide opens announces faulty =>
      refine failed opens announces fun next same finish => check_block_eq_error_iff.mpr (.inl ?_)
      rw [same, finish]
      exact faulty
  | single opens announces spells complete declared faulty =>
      refine failed opens announces fun next same finish => check_block_eq_error_iff.mpr (.inr ?_)
      rw [same, finish]
      exact ⟨_, _, spells, complete, declared, faulty⟩

/-- A walk of the check fails only at a fault behind good blocks. -/
theorem fault_of_walk {reader : Reader} {offset blockCount : Nat}
    (failed : (checker featureCount).walk reader offset blockCount = .error fault) :
    ∃ entries rest, Blocks featureCount reader.rest entries rest ∧
      BlockFault featureCount reader.finish rest fault := by
  -- The cases of the walk: a bad header, the end, a bad record and a good block.
  fun_induction (checker featureCount).walk reader offset blockCount with
  | case1 reader offset blockCount failure after next =>
      obtain rfl := Except.error.inj failed
      have faulty := Reader.try_next_block_eq_error_iff.mp ⟨after, next⟩
      rw [reader.position_eq] at faulty
      exact ⟨[], reader.rest, .nil, .header faulty⟩
  | case2 => simp at failed
  | case3 reader offset blockCount block body next failure visited =>
      obtain rfl := Except.error.inj failed
      obtain ⟨header, opens, announces⟩ :=
        Reader.announces_iff_try_next_block.mpr ⟨body, next, rfl⟩
      have finish := (Reader.try_next_block_finish next).1
      simp only [checker] at visited
      split at visited
      case h_2 => simp at visited
      case h_1 judged =>
        obtain rfl := Except.error.inj visited
        refine ⟨[], reader.rest, .nil, ?_⟩
        rcases check_block_eq_error_iff.mp judged with faulty | ⟨wide, middle, spells, complete,
          declared, faulty⟩
        · rw [finish] at faulty
          exact .wide opens announces faulty
        · rw [finish] at faulty
          exact .single opens announces spells complete declared faulty
  | case4 reader offset blockCount block body next counted after visited induction =>
      simp only [checker] at visited
      split at visited
      case h_1 => simp at visited
      case h_2 last judged =>
        obtain ⟨records, taken, within⟩ := check_block_eq_ok_iff.mp judged
        simp only [Except.ok.injEq, Prod.mk.injEq] at visited
        obtain ⟨rfl, rfl⟩ := visited
        obtain ⟨entries, rest, blocks, faulty⟩ := induction failed
        rw [(Reader.read_records?_finish taken).1, (Reader.try_next_block_finish next).1] at faulty
        have first : Entry.Opens ⟨block, records⟩ featureCount reader.rest last.rest :=
          Entry.opens_iff.mpr ⟨body, last, next, taken, rfl, within⟩
        exact ⟨_ :: entries, rest, .cons first blocks, faulty⟩

/-- The check walks to the end of a stream exactly if it is a row of blocks. -/
theorem blocks_iff_walk {stream : List UInt8} {total : Nat} :
    (∃ entries, Blocks featureCount stream entries [] ∧ leafSum entries = total) ↔
      ∃ arrival, (checker featureCount).walk (Reader.ofBytes stream) 0 0 = .ok arrival ∧
        arrival.offset = total := by
  constructor
  · rintro ⟨entries, blocks, sum⟩
    obtain ⟨last, ending, -, walked⟩ := walk_of_blocks blocks (Reader.rest_of_bytes stream) 0 0
    have finished := Reader.try_next_block_of_exhausted (List.isEmpty_iff.mpr ending)
    rw [(checker featureCount).walk_end finished] at walked
    exact ⟨_, walked, (Nat.zero_add _).trans sum⟩
  · rintro ⟨arrival, walked, offset⟩
    obtain ⟨visits, reads, within, -, total⟩ := reads_of_check walked
    refine ⟨visits.map Visit.entry, reads.blocks within, ?_⟩
    rw [leafSum, List.map_map, ← offset, total, Nat.zero_add]
    rfl

theorem check_eq_ok_iff {stream : List UInt8} {leafCount : Nat} :
    (∃ blockCount, check stream leafCount featureCount = .ok blockCount) ↔
      ∃ entries, Blocks featureCount stream entries [] ∧ leafSum entries = leafCount := by
  rw [blocks_iff_walk, check]
  constructor
  · rintro ⟨blockCount, passed⟩
    split at passed
    case h_1 => simp at passed
    case h_2 arrival walked =>
      split at passed
      case isTrue total => exact ⟨arrival, walked, total⟩
      case isFalse => simp at passed
  · rintro ⟨arrival, walked, total⟩
    exact ⟨arrival.state, by rw [walked]; exact if_pos total⟩

theorem check_eq_error_iff {stream : List UInt8} {leafCount : Nat} :
    check stream leafCount featureCount = .error fault ↔
      FirstFault featureCount leafCount stream fault := by
  constructor
  · intro failed
    unfold check at failed
    split at failed
    case h_1 walked =>
      obtain rfl := Except.error.inj failed
      obtain ⟨entries, rest, before, faulty⟩ := fault_of_walk walked
      rw [Reader.finish_of_bytes] at faulty
      exact .block before faulty
    case h_2 arrival walked =>
      split at failed
      case isTrue => simp at failed
      case isFalse differs =>
        obtain rfl := Except.error.inj failed
        obtain ⟨entries, whole, sum⟩ := blocks_iff_walk.mpr ⟨arrival, walked, rfl⟩
        rw [← sum] at differs ⊢
        exact .leafTable whole differs
  · intro first
    cases first with
    | block before faulty =>
        obtain ⟨last, rfl, finish, walked⟩ :=
          walk_of_blocks before (Reader.rest_of_bytes stream) 0 0
        rw [← Reader.finish_of_bytes, ← finish] at faulty
        rw [check, walked, walk_of_fault faulty]
    | leafTable whole differs =>
        obtain ⟨arrival, walked, offset⟩ := blocks_iff_walk.mp ⟨_, whole, rfl⟩
        simp only [check, walked, offset, if_neg differs]

end SymmetricTrees.BlockStream

namespace SymmetricTrees

open BlockStream

namespace EncodedForest

variable {stream : List UInt8} {leaves : Array Float} {featureCount : Nat}

theorem of_parts_eq_error_iff {fault : Fault} :
    ofParts stream leaves featureCount = .error fault ↔
      BlockStream.check stream leaves.size featureCount = .error fault := by
  unfold ofParts
  split
  case h_1 other judged => rw [judged, Except.error.injEq, Except.error.injEq]
  case h_2 blockCount judged => simp [judged]

theorem of_parts_is_ok_iff :
    (∃ encoded, ofParts stream leaves featureCount = .ok encoded) ↔
      ∃ blockCount, BlockStream.check stream leaves.size featureCount = .ok blockCount := by
  constructor
  · rintro ⟨encoded, accepted⟩
    obtain ⟨rfl, rfl, rfl⟩ := parts_of_of_parts accepted
    exact ⟨encoded.blockCount, encoded.checked⟩
  · rintro ⟨blockCount, checked⟩
    exact ⟨_, of_parts_eq_ok checked⟩

end EncodedForest

/-- A stream becomes an encoded forest exactly if it is a row of blocks with
declared features that take the whole leaf table; otherwise it is refused for its
first fault. Nowhere on the way do the leaf values outgrow a 64-bit word. -/
theorem stream_judged_by_format {stream : List UInt8} (short : stream.length < 2 ^ 40)
    (leaves : Array Float) (featureCount : Nat) :
    ((∃ encoded, EncodedForest.ofParts stream leaves featureCount = .ok encoded) ↔
        ∃ entries, Blocks featureCount stream entries [] ∧ leafSum entries = leaves.size) ∧
      (∀ fault, EncodedForest.ofParts stream leaves featureCount = .error fault ↔
        FirstFault featureCount leaves.size stream fault) ∧
      ∀ entries rest, Blocks featureCount stream entries rest → leafSum entries < 2 ^ 64 := by
  refine ⟨?_, ?_, ?_⟩
  · rw [EncodedForest.of_parts_is_ok_iff, check_eq_ok_iff]
  · intro fault
    rw [EncodedForest.of_parts_eq_error_iff, check_eq_error_iff]
  · intro entries rest blocks
    have paid := blocks.leaf_sum_le
    omega

/-- The end of the stream cuts the padding of a record short: the stream is whole
if that record is the last one of its block, and truncated if it is not. -/
theorem stream_judged_by_format_cut :
    let split : Split := ⟨0, ⟨0x3F000000⟩⟩
    let record : List UInt8 := [0, 0, 0, 63, 0, 0, 0, 0, 9, 9, 9]
    let whole : List UInt8 := [1, 0, 0, 0, 1, 0, 0, 0, 1, 0, 0, 0, 2, 0, 0, 0] ++ record
    let short : List UInt8 := [1, 0, 0, 0, 2, 0, 0, 0, 2, 0, 0, 0, 4, 0, 0, 0] ++ record
    whole.length < 2 ^ 40 ∧ short.length < 2 ^ 40 ∧
      Blocks 1 whole [⟨⟨.scalar, 1, by decide⟩, ⟨[], [split]⟩⟩] [] ∧
      (∃ encoded, EncodedForest.ofParts whole #[1.5, 2.5] 1 = .ok encoded) ∧
      FirstFault 1 2 short (.truncated 27) ∧
      EncodedForest.ofParts short #[1.5, 2.5] 1 = .error (.truncated 27) := by
  intro split record whole short
  have opens : splitLayout.Opens record split [] :=
    ⟨[9, 9, 9], by decide, .inr ⟨by decide, rfl⟩⟩
  have blocks : Blocks 1 whole [⟨⟨.scalar, 1, by decide⟩, ⟨[], [split]⟩⟩] [] :=
    .cons
      { header := ⟨⟨1, 1, 1, 2⟩, record, record, ⟨[], rfl, .inl rfl⟩, ⟨rfl, rfl, rfl, rfl⟩,
          .nil, .cons opens .nil⟩
        complete := ⟨rfl, rfl⟩
        within := ⟨by simp, by simp [split]⟩ }
      .nil
  have faulty : RecordsFault splitLayout (fun split => [split.feature]) 1 short.length 2 record
      (.truncated 27) :=
    ⟨[split], [], .cons opens .nil, by decide, by simp [Declared, split], .truncated (by decide)⟩
  have first : FirstFault 1 2 short (.truncated 27) :=
    .block .nil (.single ⟨[], rfl, .inl rfl⟩
      (show Header.Announces ⟨1, 2, 2, 4⟩ ⟨.scalar, 2, by decide⟩ from ⟨rfl, rfl, rfl, rfl⟩)
      .nil rfl (by simp) faulty)
  have wholeFits : whole.length < 2 ^ 40 := by decide
  have shortFits : short.length < 2 ^ 40 := by decide
  obtain ⟨accepted, -, -⟩ := stream_judged_by_format wholeFits #[1.5, 2.5] 1
  obtain ⟨-, refused, -⟩ := stream_judged_by_format shortFits #[1.5, 2.5] 1
  exact ⟨wholeFits, shortFits, blocks, accepted.mpr ⟨_, blocks, rfl⟩, first,
    (refused _).mpr first⟩

end SymmetricTrees
