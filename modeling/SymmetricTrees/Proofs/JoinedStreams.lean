import SymmetricTrees.Proofs.CutStreams

/-!
Streams one behind the other. An accepted stream that ends on an alignment
boundary has all its padding, so that another stream may follow it. What follows
is then judged and scored as if it stood alone, but for the places of its faults
and for the score that it starts from.
-/

set_option autoImplicit false

namespace SymmetricTrees

namespace BlockStream

/-- The fault of a stream as it is told behind so many bytes and leaf values. -/
def Fault.behind (bytes leaves : Nat) : Fault → Fault
  | unknownKind offset tag => unknownKind (bytes + offset) tag
  | truncated offset => truncated (bytes + offset)
  | inconsistentHeader offset => inconsistentHeader (bytes + offset)
  | depthTooLarge offset depth => depthTooLarge (bytes + offset) depth
  | featureOutOfRange offset feature featureCount =>
      featureOutOfRange (bytes + offset) feature featureCount
  | leafTableMismatch expected got => leafTableMismatch (leaves + expected) (leaves + got)

variable {Value : Type} {layout : Layout Value} {bytes middle after : List UInt8}
  {featureCount : Nat}

/-- In aligned bytes no padding is cut short, so more bytes change nothing before them. -/
theorem Layout.Opens.extend {value : Value} (opens : layout.Opens bytes value after)
    (aligned : alignment ∣ bytes.length) (more : List UInt8) :
    layout.Opens (bytes ++ more) value (after ++ more) ∧ alignment ∣ after.length := by
  obtain ⟨padding, rfl, whole⟩ := opens
  have inside := size_le_aligned_size layout.size
  have multiple := alignment_dvd_aligned_size layout.size
  simp only [List.length_append, layout.length_encode] at aligned
  have full : padding.length = alignedSize layout.size - layout.size := by
    rcases whole with full | ⟨cut, rfl⟩
    · exact full
    · simp only [alignedSize, alignment, List.length_nil] at aligned cut inside ⊢
      omega
  refine ⟨⟨padding, ?_, .inl full⟩, ?_⟩
  · rw [List.append_assoc, List.append_assoc]
  · rw [← Nat.add_assoc, full, Nat.add_sub_cancel' inside] at aligned
    exact (Nat.dvd_add_right multiple).mp aligned

theorem Layout.Spells.extend {values : List Value} (spells : layout.Spells bytes values after)
    (aligned : alignment ∣ bytes.length) (more : List UInt8) :
    layout.Spells (bytes ++ more) values (after ++ more) ∧ alignment ∣ after.length := by
  induction spells with
  | nil => exact ⟨.nil, aligned⟩
  | cons first _ induction =>
      obtain ⟨firstExtended, rest⟩ := first.extend aligned more
      obtain ⟨others, last⟩ := induction rest
      exact ⟨.cons firstExtended others, last⟩

theorem Entry.Opens.extend {entry : Entry} (opens : entry.Opens featureCount bytes after)
    (aligned : alignment ∣ bytes.length) (more : List UInt8) :
    entry.Opens featureCount (bytes ++ more) (after ++ more) ∧ alignment ∣ after.length := by
  obtain ⟨header, body, middle, announced, announces, wide, single⟩ := opens.header
  obtain ⟨announcedExtended, alignedBody⟩ := announced.extend aligned more
  obtain ⟨wideExtended, alignedMiddle⟩ := wide.extend alignedBody more
  obtain ⟨singleExtended, alignedAfter⟩ := single.extend alignedMiddle more
  exact ⟨⟨⟨header, _, _, announcedExtended, announces, wideExtended, singleExtended⟩,
    opens.complete, opens.within⟩, alignedAfter⟩

theorem Blocks.extend {entries : List Entry} (blocks : Blocks featureCount bytes entries after)
    (aligned : alignment ∣ bytes.length) (more : List UInt8) :
    Blocks featureCount (bytes ++ more) entries (after ++ more) := by
  induction blocks with
  | nil => exact .nil
  | cons first _ induction =>
      obtain ⟨firstExtended, rest⟩ := first.extend aligned more
      exact .cons firstExtended (induction rest)

theorem Blocks.append {first second : List Entry} (front : Blocks featureCount bytes first middle)
    (back : Blocks featureCount middle second after) :
    Blocks featureCount bytes (first ++ second) after := by
  induction front with
  | nil => exact back
  | cons opens _ induction => exact .cons opens (induction back)

/-- Another stream goes on where the blocks of an aligned one end. -/
theorem Blocks.join {first second : List UInt8} {entries others : List Entry}
    (front : Blocks featureCount first entries []) (aligned : alignment ∣ first.length)
    (back : Blocks featureCount second others after) :
    Blocks featureCount (first ++ second) (entries ++ others) after :=
  (front.extend aligned second).append back

theorem Layout.Opens.length_le {value : Value} (opens : layout.Opens bytes value after) :
    after.length ≤ bytes.length := by
  obtain ⟨padding, rfl, -⟩ := opens
  rw [List.length_append, List.length_append]
  omega

theorem Layout.Spells.length_le {values : List Value} (spells : layout.Spells bytes values after) :
    after.length ≤ bytes.length := by
  induction spells with
  | nil => exact Nat.le_refl _
  | cons first _ induction => exact Nat.le_trans induction first.length_le

theorem Blocks.length_le {entries : List Entry}
    (blocks : Blocks featureCount bytes entries after) : after.length ≤ bytes.length := by
  have paid := blocks.leaf_sum_le
  omega

variable {fault : Fault} {size offset count : Nat} {features : Value → List UInt32}

theorem HeaderFault.behind (faulty : HeaderFault offset bytes fault) (shift leaves : Nat) :
    HeaderFault (shift + offset) bytes (fault.behind shift leaves) := by
  cases faulty with
  | truncated more few => exact .truncated more few
  | unknownKind opens unknown => exact .unknownKind opens unknown
  | depthTooLarge opens known deep => exact .depthTooLarge opens known deep
  | inconsistent opens known shallow differs => exact .inconsistent opens known shallow differs

theorem RecordFault.behind (faulty : RecordFault layout features featureCount offset bytes fault)
    (shift leaves : Nat) :
    RecordFault layout features featureCount (shift + offset) bytes
      (fault.behind shift leaves) := by
  cases faulty with
  | truncated few => exact .truncated few
  | undeclared opens first => exact .undeclared opens first

theorem RecordsFault.behind
    (faulty : RecordsFault layout features featureCount size count bytes fault)
    (inside : bytes.length ≤ size) (shift leaves : Nat) :
    RecordsFault layout features featureCount (shift + size) count bytes
      (fault.behind shift leaves) := by
  obtain ⟨values, rest, spells, few, declared, last⟩ := faulty
  have left := spells.length_le
  refine ⟨values, rest, spells, few, declared, ?_⟩
  rw [Nat.add_sub_assoc (Nat.le_trans left inside)]
  exact last.behind shift leaves

theorem BlockFault.behind (faulty : BlockFault featureCount size bytes fault)
    (inside : bytes.length ≤ size) (shift leaves : Nat) :
    BlockFault featureCount (shift + size) bytes (fault.behind shift leaves) := by
  cases faulty with
  | header faulty =>
      have moved := faulty.behind shift leaves
      rw [← Nat.add_sub_assoc inside] at moved
      exact .header moved
  | wide opens announces faulty =>
      exact .wide opens announces
        (faulty.behind (Nat.le_trans opens.length_le inside) shift leaves)
  | single opens announces spells complete declared faulty =>
      have left := Nat.le_trans spells.length_le (Nat.le_trans opens.length_le inside)
      exact .single opens announces spells complete declared (faulty.behind left shift leaves)

/-- The first fault of a stream is that of the whole where the stream stands
behind an aligned row of blocks. -/
theorem FirstFault.behind {first second : List UInt8} {entries : List Entry} {leafCount : Nat}
    (front : Blocks featureCount first entries []) (aligned : alignment ∣ first.length)
    (faulty : FirstFault featureCount leafCount second fault) :
    FirstFault featureCount (leafSum entries + leafCount) (first ++ second)
      (fault.behind first.length (leafSum entries)) := by
  cases faulty with
  | block before faulty =>
      have moved := faulty.behind before.length_le first.length (leafSum entries)
      rw [← List.length_append] at moved
      exact .block (front.join aligned before) moved
  | @leafTable others whole differs =>
      have total := leaf_sum_append entries others
      rw [Fault.behind, ← total]
      exact .leafTable (front.join aligned whole) (by omega)

theorem parts_of_tree {splits : List Split} {leaves : Array Float} {tree : Tree}
    (built : Tree.ofParts splits leaves = .ok tree) :
    tree.splits = splits ∧ tree.leaves = leaves := by
  unfold Tree.ofParts at built
  split at built
  case isFalse => cases built
  case isTrue =>
    split at built
    case isFalse => cases built
    case isTrue =>
      obtain rfl := Except.ok.inj built
      exact ⟨rfl, rfl⟩

theorem read_trees_append {lists : List (List Split)} {leaves rest : List Float} {trees : List Tree}
    (read : readTrees lists leaves = .ok (trees, rest)) (more : List Float) :
    leaves = trees.flatMap (fun tree => tree.leaves.toList) ++ rest ∧
      readTrees lists (leaves ++ more) = .ok (trees, rest ++ more) := by
  induction lists generalizing leaves trees with
  | nil =>
      obtain ⟨rfl, rfl⟩ := Prod.mk.inj (Except.ok.inj read)
      exact ⟨rfl, rfl⟩
  | cons splits others induction =>
      rw [readTrees] at read
      split at read
      case h_1 => cases read
      case h_2 tree built =>
        split at read
        case h_1 => cases read
        case h_2 later last readLater =>
          obtain ⟨rfl, rfl⟩ := Prod.mk.inj (Except.ok.inj read)
          obtain ⟨sameSplits, sameLeaves⟩ := parts_of_tree built
          obtain ⟨behind, extended⟩ := induction readLater
          have own : leaves.take (2 ^ splits.length) = tree.leaves.toList := by rw [sameLeaves]
          have enough : 2 ^ splits.length ≤ leaves.length := by
            have size := tree.leaves_size
            rw [sameLeaves, sameSplits, List.size_toArray, List.length_take,
              Nat.one_shiftLeft] at size
            omega
          constructor
          · rw [List.flatMap_cons, List.append_assoc, ← behind, ← own, List.take_append_drop]
          · rw [readTrees, List.take_append_of_le_length enough,
              List.drop_append_of_le_length enough, built]
            simp only [extended]

theorem read_stands_append {first second : List Entry} {leaves more : List Float}
    {stands others : List Stand} (read : readStands first leaves = .ok stands)
    (whole : (stands.flatMap Stand.trees).flatMap (fun tree => tree.leaves.toList) = leaves)
    (readMore : readStands second more = .ok others) :
    readStands (first ++ second) (leaves ++ more) = .ok (stands ++ others) := by
  induction first generalizing leaves stands with
  | nil =>
      obtain rfl := Except.ok.inj read
      subst whole
      exact readMore
  | cons entry rest induction =>
      rw [readStands] at read
      split at read
      case h_1 => cases read
      case h_2 trees behind readHere =>
        split at read
        case h_1 => cases read
        case h_2 later readLater =>
          obtain rfl := Except.ok.inj read
          obtain ⟨split, extended⟩ := read_trees_append readHere more
          rw [List.flatMap_cons, List.flatMap_append, split] at whole
          have joined := induction readLater (List.append_cancel_left whole)
          rw [List.cons_append, readStands, extended]
          simp only [joined, List.cons_append]

end BlockStream

open BlockStream

namespace EncodedForest

theorem tree_count_eq_sum (encoded : EncodedForest) :
    encoded.treeCount = (encoded.blocks.map fun block => block.kind.treeCount).sum := by
  rw [List.sum_eq_foldl, List.foldl_map]
  rfl

/-- The stream and the leaf table of a forest are those of two others, one behind the other. -/
structure Joins (front back both : EncodedForest) : Prop where
  stream : both.stream = front.stream ++ back.stream
  leaves : both.leaves = front.leaves ++ back.leaves
  featureCount : both.featureCount = front.featureCount
  sameFeatureCount : back.featureCount = front.featureCount

variable {front back both : EncodedForest}

/-- A joined stream has the blocks of both, and their trees share the joined leaf
tables as they shared their own. -/
theorem Joins.stands (joins : Joins front back both) (aligned : alignment ∣ front.stream.length) :
    both.blocks = front.blocks ++ back.blocks ∧
      ∀ {stands others}, standsOf front.stream front.leaves = .ok stands →
        standsOf back.stream back.leaves = .ok others →
        standsOf both.stream both.leaves = .ok (stands ++ others) := by
  obtain ⟨frontEntries, frontBlocks⟩ := front.exists_blocks
  obtain ⟨backEntries, backBlocks⟩ := back.exists_blocks
  have frontParts := front.blocks_of_stream frontBlocks
  have backParts := back.blocks_of_stream backBlocks
  rw [joins.sameFeatureCount] at backBlocks
  have joined := frontBlocks.join aligned backBlocks
  rw [← joins.stream, ← joins.featureCount] at joined
  have parts := both.blocks_of_stream joined
  refine ⟨?_, fun {stands others} read readMore => ?_⟩
  · rw [← parts.1, ← frontParts.1, ← backParts.1, List.map_append]
  · obtain ⟨own, ownRead, -, -, whole, -⟩ := front.reads_as_trees
    obtain rfl := Except.ok.inj (ownRead.symm.trans read)
    rw [standsOf, frontParts.2.2] at read
    rw [standsOf, backParts.2.2] at readMore
    rw [standsOf, parts.2.2, joins.leaves, Array.toList_append]
    exact read_stands_append read whole readMore

/-- The score goes on from that of the first stream with the values of the second
stream's trees. -/
theorem Joins.scores (joins : Joins front back both) (aligned : alignment ∣ front.stream.length) :
    ∃ trees, treesOf back.stream back.leaves = .ok trees ∧
      ∀ ops : LaneOps, ops.LaneWise → ∀ row : Row, front.featureCount ≤ row.size →
        ∃ score values, front.scoreOn ops row = .ok score ∧
          trees.mapM (fun tree => tree.predict? row) = some values ∧
          both.scoreOn ops row = .ok (values.foldl (fun sum value => sum + value) score) := by
  obtain ⟨stands, read, -, -, -, scores⟩ := front.reads_as_trees
  obtain ⟨others, readMore, -, fits, -, -⟩ := back.reads_as_trees
  obtain ⟨all, readAll, -, -, -, allScores⟩ := both.reads_as_trees
  obtain rfl := Except.ok.inj (readAll.symm.trans ((joins.stands aligned).2 read readMore))
  refine ⟨others.flatMap Stand.trees, ?_, fun ops lanes row long => ?_⟩
  · rw [treesOf, readMore]
    rfl
  · have covers : ∀ tree ∈ others.flatMap Stand.trees, row.Covers tree.splits := by
      intro tree member split tested
      have declared := fits tree member split tested
      rw [joins.sameFeatureCount] at declared
      exact Nat.lt_of_lt_of_le declared long
    have bothLong : both.featureCount ≤ row.size := by rw [joins.featureCount]; exact long
    refine ⟨_, _, scores ops lanes row long, map_m_predict?_eq_some covers, ?_⟩
    rw [allScores ops lanes row bothLong, List.flatMap_append, add_trees_append, List.foldl_map]
    rfl

variable {second : List UInt8} {secondLeaves : Array Float}

theorem of_parts_behind_of_error (aligned : alignment ∣ front.stream.length) {fault : Fault}
    (refused : ofParts second secondLeaves front.featureCount = .error fault) :
    ofParts (front.stream ++ second) (front.leaves ++ secondLeaves) front.featureCount =
      .error (fault.behind front.stream.length front.leaves.size) := by
  obtain ⟨entries, blocks⟩ := front.exists_blocks
  have faulty := check_eq_error_iff.mp (of_parts_eq_error_iff.mp refused)
  have moved := faulty.behind blocks aligned
  rw [(front.blocks_of_stream blocks).2.1, ← Array.size_append] at moved
  exact of_parts_eq_error_iff.mpr (check_eq_error_iff.mpr moved)

theorem of_parts_behind_is_ok_iff (aligned : alignment ∣ front.stream.length) :
    (∃ both, ofParts (front.stream ++ second) (front.leaves ++ secondLeaves) front.featureCount =
        .ok both) ↔
      ∃ back, ofParts second secondLeaves front.featureCount = .ok back := by
  constructor
  · rintro ⟨both, succeeded⟩
    cases judged : ofParts second secondLeaves front.featureCount with
    | ok back => exact ⟨back, rfl⟩
    | error fault =>
        rw [of_parts_behind_of_error aligned judged] at succeeded
        cases succeeded
  · intro succeeded
    obtain ⟨entries, blocks⟩ := front.exists_blocks
    obtain ⟨others, more, sum⟩ := check_eq_ok_iff.mp (of_parts_is_ok_iff.mp succeeded)
    refine of_parts_is_ok_iff.mpr (check_eq_ok_iff.mpr
      ⟨entries ++ others, blocks.join aligned more, ?_⟩)
    rw [leaf_sum_append, (front.blocks_of_stream blocks).2.1, sum, Array.size_append]

end EncodedForest

/-- A stream behind an accepted aligned one is accepted there exactly if it is
accepted alone. The joined stream has the blocks of both, and a row goes on from
the score of the first stream with the values of the second one's trees; a fault
of the second stream is the fault of the joined one, told by its place there. -/
theorem aligned_streams_compose {first second : List UInt8} {firstLeaves : Array Float}
    {featureCount : Nat} {front : EncodedForest}
    (accepted : EncodedForest.ofParts first firstLeaves featureCount = .ok front)
    (aligned : 16 ∣ first.length) (short : (first ++ second).length < 2 ^ 40)
    (secondLeaves : Array Float) :
    let alone := EncodedForest.ofParts second secondLeaves featureCount
    let joined := EncodedForest.ofParts (first ++ second) (firstLeaves ++ secondLeaves) featureCount
    ((∃ both, joined = .ok both) ↔ ∃ back, alone = .ok back) ∧
      (∀ both back, joined = .ok both → alone = .ok back →
        both.blocks = front.blocks ++ back.blocks ∧
          both.blockCount = front.blockCount + back.blockCount ∧
          both.treeCount = front.treeCount + back.treeCount ∧
          ∃ trees, treesOf second secondLeaves = .ok trees ∧
            ∀ (backend : LaneBackend) {unit : VectorUnit}, unit.LaneWise →
              ∀ row : Row, featureCount ≤ row.size → ∃ score values,
                front.scoreOn (backend.opsOn unit) row = .ok score ∧
                trees.mapM (fun tree => tree.predict? row) = some values ∧
                both.scoreOn (backend.opsOn unit) row =
                  .ok (values.foldl (fun sum value => sum + value) score)) ∧
      (∀ fault, alone = .error fault →
        joined = .error (fault.behind first.length firstLeaves.size)) ∧
      ∀ entries rest, Blocks featureCount (first ++ second) entries rest →
        leafSum entries < 2 ^ 64 := by
  intro alone joined
  obtain ⟨rfl, rfl, rfl⟩ := EncodedForest.parts_of_of_parts accepted
  refine ⟨EncodedForest.of_parts_behind_is_ok_iff aligned, ?_,
    fun fault refused => EncodedForest.of_parts_behind_of_error aligned refused, ?_⟩
  · intro both back bothAccepted backAccepted
    obtain ⟨stream, leaves, featureCount⟩ := EncodedForest.parts_of_of_parts bothAccepted
    obtain ⟨rfl, rfl, sameFeatureCount⟩ := EncodedForest.parts_of_of_parts backAccepted
    have joins : front.Joins back both := ⟨stream, leaves, featureCount, sameFeatureCount⟩
    obtain ⟨sameBlocks, -⟩ := joins.stands aligned
    obtain ⟨trees, read, scores⟩ := joins.scores aligned
    refine ⟨sameBlocks, ?_, ?_, trees, read, fun backend unit laneWise row long => ?_⟩
    · rw [← both.length_blocks, ← front.length_blocks, ← back.length_blocks, sameBlocks,
        List.length_append]
    · rw [both.tree_count_eq_sum, front.tree_count_eq_sum, back.tree_count_eq_sum, sameBlocks,
        List.map_append, List.sum_append]
    · exact scores _ (backend.ops_on_lane_wise laneWise) row long
  · intro entries rest paid
    have bounded := paid.leaf_sum_le
    omega

/-- A block of one split, followed once by a block whose last padding is missing and
once by four bytes that are no header. -/
theorem aligned_streams_compose_after_split :
    let block : List UInt8 :=
      [1, 0, 0, 0, 1, 0, 0, 0, 1, 0, 0, 0, 2, 0, 0, 0,
        0, 0, 0, 63, 0, 0, 0, 0, 0, 0, 0, 0, 0, 0, 0, 0]
    let leaves : Array Float := #[0.5, 1.5]
    let more : Array Float := #[2.5, 3.5]
    let last : List UInt8 := block.take 24
    ∃ front back, EncodedForest.ofParts block leaves 1 = .ok front ∧
      EncodedForest.ofParts last more 1 = .ok back ∧
      16 ∣ block.length ∧ (block ++ last).length < 2 ^ 40 ∧
      (∃ both, EncodedForest.ofParts (block ++ last) (leaves ++ more) 1 = .ok both ∧
        both.blocks = front.blocks ++ back.blocks ∧ both.treeCount = 2) ∧
      EncodedForest.ofParts (block ++ [9, 0, 0, 0]) (leaves ++ more) 1 =
        .error (.truncated 32) := by
  intro block leaves more last
  have frontReads : Reads (.ofBytes block) 0
      [⟨⟨0, ⟨.scalar, 1, by decide⟩, ⟨16, block.drop 16⟩⟩, ⟨[], [⟨0, ⟨0x3F000000⟩⟩]⟩⟩] ⟨32, []⟩ :=
    .block rfl rfl (.done rfl)
  have backReads : Reads (.ofBytes last) 0
      [⟨⟨0, ⟨.scalar, 1, by decide⟩, ⟨16, last.drop 16⟩⟩, ⟨[], [⟨0, ⟨0x3F000000⟩⟩]⟩⟩] ⟨24, []⟩ :=
    .block rfl rfl (.done rfl)
  have frontChecked : BlockStream.check block leaves.size 1 = .ok 1 :=
    EncodedForest.check_eq_ok frontReads (List.forall_mem_singleton.mpr ⟨by simp, by simp⟩) rfl
  have backChecked : BlockStream.check last more.size 1 = .ok 1 :=
    EncodedForest.check_eq_ok backReads (List.forall_mem_singleton.mpr ⟨by simp, by simp⟩) rfl
  have frontAccepted := EncodedForest.of_parts_eq_ok frontChecked
  have backAccepted := EncodedForest.of_parts_eq_ok backChecked
  have aligned : 16 ∣ block.length := by decide
  have short : (block ++ last).length < 2 ^ 40 := by decide
  obtain ⟨accepted, composed, -⟩ := aligned_streams_compose frontAccepted aligned short more
  obtain ⟨both, succeeded⟩ := accepted.mpr ⟨_, backAccepted⟩
  obtain ⟨blocks, -, trees, -⟩ := composed both _ succeeded backAccepted
  have faulty : FirstFault 1 more.size [9, 0, 0, 0] (.truncated 0) :=
    .block .nil (.header (.truncated (by decide) (by decide)))
  have refused := EncodedForest.of_parts_eq_error_iff.mpr (check_eq_error_iff.mpr faulty)
  have shorter : (block ++ [9, 0, 0, 0]).length < 2 ^ 40 := by decide
  obtain ⟨-, -, failed, -⟩ := aligned_streams_compose frontAccepted aligned shorter more
  refine ⟨_, _, frontAccepted, backAccepted, aligned, short, ⟨both, succeeded, blocks, ?_⟩,
    failed _ refused⟩
  rw [trees, EncodedForest.treeCount, EncodedForest.treeCount, EncodedForest.blocks,
    EncodedForest.blocks, frontReads.blocks_from, backReads.blocks_from]
  rfl

end SymmetricTrees
