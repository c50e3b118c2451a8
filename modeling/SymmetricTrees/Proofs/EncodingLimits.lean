import SymmetricTrees.Model.Handle
import SymmetricTrees.Outcome
import SymmetricTrees.Proofs.FirstFault
import SymmetricTrees.Proofs.Packing

/-!
Which forests can be encoded. A header counts the leaf values of its block in
32 bits, and the check asks for the whole number. A group of four trees of depth
30 or 31 has too many, although each of its trees is a tree like any other: a
forest with such a group is refused, every other forest is encoded and loaded.
-/

set_option autoImplicit false

namespace SymmetricTrees

open BlockStream Grouping

namespace BlockStream

variable {entry : Entry} {entries : List Entry} {featureCount : Nat}

theorem Entry.opens_bytes (complete : entry.Complete)
    (counted : entry.block.leafCount < 2 ^ 32) (within : entry.records.Within featureCount)
    (rest : List UInt8) : entry.Opens featureCount (entry.bytes ++ rest) rest := by
  have next := Reader.try_next_block_header entry.block 0 (entry.recordBytes ++ rest)
  rw [if_pos counted] at next
  obtain ⟨finish, taken⟩ := read_records?_record_bytes complete (0 + 16) rest
  rw [bytes, List.append_assoc]
  exact (@Entry.opens_iff entry featureCount ⟨0, _⟩ rest).mpr
    ⟨_, _, next, taken, rfl, within⟩

theorem blocks_of_bytes (complete : ∀ entry ∈ entries, entry.Complete)
    (counted : ∀ entry ∈ entries, entry.block.leafCount < 2 ^ 32)
    (within : ∀ entry ∈ entries, entry.records.Within featureCount) (rest : List UInt8) :
    Blocks featureCount (entries.flatMap Entry.bytes ++ rest) entries rest := by
  induction entries with
  | nil => exact .nil
  | cons entry others induction =>
      obtain ⟨completeHere, completeLater⟩ := List.forall_mem_cons.mp complete
      obtain ⟨countedHere, countedLater⟩ := List.forall_mem_cons.mp counted
      obtain ⟨withinHere, withinLater⟩ := List.forall_mem_cons.mp within
      rw [List.flatMap_cons, List.append_assoc]
      exact .cons (Entry.opens_bytes completeHere countedHere withinHere _)
        (induction completeLater countedLater withinLater)

theorem Entry.header_fault_bytes (uncounted : ¬entry.block.leafCount < 2 ^ 32) (offset : Nat)
    (rest : List UInt8) :
    HeaderFault offset (entry.bytes ++ rest) (.inconsistentHeader offset) := by
  have next := Reader.try_next_block_header entry.block offset (entry.recordBytes ++ rest)
  rw [if_neg uncounted, ← List.append_assoc] at next
  exact Reader.try_next_block_eq_error_iff.mp ⟨_, next⟩

end BlockStream

namespace Grouping

variable {forest : Forest} {order : GroupingOrder} {trees : List Tree}

/-- A forest is refused at the first pack whose leaf values its header cannot count. -/
theorem encode_eq_error {before behind : List Pack} {pack : Pack}
    (split : packs order forest.trees.toList = before ++ pack :: behind)
    (counted : ∀ earlier ∈ before, earlier.block.leafCount < 2 ^ 32)
    (uncounted : ¬pack.block.leafCount < 2 ^ 32) :
    forest.encode order =
      .error (.inconsistentHeader ((before.map Pack.entry).flatMap Entry.bytes).length) := by
  obtain ⟨stream, leaves, encode, bytes, -⟩ := encode_eq forest order
  have packed : ∀ earlier ∈ before, earlier ∈ packs order forest.trees.toList := by
    intro earlier member
    rw [split]
    exact List.mem_append_left _ member
  have cut : stream = (before.map Pack.entry).flatMap Entry.bytes ++
      (pack.entry.bytes ++ behind.flatMap fun later => later.entry.bytes) := by
    rw [bytes, split, List.flatMap_append, List.flatMap_cons, ← List.flatMap_map Pack.entry]
  have front : Blocks forest.featureCount stream (before.map Pack.entry)
      (pack.entry.bytes ++ behind.flatMap fun later => later.entry.bytes) := by
    rw [cut]
    apply blocks_of_bytes
    · exact List.forall_mem_map.mpr fun earlier member =>
        Pack.entry_complete (packs_uniform earlier (packed earlier member))
    · exact List.forall_mem_map.mpr counted
    · exact List.forall_mem_map.mpr fun earlier member => entry_within (packed earlier member)
  have offset : stream.length -
      (pack.entry.bytes ++ behind.flatMap fun later => later.entry.bytes).length =
        ((before.map Pack.entry).flatMap Entry.bytes).length := by
    rw [cut, List.length_append]
    exact Nat.add_sub_cancel _ _
  rw [encode, EncodedForest.of_parts_eq_error_iff, check_eq_error_iff, ← offset]
  exact .block front (.header (Entry.header_fault_bytes uncounted _ _))

theorem encode_of_uncounted {pack : Pack} (packed : pack ∈ packs order forest.trees.toList)
    (uncounted : ¬pack.block.leafCount < 2 ^ 32) :
    ∃ offset, forest.encode order = .error (.inconsistentHeader offset) := by
  have present : ((packs order forest.trees.toList).find? fun pack =>
      decide ¬pack.block.leafCount < 2 ^ 32).isSome := by
    rw [List.find?_isSome]
    exact ⟨pack, packed, decide_eq_true uncounted⟩
  obtain ⟨first, found⟩ := Option.isSome_iff_exists.mp present
  obtain ⟨large, before, behind, split, earlier⟩ := List.find?_eq_some_iff_append.mp found
  refine ⟨_, encode_eq_error split (fun pack member => ?_) (of_decide_eq_true large)⟩
  simpa using earlier pack member

theorem exists_group {depth : Nat} (shallow : depth ≤ maxDepth)
    (many : ¬(trees.countP fun tree => tree.depth == depth) < 4) :
    ∃ quad, Pack.group quad ∈ packs order trees ∧ quad.lane0.depth = depth := by
  obtain ⟨groups, -⟩ := Quad.length_groups (bucket order trees depth)
  rw [length_bucket] at groups
  have some : 0 < (Quad.groups (bucket order trees depth)).1.length := by omega
  obtain ⟨quad, grouped⟩ := List.exists_mem_of_length_pos some
  have packed : Pack.group quad ∈ packsOfDepth (bucket order trees depth) :=
    List.mem_append_left _ (List.mem_map_of_mem grouped)
  have present : depth ∈ depths := List.mem_range.mpr (Nat.lt_succ_of_le shallow)
  exact ⟨quad, List.mem_flatMap.mpr ⟨depth, present, packed⟩,
    (packs_of_depth_uniform (fun tree held => (mem_bucket.mp held).2) _ packed).1⟩

theorem counted_iff_few :
    (∀ pack ∈ packs order trees, pack.block.leafCount < 2 ^ 32) ↔
      (trees.countP fun tree => tree.depth == 30) < 4 ∧
        (trees.countP fun tree => tree.depth == 31) < 4 := by
  constructor
  · intro counted
    have few : ∀ depth, 30 ≤ depth → depth ≤ maxDepth →
        (trees.countP fun tree => tree.depth == depth) < 4 := by
      intro depth deep shallow
      by_contra many
      obtain ⟨quad, packed, same⟩ := exists_group shallow many
      have leaves : (Pack.group quad).block.leafCount = 4 * 2 ^ depth := by
        rw [← same]
        exact Nat.shiftLeft_eq _ _
      have small := counted _ packed
      have power : 2 ^ 30 ≤ 2 ^ depth := Nat.pow_le_pow_right (by decide) deep
      omega
    exact ⟨few 30 (by decide) (by decide), few 31 (by decide) (by decide)⟩
  · rintro ⟨few30, few31⟩
    exact counted_of_few few30 few31

end Grouping

/-- Every forest passes its own check. -/
theorem Forest.check_eq_ok (forest : Forest) : forest.check = .ok () := by
  apply Outcome.for_m_eq_ok
  rintro ⟨tree, place⟩ member
  have held : tree ∈ forest.trees.toList :=
    List.mem_of_getElem? (List.mem_zipIdx_iff_getElem?.mp member)
  have fits := forest.fits tree (Array.mem_toList_iff.mp held)
  simp only [Tree.checkFeatures, (tree.first_misfit?_eq_none_iff forest.featureCount).mpr fits]
  rfl

/-- A compiled model is the encoded forest with the transform of the forest. -/
theorem of_forest_eq_ok_iff {settings : Settings} {forest : Forest} {model : CompiledModel} :
    CompiledModel.ofForest settings forest = .ok model ↔
      ∃ encoded, forest.encode settings.grouping = .ok encoded ∧
        model = ⟨encoded, forest.scale, forest.bias, settings⟩ := by
  simp only [CompiledModel.ofForest, forest.check_eq_ok]
  cases forest.encode settings.grouping with
  | error fault => simp
  | ok encoded => simp [eq_comm]

theorem of_source_eq_ok_iff {settings : Settings} {source : Description.Source}
    {model : CompiledModel} :
    CompiledModel.ofSource settings source = .ok model ↔
      ∃ described forest, Description.Model.read source = .ok described ∧
        described.toForest = .ok forest ∧ CompiledModel.ofForest settings forest = .ok model := by
  unfold CompiledModel.ofSource
  cases Description.Model.read source with
  | error fault => simp
  | ok described =>
      cases converted : described.toForest with
      | error error => simp [converted]
      | ok forest => simp [converted]

theorem of_forest_is_ok_iff {settings : Settings} {forest : Forest} :
    (∃ model, CompiledModel.ofForest settings forest = .ok model) ↔
      ∃ encoded, forest.encode settings.grouping = .ok encoded := by
  simp only [of_forest_eq_ok_iff]
  constructor
  · rintro ⟨_, encoded, succeeded, -⟩
    exact ⟨encoded, succeeded⟩
  · rintro ⟨encoded, succeeded⟩
    exact ⟨_, encoded, succeeded, rfl⟩

theorem load_forest_is_ok_iff {handle : Handle} {forest : Forest} :
    (handle.loadForest forest).1 = .ok () ↔
      ∃ model, CompiledModel.ofForest handle.settings forest = .ok model := by
  cases compiled : CompiledModel.ofForest handle.settings forest with
  | ok model => simp [Handle.loadForest, Handle.install, compiled]
  | error error => simp [Handle.loadForest, Handle.install, compiled]

/-- No four trees share one of the two greatest depths. -/
def Forest.FewDeepTrees (forest : Forest) : Prop :=
  (forest.trees.toList.countP fun tree => tree.depth == 30) < 4 ∧
    (forest.trees.toList.countP fun tree => tree.depth == 31) < 4

/-- A forest is encoded, compiled and loaded exactly if no four of its trees share
depth 30 or 31. Any other forest is refused for the header of a group. -/
theorem forest_compiles_iff_few_deep_trees (forest : Forest) (order : GroupingOrder) :
    ((∃ encoded, forest.encode order = .ok encoded) ↔ forest.FewDeepTrees) ∧
      ((∃ offset, forest.encode order = .error (.inconsistentHeader offset)) ↔
        ¬forest.FewDeepTrees) ∧
      ∀ handle : Handle,
        ((∃ model, CompiledModel.ofForest handle.settings forest = .ok model) ↔
            forest.FewDeepTrees) ∧
          ((handle.loadForest forest).1 = .ok () ↔ forest.FewDeepTrees) := by
  have refused : ∀ order, ¬forest.FewDeepTrees →
      ∃ offset, forest.encode order = .error (.inconsistentHeader offset) := by
    intro order many
    rw [Forest.FewDeepTrees, ← @counted_iff_few order] at many
    push Not at many
    obtain ⟨pack, packed, large⟩ := many
    exact encode_of_uncounted packed (Nat.not_lt.mpr large)
  have encoded : ∀ order, (∃ encoded, forest.encode order = .ok encoded) ↔
      forest.FewDeepTrees := by
    intro order
    constructor
    · rintro ⟨encoded, succeeded⟩
      by_contra many
      obtain ⟨offset, failed⟩ := refused order many
      rw [succeeded] at failed
      cases failed
    · intro few
      exact encode_is_ok (counted_iff_few.mpr few)
  refine ⟨encoded order, ⟨?_, refused order⟩, fun handle => ?_⟩
  · rintro ⟨offset, failed⟩ few
    obtain ⟨encoded, succeeded⟩ := (encoded order).mpr few
    rw [succeeded] at failed
    cases failed
  · rw [load_forest_is_ok_iff, of_forest_is_ok_iff, encoded]
    exact ⟨Iff.rfl, Iff.rfl⟩

/-- Four trees of depth 30, each of them well formed, cannot be encoded together. -/
theorem four_trees_of_depth_30_refused :
    let splits : List Split := List.replicate 30 ⟨0, ⟨0x3F000000⟩⟩
    let leaves : Array Float := Array.replicate (2 ^ 30) 0.5
    ∃ tree forest, Tree.ofParts splits leaves = .ok tree ∧
      [tree, tree, tree, tree].foldlM Forest.push (Forest.empty 1) = .ok forest ∧
      forest.encode .encounter = .error (.inconsistentHeader 0) := by
  intro splits leaves
  -- Only the length of the leaf table matters; it is never written out.
  have shallow : splits.length ≤ maxDepth := by decide
  have dense : leaves.size = 1 <<< splits.length := Array.size_replicate
  let tree : Tree := ⟨splits, leaves, shallow, dense⟩
  have fits : tree.Fits 1 := by
    intro split held
    rw [List.eq_of_mem_replicate held]
    decide
  let forest : Forest :=
    { featureCount := 1, trees := #[tree, tree, tree, tree], fits := by simp [fits] }
  refine ⟨tree, forest, Tree.of_parts_eq_ok shallow dense, ?_, ?_⟩
  · rfl
  · have split : packs .encounter forest.trees.toList =
        [] ++ Pack.group ⟨tree, tree, tree, tree⟩ :: [] := by
      rfl
    have large : ¬4 <<< 30 < 2 ^ 32 := by decide
    exact encode_eq_error split (by simp) large

end SymmetricTrees
