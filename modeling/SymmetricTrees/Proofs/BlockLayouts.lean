import SymmetricTrees.Proofs.BlockPositions

/-!
Three layouts of split lists as a block: one split per record, four splits of one
tree per wide record with the last ones singly, and four trees of one depth with a
level per wide record. Each has the records that its header asks for, and they
spell the lists again.
-/

set_option autoImplicit false

namespace SymmetricTrees

namespace BlockStream

theorem map_splits_of_splits (splits : List (Quad Split)) :
    (splits.map WideSplit.ofSplits).map WideSplit.splits = splits := by
  rw [List.map_map]
  exact List.map_id' splits

namespace Entry

def scalar (splits : List Split) (shallow : splits.length ≤ maxDepth) : Entry :=
  ⟨⟨.scalar, splits.length, shallow⟩, ⟨[], splits⟩⟩

def chunked (splits : List Split) (shallow : splits.length ≤ maxDepth) : Entry :=
  ⟨⟨.chunks, splits.length, shallow⟩,
    ⟨(Quad.groups splits).1.map WideSplit.ofSplits, (Quad.groups splits).2⟩⟩

def grouped (lists : Quad (List Split)) (shallow : lists.lane0.length ≤ maxDepth) : Entry :=
  ⟨⟨.grouped, lists.lane0.length, shallow⟩,
    ⟨(Quad.zip lists.lane0 lists.lane1 lists.lane2 lists.lane3).map WideSplit.ofSplits, []⟩⟩

section

variable {splits : List Split} {shallow : splits.length ≤ maxDepth}

theorem scalar_complete : (scalar splits shallow).Complete := ⟨rfl, rfl⟩

theorem scalar_split_lists : (scalar splits shallow).splitLists = [splits] := rfl

theorem chunked_complete : (chunked splits shallow).Complete := by
  rcases Quad.length_groups splits with ⟨wide, single⟩
  constructor
  · rw [chunked, List.length_map]
    exact wide
  · exact single

theorem chunked_split_lists : (chunked splits shallow).splitLists = [splits] := by
  simp only [chunked, splitLists, map_splits_of_splits, Quad.groups_append]

end

variable {lists : Quad (List Split)} {shallow : lists.lane0.length ≤ maxDepth}

theorem grouped_zip (same : ∀ splits ∈ lists.toList, splits.length = lists.lane0.length) :
    (Quad.zip lists.lane0 lists.lane1 lists.lane2 lists.lane3).map Quad.lane0 = lists.lane0 ∧
      (Quad.zip lists.lane0 lists.lane1 lists.lane2 lists.lane3).map Quad.lane1 = lists.lane1 ∧
      (Quad.zip lists.lane0 lists.lane1 lists.lane2 lists.lane3).map Quad.lane2 = lists.lane2 ∧
      (Quad.zip lists.lane0 lists.lane1 lists.lane2 lists.lane3).map Quad.lane3 = lists.lane3 := by
  simp only [Quad.toList, List.forall_mem_cons] at same
  rcases same with ⟨-, second, third, fourth, -⟩
  exact Quad.zip_lanes second third fourth

theorem grouped_complete (same : ∀ splits ∈ lists.toList, splits.length = lists.lane0.length) :
    (grouped lists shallow).Complete := by
  have levels := congrArg List.length (grouped_zip same).1
  rw [List.length_map] at levels
  constructor
  · rw [grouped, List.length_map, levels]
    rfl
  · rfl

theorem grouped_split_lists (same : ∀ splits ∈ lists.toList, splits.length = lists.lane0.length) :
    (grouped lists shallow).splitLists = lists.toList := by
  rcases grouped_zip same with ⟨same0, same1, same2, same3⟩
  simp only [grouped, splitLists, map_splits_of_splits, same0, same1, same2, same3]
  rfl

end Entry

end BlockStream

end SymmetricTrees
