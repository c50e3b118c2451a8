import Mathlib.Algebra.Ring.Nat
import Mathlib.Data.List.Forall2
import SymmetricTrees.Conversion
import SymmetricTrees.Outcome

/-!
What can be wrong with a tree of a description. Of several violations one is the
first: a split is judged by its type before its feature index, all splits in
order before the depth, the depth before the number of leaf values, and the range
of the features last. A tree without violations is converted as it stands.
-/

set_option autoImplicit false

namespace SymmetricTrees

open Description

section FirstFaulty

variable {Item : Type} {Fine : Item → Prop} {Faulty : Nat → Item → Prop}

/-- An item that is faulty at its place, behind items that are all fine. -/
def FirstFaulty (Fine : Item → Prop) (Faulty : Nat → Item → Prop) (items : List Item) : Prop :=
  ∃ before item behind, items = before ++ item :: behind ∧
    (∀ earlier ∈ before, Fine earlier) ∧ Faulty before.length item

theorem not_first_faulty_nil : ¬FirstFaulty Fine Faulty [] := by
  intro faulty
  cases faulty with
  | intro before rest =>
      obtain ⟨item, behind, split, -⟩ := rest
      exact List.append_ne_nil_of_right_ne_nil before (List.cons_ne_nil item behind) split.symm

theorem first_faulty_cons {item : Item} {rest : List Item} :
    FirstFaulty Fine Faulty (item :: rest) ↔
      Faulty 0 item ∨ Fine item ∧ FirstFaulty Fine (fun place => Faulty (place + 1)) rest := by
  constructor
  · intro first
    obtain ⟨before, faulty, behind, split, fine, fault⟩ := first
    cases before with
    | nil =>
        cases split
        exact .inl fault
    | cons earlier others =>
        cases split
        obtain ⟨here, later⟩ := List.forall_mem_cons.mp fine
        exact .inr ⟨here, others, faulty, behind, rfl, later, fault⟩
  · intro either
    cases either with
    | inl fault => exact ⟨[], item, rest, rfl, List.forall_mem_nil _, fault⟩
    | inr later =>
        obtain ⟨here, before, faulty, behind, split, fine, fault⟩ := later
        refine ⟨item :: before, faulty, behind, ?_, List.forall_mem_cons.mpr ⟨here, fine⟩, fault⟩
        rw [split, List.cons_append]

theorem FirstFaulty.imp {OtherFaulty : Nat → Item → Prop} {items : List Item}
    (first : FirstFaulty Fine Faulty items)
    (implies : ∀ place item, Faulty place item → OtherFaulty place item) :
    FirstFaulty Fine OtherFaulty items := by
  obtain ⟨before, item, behind, split, fine, fault⟩ := first
  exact ⟨before, item, behind, split, fine, implies _ _ fault⟩

theorem find?_zip_idx_eq_some_iff {judge : Item → Bool} {items : List Item} {item : Item}
    {start place : Nat} :
    (items.zipIdx start).find? (fun entry => judge entry.1) = some (item, place) ↔
      FirstFaulty (fun earlier => judge earlier = false)
        (fun index faulty => judge faulty = true ∧ faulty = item ∧ start + index = place)
        items := by
  induction items generalizing start with
  | nil => exact iff_of_false (fun found => nomatch found) not_first_faulty_nil
  | cons first rest induction =>
      rw [first_faulty_cons, List.zipIdx_cons, List.find?_cons]
      cases verdict : judge first with
      | true => simp
      | false =>
          rw [induction]
          simp only [Bool.false_eq_true, false_and, false_or, true_and, Nat.add_assoc,
            Nat.add_comm 1]

end FirstFaulty

theorem Tree.first_misfit?_eq_some_iff {tree : Tree} {featureCount level : Nat} {misfit : Split} :
    tree.firstMisfit? featureCount = some (misfit, level) ↔
      FirstFaulty (fun earlier => earlier.feature.toNat < featureCount)
        (fun place split => featureCount ≤ split.feature.toNat ∧ split = misfit ∧ place = level)
        tree.splits := by
  have places := @find?_zip_idx_eq_some_iff Split
    (fun split => decide (featureCount ≤ split.feature.toNat)) tree.splits misfit 0 level
  simp only [decide_eq_true_eq, decide_eq_false_iff_not, Nat.not_le, Nat.zero_add] at places
  exact places

namespace Description

def SplitEntry.IsFloat (entry : SplitEntry) : Prop :=
  entry.splitType = none ∨ entry.splitType = some Conversion.floatSplitType

/-- A split that can be converted, whether or not its feature is declared. -/
structure SplitEntry.Usable (entry : SplitEntry) : Prop where
  type : entry.IsFloat
  index : entry.featureIndex ≠ none

structure SplitEntry.Valid (featureCount : Nat) (entry : SplitEntry) : Prop where
  type : entry.IsFloat
  declared : ∃ feature, entry.featureIndex = some feature ∧ feature.toNat < featureCount

structure TreeEntry.Valid (featureCount : Nat) (entry : TreeEntry) : Prop where
  splits : ∀ split ∈ entry.splits, split.Valid featureCount
  shallow : entry.splits.length ≤ 31
  dense : entry.leafValues.length = 2 ^ entry.splits.length

structure SplitEntry.Spells (entry : SplitEntry) (split : Split) : Prop where
  type : entry.IsFloat
  feature : entry.featureIndex = some split.feature
  threshold : entry.border = split.threshold

structure TreeEntry.Spells (entry : TreeEntry) (tree : Tree) : Prop where
  splits : List.Forall₂ SplitEntry.Spells entry.splits tree.splits
  leaves : entry.leafValues = tree.leaves.toList

variable {featureCount place : Nat} {split : SplitEntry} {entry : TreeEntry} {tree : Tree}
  {error : ConversionError}

theorem SplitEntry.Spells.valid_iff {converted : Split} (spells : split.Spells converted) :
    split.Valid featureCount ↔ converted.feature.toNat < featureCount := by
  constructor
  · intro valid
    obtain ⟨feature, found, declared⟩ := valid.declared
    rw [spells.feature] at found
    cases found
    exact declared
  · intro declared
    exact ⟨spells.type, converted.feature, spells.feature, declared⟩

theorem SplitEntry.Valid.usable (valid : split.Valid featureCount) : split.Usable := by
  obtain ⟨feature, found, -⟩ := valid.declared
  refine ⟨valid.type, ?_⟩
  rw [found]
  exact Option.some_ne_none feature

theorem forall_valid_iff {entries : List SplitEntry} {levels : List Split}
    (spelled : List.Forall₂ SplitEntry.Spells entries levels) :
    (∀ split ∈ entries, split.Valid featureCount) ↔
      ∀ split ∈ levels, split.feature.toNat < featureCount := by
  induction spelled with
  | nil => exact iff_of_true (List.forall_mem_nil _) (List.forall_mem_nil _)
  | cons first _ induction =>
      rw [List.forall_mem_cons, List.forall_mem_cons, first.valid_iff, induction]

theorem TreeEntry.Spells.shallow (spells : entry.Spells tree) : entry.splits.length ≤ 31 := by
  rw [spells.splits.length_eq]
  exact tree.depth_le

theorem TreeEntry.Spells.dense (spells : entry.Spells tree) :
    entry.leafValues.length = 2 ^ entry.splits.length := by
  rw [spells.splits.length_eq, spells.leaves, Array.length_toList, tree.leaves_size,
    Nat.one_shiftLeft]

theorem TreeEntry.Spells.valid_iff (spells : entry.Spells tree) :
    entry.Valid featureCount ↔ tree.Fits featureCount := by
  unfold Tree.Fits
  rw [← forall_valid_iff spells.splits]
  constructor
  · exact TreeEntry.Valid.splits
  · intro valid
    exact ⟨valid, spells.shallow, spells.dense⟩

theorem SplitEntry.other_type_eq_none_iff :
    split.splitType.filter (· != Conversion.floatSplitType) = none ↔ split.IsFloat := by
  unfold SplitEntry.IsFloat
  cases split.splitType with
  | none => simp
  | some splitType => simp [Option.filter_eq_none_iff]

end Description

namespace Conversion

variable {forest result : Forest} {position place : Nat} {error : ConversionError}

theorem split_eq_ok_iff {entry : SplitEntry} {converted : Split} :
    split position place entry = .ok converted ↔ entry.Spells converted := by
  unfold split
  cases other : entry.splitType.filter (· != floatSplitType) with
  | some splitType =>
      refine iff_of_false (fun equal => nomatch equal) fun spells => ?_
      rw [SplitEntry.other_type_eq_none_iff.mpr spells.type] at other
      cases other
  | none =>
      have float := SplitEntry.other_type_eq_none_iff.mp other
      cases index : entry.featureIndex with
      | none =>
          refine iff_of_false (fun equal => nomatch equal) fun spells => ?_
          rw [spells.feature] at index
          cases index
      | some feature =>
          constructor
          · intro equal
            cases equal
            exact ⟨float, index, rfl⟩
          · intro spells
            have same := spells.feature
            rw [index, Option.some.injEq] at same
            rw [same, spells.threshold]

theorem usable_iff {entry : SplitEntry} :
    entry.Usable ↔ ∃ converted, split position place entry = .ok converted := by
  constructor
  · intro usable
    obtain ⟨feature, found⟩ := Option.ne_none_iff_exists'.mp usable.index
    exact ⟨⟨feature, entry.border⟩, split_eq_ok_iff.mpr ⟨usable.type, found, rfl⟩⟩
  · intro converts
    obtain ⟨converted, equal⟩ := converts
    have spells := split_eq_ok_iff.mp equal
    refine ⟨spells.type, ?_⟩
    rw [spells.feature]
    exact Option.some_ne_none _

theorem splits_eq_ok_iff {entries : List SplitEntry} {converted : List Split} :
    splits position place entries = .ok converted ↔
      List.Forall₂ SplitEntry.Spells entries converted := by
  induction entries generalizing place converted with
  | nil =>
      rw [splits, List.forall₂_nil_left_iff, Except.ok.injEq]
      exact eq_comm
  | cons entry rest induction =>
      rw [splits, Outcome.bind_eq_ok_iff]
      constructor
      · intro converts
        obtain ⟨first, here, later⟩ := converts
        obtain ⟨others, behind, same⟩ := Outcome.bind_eq_ok_iff.mp later
        cases same
        exact .cons (split_eq_ok_iff.mp here) (induction.mp behind)
      · intro spelled
        cases spelled with
        | cons first others =>
            refine ⟨_, split_eq_ok_iff.mpr first, Outcome.bind_eq_ok_iff.mpr ?_⟩
            exact ⟨_, induction.mpr others, rfl⟩

theorem splits_of_usable {entries : List SplitEntry} (usable : ∀ split ∈ entries, split.Usable) :
    ∃ converted, List.Forall₂ SplitEntry.Spells entries converted := by
  induction entries with
  | nil => exact ⟨[], .nil⟩
  | cons entry rest induction =>
      obtain ⟨here, later⟩ := List.forall_mem_cons.mp usable
      obtain ⟨first, spells⟩ := (@usable_iff 0 0 entry).mp here
      obtain ⟨others, spelled⟩ := induction later
      exact ⟨first :: others, .cons (split_eq_ok_iff.mp spells) spelled⟩

theorem tree_of_splits {entry : TreeEntry} {levels : List Split}
    (spelled : List.Forall₂ SplitEntry.Spells entry.splits levels) :
    tree position entry =
      (Tree.ofParts levels entry.leafValues.toArray).mapError (.invalidTree position) := by
  rw [tree, splits_eq_ok_iff.mpr spelled]
  rfl

theorem tree_eq_ok_iff {entry : TreeEntry} {converted : Tree} :
    tree position entry = .ok converted ↔ entry.Spells converted := by
  constructor
  · intro converts
    obtain ⟨levels, splits, accepted⟩ := Outcome.bind_eq_ok_iff.mp converts
    unfold Tree.ofParts at accepted
    split at accepted
    case isFalse => cases accepted
    case isTrue =>
      split at accepted
      case isFalse => cases accepted
      case isTrue =>
        cases accepted
        exact ⟨splits_eq_ok_iff.mp splits, rfl⟩
  · intro spells
    have leaves : entry.leafValues.toArray = converted.leaves := by
      rw [spells.leaves]
    rw [tree_of_splits spells.splits, leaves, Tree.ofParts, dif_pos converted.depth_le,
      dif_pos converted.leaves_size]
    rfl

theorem spelled_of_shape {entry : TreeEntry} (usable : ∀ split ∈ entry.splits, split.Usable)
    (shallow : entry.splits.length ≤ 31)
    (dense : entry.leafValues.length = 2 ^ entry.splits.length) :
    ∃ converted, entry.Spells converted := by
  obtain ⟨levels, spelled⟩ := splits_of_usable usable
  rw [spelled.length_eq] at shallow dense
  refine ⟨⟨levels, entry.leafValues.toArray, shallow, ?_⟩, spelled, rfl⟩
  rw [List.size_toArray, dense, Nat.one_shiftLeft]

end Conversion

end SymmetricTrees
