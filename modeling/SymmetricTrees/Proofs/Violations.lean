import SymmetricTrees.Proofs.TreeViolations

/-!
Which descriptions become forests. The forest of a valid description is told by
the description alone. Any other description is refused for the first violation
of its first tree that is not valid.
-/

set_option autoImplicit false

namespace SymmetricTrees

open Description

namespace Description

/-- The forest of a description, its trees in order. -/
structure Model.Describes (model : Model) (forest : Forest) : Prop where
  featureCount : forest.featureCount = model.features.length
  trees : List.Forall₂ TreeEntry.Spells model.trees forest.trees.toList
  transformed : ∀ transform, model.transform = some transform →
    forest.scale = transform.scale ∧ forest.bias = transform.bias
  untransformed : model.transform = none → forest.scale = 1.0 ∧ forest.bias = 0.0

end Description

namespace Forest

variable {forest larger result : Forest} {tree : Tree} {added : List Tree}

/-- The trees of a forest, and others behind them. -/
structure Grows (forest : Forest) (added : List Tree) (larger : Forest) : Prop where
  featureCount : larger.featureCount = forest.featureCount
  trees : larger.trees.toList = forest.trees.toList ++ added
  scale : larger.scale = forest.scale
  bias : larger.bias = forest.bias

theorem grows_nil_iff : forest.Grows [] larger ↔ larger = forest := by
  constructor
  · intro grows
    obtain ⟨features, trees, scale, bias⟩ := grows
    rw [List.append_nil] at trees
    cases forest
    cases larger
    cases features
    cases Array.toList_inj.mp trees
    cases scale
    cases bias
    rfl
  · intro same
    subst same
    exact ⟨rfl, (List.append_nil _).symm, rfl, rfl⟩

theorem Grows.unique (first : forest.Grows added larger) (second : forest.Grows added result) :
    result = larger := by
  apply grows_nil_iff.mp
  refine ⟨?_, ?_, ?_, ?_⟩
  · rw [second.featureCount, first.featureCount]
  · rw [second.trees, first.trees, List.append_nil]
  · rw [second.scale, first.scale]
  · rw [second.bias, first.bias]

theorem Grows.cons_iff (grows : forest.Grows [tree] larger) :
    forest.Grows (tree :: added) result ↔ larger.Grows added result := by
  have trees : larger.trees.toList ++ added = forest.trees.toList ++ tree :: added := by
    rw [grows.trees, List.append_assoc]
    rfl
  constructor
  · intro both
    refine ⟨?_, ?_, ?_, ?_⟩
    · rw [both.featureCount, grows.featureCount]
    · rw [both.trees, trees]
    · rw [both.scale, grows.scale]
    · rw [both.bias, grows.bias]
  · intro behind
    refine ⟨?_, ?_, ?_, ?_⟩
    · rw [behind.featureCount, grows.featureCount]
    · rw [behind.trees, trees]
    · rw [behind.scale, grows.scale]
    · rw [behind.bias, grows.bias]

theorem push_of_fits (fits : tree.Fits forest.featureCount) :
    ∃ larger, forest.push tree = .ok larger ∧ forest.Grows [tree] larger := by
  have none := (tree.first_misfit?_eq_none_iff forest.featureCount).mpr fits
  unfold push
  split
  case h_1 split level found =>
    rw [none] at found
    cases found
  case h_2 => exact ⟨_, rfl, rfl, Array.toList_push, rfl, rfl⟩

theorem push_of_misfit {split : Split} {level : Nat}
    (misfit : tree.firstMisfit? forest.featureCount = some (split, level)) :
    forest.push tree = .error ⟨forest.trees.size,
      .featureOutOfRange level split.feature forest.featureCount⟩ := by
  unfold push
  split
  case h_1 other place found =>
    rw [misfit] at found
    cases found
    rfl
  case h_2 found =>
    rw [misfit] at found
    cases found

end Forest

namespace Conversion

variable {forest result : Forest} {position : Nat} {error : ConversionError}

def addTree (forest : Forest) (position : Nat) (entry : TreeEntry) :
    Except ConversionError Forest := do
  let converted ← tree position entry
  (forest.push converted).mapError fun error => .invalidTree error.tree error.cause

theorem trees_cons {entry : TreeEntry} {rest : List TreeEntry} :
    trees forest position (entry :: rest) =
      addTree forest position entry >>= fun larger => trees larger (position + 1) rest := by
  rw [trees, addTree]
  cases tree position entry with
  | error fault => rfl
  | ok converted => rfl

theorem add_tree_eq_ok_iff {entry : TreeEntry} {larger : Forest} :
    addTree forest position entry = .ok larger ↔
      ∃ converted, entry.Spells converted ∧ converted.Fits forest.featureCount ∧
        forest.Grows [converted] larger := by
  unfold addTree
  rw [Outcome.bind_eq_ok_iff]
  apply exists_congr
  intro converted
  rw [tree_eq_ok_iff]
  apply and_congr_right
  intro _
  cases misfit : converted.firstMisfit? forest.featureCount with
  | none =>
      have fits := (converted.first_misfit?_eq_none_iff forest.featureCount).mp misfit
      obtain ⟨grown, pushed, grows⟩ := Forest.push_of_fits fits
      rw [pushed]
      constructor
      · intro same
        cases same
        exact ⟨fits, grows⟩
      · intro both
        rw [both.2.unique grows]
        rfl
  | some found =>
      rw [Forest.push_of_misfit misfit]
      refine iff_of_false (fun equal => nomatch equal) fun both => ?_
      rw [(converted.first_misfit?_eq_none_iff forest.featureCount).mpr both.1] at misfit
      cases misfit

theorem valid_iff_add_tree {entry : TreeEntry} :
    entry.Valid forest.featureCount ↔ ∃ larger, addTree forest position entry = .ok larger := by
  constructor
  · intro valid
    obtain ⟨converted, spells⟩ := spelled_of_shape
      (fun split member => (valid.splits split member).usable) valid.shallow valid.dense
    have fits := spells.valid_iff.mp valid
    obtain ⟨larger, -, grows⟩ := Forest.push_of_fits fits
    exact ⟨larger, add_tree_eq_ok_iff.mpr ⟨converted, spells, fits, grows⟩⟩
  · intro added
    obtain ⟨larger, accepted⟩ := added
    obtain ⟨converted, spells, fits, -⟩ := add_tree_eq_ok_iff.mp accepted
    exact spells.valid_iff.mpr fits

theorem trees_eq_ok_iff {entries : List TreeEntry} :
    trees forest position entries = .ok result ↔
      ∃ added, List.Forall₂ TreeEntry.Spells entries added ∧
        (∀ tree ∈ added, tree.Fits forest.featureCount) ∧ forest.Grows added result := by
  induction entries generalizing forest position with
  | nil =>
      rw [trees, Except.ok.injEq]
      constructor
      · intro same
        exact ⟨[], .nil, List.forall_mem_nil _, Forest.grows_nil_iff.mpr same.symm⟩
      · intro spelled
        obtain ⟨added, spells, -, grows⟩ := spelled
        cases spells
        exact (Forest.grows_nil_iff.mp grows).symm
  | cons entry rest induction =>
      rw [trees_cons, Outcome.bind_eq_ok_iff]
      constructor
      · intro converts
        obtain ⟨larger, first, later⟩ := converts
        obtain ⟨converted, spells, fits, grows⟩ := add_tree_eq_ok_iff.mp first
        obtain ⟨others, spelled, within, behind⟩ := induction.mp later
        rw [grows.featureCount] at within
        exact ⟨converted :: others, .cons spells spelled, List.forall_mem_cons.mpr ⟨fits, within⟩,
          grows.cons_iff.mpr behind⟩
      · intro spelled
        obtain ⟨added, spells, within, grows⟩ := spelled
        cases spells with
        | cons first others =>
            obtain ⟨fits, later⟩ := List.forall_mem_cons.mp within
            obtain ⟨larger, -, step⟩ := Forest.push_of_fits fits
            rw [← step.featureCount] at later
            exact ⟨larger, add_tree_eq_ok_iff.mpr ⟨_, first, fits, step⟩,
              induction.mpr ⟨_, others, later, step.cons_iff.mp grows⟩⟩

theorem exists_trees_iff {entries : List TreeEntry} :
    (∃ result, trees forest position entries = .ok result) ↔
      ∀ entry ∈ entries, entry.Valid forest.featureCount := by
  induction entries generalizing forest position with
  | nil => exact iff_of_true ⟨forest, rfl⟩ (List.forall_mem_nil _)
  | cons entry rest induction =>
      have behind : ∀ larger, addTree forest position entry = .ok larger →
          ((∃ result, trees larger (position + 1) rest = .ok result) ↔
            ∀ entry ∈ rest, entry.Valid forest.featureCount) := by
        intro larger added
        obtain ⟨converted, -, -, grows⟩ := add_tree_eq_ok_iff.mp added
        rw [induction, grows.featureCount]
      rw [trees_cons, List.forall_mem_cons, @valid_iff_add_tree forest position]
      constructor
      · intro converts
        obtain ⟨result, accepted⟩ := converts
        obtain ⟨larger, added, later⟩ := Outcome.bind_eq_ok_iff.mp accepted
        exact ⟨⟨larger, added⟩, (behind larger added).mp ⟨result, later⟩⟩
      · intro valid
        obtain ⟨⟨larger, added⟩, others⟩ := valid
        obtain ⟨result, later⟩ := (behind larger added).mpr others
        exact ⟨result, Outcome.bind_eq_ok_iff.mpr ⟨larger, added, later⟩⟩

end Conversion

namespace Description.Model

variable {model : Model} {forest : Forest} {error : ConversionError}

theorem to_forest_eq_ok_iff : model.toForest = .ok forest ↔ model.Describes forest := by
  unfold toForest
  rw [Conversion.trees_eq_ok_iff]
  constructor
  · intro converts
    obtain ⟨added, spelled, -, grows⟩ := converts
    have held : forest.trees.toList = added := grows.trees
    refine ⟨grows.featureCount, ?_, ?_, ?_⟩
    · rw [held]
      exact spelled
    · intro transform given
      rw [given] at grows
      exact ⟨grows.scale, grows.bias⟩
    · intro absent
      rw [absent] at grows
      exact ⟨grows.scale, grows.bias⟩
  · intro describes
    refine ⟨forest.trees.toList, describes.trees, ?_, describes.featureCount, rfl, ?_, ?_⟩
    · intro tree held
      have fits := forest.fits tree (Array.mem_toList_iff.mp held)
      rw [describes.featureCount] at fits
      exact fits
    · cases given : model.transform with
      | none => exact (describes.untransformed given).1
      | some transform => exact (describes.transformed transform given).1
    · cases given : model.transform with
      | none => exact (describes.untransformed given).2
      | some transform => exact (describes.transformed transform given).2

theorem exists_to_forest_iff :
    (∃ forest, model.toForest = .ok forest) ↔
      ∀ tree ∈ model.trees, tree.Valid model.features.length :=
  Conversion.exists_trees_iff

/-- The type of the last split is told, although the first one is out of range and
the leaf values are missing. -/
example :
    toForest ⟨[{}], [⟨[⟨⟨0⟩, some 7, none, none⟩, ⟨⟨0⟩, none, none, some "OneHotFeature"⟩], []⟩],
      none⟩ = .error (.unsupportedSplitType 0 1 "OneHotFeature") := rfl

end Description.Model

end SymmetricTrees
