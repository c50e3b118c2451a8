import SymmetricTrees.Proofs.EncodingLimits
import SymmetricTrees.Proofs.Encoding
import SymmetricTrees.Proofs.Violations

/-!
Forests that grow tree by tree. A tree with a split on an undeclared feature is
refused and changes nothing, so whatever is offered, a forest holds the accepted
trees in order and all of them score every row that has the declared features.
-/

set_option autoImplicit false

namespace SymmetricTrees

/-- A row has the features that a tree tests, and they lead to a leaf of the tree. -/
structure Tree.ReadsInside (tree : Tree) (row : Row) : Prop where
  features : ∀ split ∈ tree.splits, split.feature.toNat < row.size
  leaf : ∃ index, ∃ inside : index < tree.leaves.size,
    tree.leafIndex? row = some index ∧ tree.predict? row = some tree.leaves[index]

theorem Tree.reads_inside_of_fits {tree : Tree} {row : Row} {featureCount : Nat}
    (fits : tree.Fits featureCount) (long : featureCount ≤ row.size) : tree.ReadsInside row where
  features := Tree.covers_of_fits fits long
  leaf := by
    have covers := Tree.covers_of_fits fits long
    have inside := tree.number_lt_leaves row
    have value := Tree.leaves_get_elem?_number covers
    rw [Array.getElem?_eq_getElem inside] at value
    refine ⟨LeafIndex.number row tree.splits, inside, Tree.leaf_index?_eq_some covers, ?_⟩
    rw [Tree.predict?_eq_some covers, value]

namespace Forest

/-- Offers a tree. A forest that refuses the tree stays as it was. -/
def offer (forest : Forest) (tree : Tree) : Except ForestError Unit × Forest :=
  match forest.push tree with
  | .ok larger => (.ok (), larger)
  | .error error => (.error error, forest)

def offerAll (forest : Forest) : List Tree → List (Except ForestError Unit) × Forest
  | [] => ([], forest)
  | tree :: others =>
      let later := (forest.offer tree).2.offerAll others
      ((forest.offer tree).1 :: later.1, later.2)

def accepted (offered : List Tree) (answers : List (Except ForestError Unit)) : List Tree :=
  ((offered.zip answers).filter fun (_, answer) => answer.isOk).map Prod.fst

variable {forest : Forest} {tree : Tree}

theorem offer_of_fits (fits : tree.Fits forest.featureCount) :
    ∃ larger, forest.offer tree = (.ok (), larger) ∧ forest.Grows [tree] larger := by
  rcases push_of_fits fits with ⟨larger, pushed, grows⟩
  refine ⟨larger, ?_, grows⟩
  rw [offer, pushed]

theorem offer_of_misfit {split : Split} {level : Nat}
    (misfit : tree.firstMisfit? forest.featureCount = some (split, level)) :
    forest.offer tree = (.error ⟨forest.trees.size,
      .featureOutOfRange level split.feature forest.featureCount⟩, forest) := by
  rw [offer, push_of_misfit misfit]

/-- A tree enters the forest, or the forest stays as it was. -/
theorem offer_cases (forest : Forest) (tree : Tree) :
    (tree.Fits forest.featureCount ∧
        ∃ larger, forest.offer tree = (.ok (), larger) ∧ forest.Grows [tree] larger) ∨
      ∃ split level, tree.firstMisfit? forest.featureCount = some (split, level) ∧
        forest.offer tree = (.error ⟨forest.trees.size,
          .featureOutOfRange level split.feature forest.featureCount⟩, forest) := by
  cases misfit : tree.firstMisfit? forest.featureCount with
  | none =>
      have fits := (tree.first_misfit?_eq_none_iff forest.featureCount).mp misfit
      exact .inl ⟨fits, offer_of_fits fits⟩
  | some found => exact .inr ⟨found.1, found.2, rfl, offer_of_misfit misfit⟩

theorem offer_all_length (forest : Forest) (offered : List Tree) :
    (forest.offerAll offered).1.length = offered.length := by
  induction offered generalizing forest with
  | nil => rfl
  | cons tree others induction => rw [offerAll, List.length_cons, induction, List.length_cons]

theorem offer_all_append (forest : Forest) (offered : List Tree) (tree : Tree) :
    forest.offerAll (offered ++ [tree]) =
      ((forest.offerAll offered).1 ++ [((forest.offerAll offered).2.offer tree).1],
        ((forest.offerAll offered).2.offer tree).2) := by
  induction offered generalizing forest with
  | nil => rfl
  | cons first others induction => simp only [List.cons_append, offerAll, induction]

/-- The trees that a forest takes up are those whose answer is no refusal. -/
theorem offer_all_grows (forest : Forest) (offered : List Tree) :
    forest.Grows (accepted offered (forest.offerAll offered).1) (forest.offerAll offered).2 := by
  induction offered generalizing forest with
  | nil => exact grows_nil_iff.mpr rfl
  | cons tree others induction =>
      rcases offer_cases forest tree with ⟨-, larger, answered, grows⟩ | ⟨split, level, -, refused⟩
      · rw [offerAll, answered]
        exact grows.cons_iff.mpr (induction larger)
      · rw [offerAll, refused]
        exact induction forest

/-- A tree is refused for the first of its splits that tests an undeclared feature. -/
theorem offer_eq_error_iff {error : ForestError} :
    (forest.offer tree).1 = .error error ↔
      ∃ before split behind, tree.splits = before ++ split :: behind ∧
        (∀ earlier ∈ before, earlier.feature.toNat < forest.featureCount) ∧
        forest.featureCount ≤ split.feature.toNat ∧
        error = ⟨forest.trees.size,
          .featureOutOfRange before.length split.feature forest.featureCount⟩ := by
  constructor
  · intro refused
    rcases offer_cases forest tree with ⟨-, larger, answered, -⟩ | ⟨split, level, misfit, answered⟩
    · rw [answered] at refused
      cases refused
    · rcases Tree.first_misfit?_eq_some_iff.mp misfit with
        ⟨before, first, behind, splits, declared, undeclared, rfl, rfl⟩
      rw [answered] at refused
      cases refused
      exact ⟨before, first, behind, splits, declared, undeclared, rfl⟩
  · intro undeclaredFirst
    rcases undeclaredFirst with ⟨before, split, behind, splits, declared, undeclared, rfl⟩
    have misfit : tree.firstMisfit? forest.featureCount = some (split, before.length) :=
      Tree.first_misfit?_eq_some_iff.mpr
        ⟨before, split, behind, splits, declared, undeclared, rfl, rfl⟩
    rw [offer_of_misfit misfit]

theorem exists_offer_error_iff :
    (∃ error, (forest.offer tree).1 = .error error) ↔
      ∃ split ∈ tree.splits, forest.featureCount ≤ split.feature.toNat := by
  constructor
  · intro refused
    rcases refused with ⟨error, refused⟩
    rcases offer_eq_error_iff.mp refused with ⟨before, split, behind, splits, -, undeclared, -⟩
    refine ⟨split, ?_, undeclared⟩
    rw [splits]
    exact List.mem_append_right before List.mem_cons_self
  · intro undeclared
    rcases undeclared with ⟨split, tested, undeclared⟩
    rcases offer_cases forest tree with ⟨fits, -⟩ | ⟨first, level, -, answered⟩
    · exact absurd (fits split tested) (Nat.not_lt.mpr undeclared)
    · exact ⟨_, congrArg Prod.fst answered⟩

theorem offer_of_error {error : ForestError} (refused : (forest.offer tree).1 = .error error) :
    (forest.offer tree).2 = forest := by
  rcases offer_cases forest tree with ⟨-, larger, answered, -⟩ | ⟨split, level, -, answered⟩
  · rw [answered] at refused
    cases refused
  · rw [answered]

theorem raw_score?_of_long {row : Row} (long : forest.featureCount ≤ row.size) :
    ∃ values, forest.trees.toList.mapM (fun tree => tree.predict? row) = some values ∧
      forest.rawScore? row = some (values.foldl (fun sum value => sum + value) (-0.0)) := by
  have covers : ∀ tree ∈ forest.trees.toList, row.Covers tree.splits :=
    fun tree held => Tree.covers_of_fits (forest.fits tree (Array.mem_toList_iff.mp held)) long
  exact ⟨_, map_m_predict?_eq_some covers, raw_score?_eq_some covers⟩

end Forest

open Forest

/-- Whatever trees are offered to an empty forest, it then holds the accepted ones
in order, keeps its features and its transform, and passes its own check. The next
tree is refused exactly if one of its splits tests an undeclared feature; the first
such split is told, and the forest stays as it was. A row with the declared features
leads every tree to one of its own leaves. -/
theorem forest_valid_after_offers (featureCount : Nat) (scale bias : Float)
    (offered : List Tree) :
    let start := (Forest.empty featureCount).withTransform scale bias
    let answers := (start.offerAll offered).1
    let forest := (start.offerAll offered).2
    (answers.length = offered.length ∧
      forest.trees.toList = accepted offered answers ∧
      forest.featureCount = featureCount ∧ forest.scale = scale ∧ forest.bias = bias ∧
      forest.check = .ok ()) ∧
    (∀ tree,
      start.offerAll (offered ++ [tree]) =
        (answers ++ [(forest.offer tree).1], (forest.offer tree).2) ∧
      ((∃ error, (forest.offer tree).1 = .error error) ↔
        ∃ split ∈ tree.splits, featureCount ≤ split.feature.toNat) ∧
      ∀ error, (forest.offer tree).1 = .error error →
        (forest.offer tree).2 = forest ∧
        ∃ before split behind, tree.splits = before ++ split :: behind ∧
          (∀ earlier ∈ before, earlier.feature.toNat < featureCount) ∧
          featureCount ≤ split.feature.toNat ∧
          error = ⟨(accepted offered answers).length,
            .featureOutOfRange before.length split.feature featureCount⟩) ∧
    ∀ row : Row, featureCount ≤ row.size →
      (∀ tree ∈ forest.trees.toList, tree.ReadsInside row) ∧
      ∃ values, forest.trees.toList.mapM (fun tree => tree.predict? row) = some values ∧
        forest.rawScore? row = some (values.foldl (fun sum value => sum + value) (-0.0)) := by
  intro start answers forest
  have grows : start.Grows (accepted offered answers) forest := start.offer_all_grows offered
  have features : forest.featureCount = featureCount := grows.featureCount
  have held : forest.trees.toList = accepted offered answers := grows.trees
  have count : forest.trees.size = (accepted offered answers).length := by
    rw [← Array.length_toList, held]
  refine ⟨⟨start.offer_all_length offered, held, features, grows.scale, grows.bias,
    forest.check_eq_ok⟩, ?_, ?_⟩
  · intro tree
    refine ⟨start.offer_all_append offered tree, ?_, ?_⟩
    · rw [exists_offer_error_iff, features]
    · intro error refused
      refine ⟨offer_of_error refused, ?_⟩
      rw [offer_eq_error_iff, features, count] at refused
      exact refused
  · intro row long
    rw [← features] at long
    constructor
    · intro tree member
      exact Tree.reads_inside_of_fits (forest.fits tree (Array.mem_toList_iff.mp member)) long
    · exact raw_score?_of_long long

/-- Between a stump and a leaf a tree on an undeclared feature is refused. -/
theorem forest_valid_after_offers_stumps :
    let stump : Tree := ⟨[⟨0, ⟨0x3F000000⟩⟩], #[0.5, -0.5], by decide, rfl⟩
    let wide : Tree := ⟨[⟨0, ⟨0x3F000000⟩⟩, ⟨3, ⟨0⟩⟩], #[1.0, 2.0, 3.0, 4.0], by decide, rfl⟩
    let leaf : Tree := ⟨[], #[2.0], by decide, rfl⟩
    let row : Row := #[0.75]
    let start := (Forest.empty 1).withTransform 2.0 0.25
    let forest := (start.offerAll [stump, wide, leaf]).2
    1 ≤ row.size ∧ forest.trees.toList = [stump, leaf] ∧ forest.check = .ok () ∧
      (∃ error, (forest.offer wide).1 = .error error ∧ (forest.offer wide).2 = forest) ∧
      stump.ReadsInside row ∧ ∃ score, forest.rawScore? row = some score := by
  intro stump wide leaf row start forest
  have long : 1 ≤ row.size := by decide
  rcases forest_valid_after_offers 1 2.0 0.25 [stump, wide, leaf] with
    ⟨⟨-, held, -, -, -, checked⟩, offers, rows⟩
  rcases offers wide with ⟨-, refused, told⟩
  rcases rows row long with ⟨reads, values, -, scored⟩
  have trees : forest.trees.toList = [stump, leaf] := held.trans rfl
  rcases refused.mpr ⟨⟨3, ⟨0⟩⟩, by simp [wide], by decide⟩ with ⟨error, answered⟩
  refine ⟨long, trees, checked, ⟨error, answered, (told error answered).1⟩, reads stump ?_,
    _, scored⟩
  rw [trees]
  exact List.mem_cons_self

end SymmetricTrees
