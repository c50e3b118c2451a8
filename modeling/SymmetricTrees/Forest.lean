import SymmetricTrees.Tree

/-!
Additive ensembles of symmetric trees over a declared number of features, with
an affine transform of the summed leaf values. Trees enter one at a time and
only when every feature that they test is declared.
-/

set_option autoImplicit false

namespace SymmetricTrees

structure Forest where
  featureCount : Nat
  trees : Array Tree := #[]
  scale : Float := 1.0
  bias : Float := 0.0
  fits : ∀ tree ∈ trees, tree.Fits featureCount := by simp

structure ForestError where
  tree : Nat
  cause : TreeError
deriving DecidableEq

def ForestError.message (error : ForestError) : String :=
  s!"tree {error.tree}: {error.cause.message}"

namespace Forest

/-- The forest without trees; its transform changes nothing. -/
def empty (featureCount : Nat) : Forest := { featureCount }

def withTransform (forest : Forest) (scale bias : Float) : Forest :=
  { forest with scale, bias }

/-- Adds a tree at the end, or tells the first level that tests an undeclared
feature. -/
def push (forest : Forest) (tree : Tree) : Except ForestError Forest :=
  match misfit : tree.firstMisfit? forest.featureCount with
  | some (split, level) =>
      .error ⟨forest.trees.size, .featureOutOfRange level split.feature forest.featureCount⟩
  | none =>
      .ok { forest with
        trees := forest.trees.push tree
        fits := by
          intro member held
          rcases Array.mem_push.mp held with earlier | rfl
          · exact forest.fits member earlier
          · exact (member.first_misfit?_eq_none_iff forest.featureCount).mp misfit }

def check (forest : Forest) : Except ForestError Unit :=
  forest.trees.toList.zipIdx.forM fun (tree, position) =>
    (tree.checkFeatures forest.featureCount).mapError fun cause => ⟨position, cause⟩

/-- The leaf values that a row reaches, added in tree order. The sum of no
values is negative zero, the neutral element of addition. -/
def rawScore? (forest : Forest) (row : Row) : Option Float :=
  forest.trees.toList.foldlM (fun total tree => (tree.predict? row).map (total + ·)) (-0.0)

def transform (forest : Forest) (raw : Float) : Float := forest.scale * raw + forest.bias

end Forest

end SymmetricTrees
