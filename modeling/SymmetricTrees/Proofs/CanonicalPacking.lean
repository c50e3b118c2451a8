import Mathlib.Data.List.Basic
import SymmetricTrees.Proofs.Encoding

/-!
What the encoding of a forest depends on. The trees of one depth are packed among
themselves, so their order against trees of other depths is lost, and a sort by
tested features also loses the order of trees that it tells apart. Trees in
packing order are packed as they come.
-/

set_option autoImplicit false

namespace SymmetricTrees

open BlockStream

namespace Grouping

variable {first second forest : Forest} {order other : GroupingOrder} {trees more : List Tree}

end Grouping

open Grouping

end SymmetricTrees
