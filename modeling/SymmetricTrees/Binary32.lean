/-!
Single-precision numbers kept as bit patterns. Thresholds travel through byte
streams, so two NaN patterns must stay apart there; comparisons read the value.
-/

namespace SymmetricTrees

/-- A single-precision number as its 32 bits, payload of a NaN included. -/
structure Binary32 where
  bits : UInt32
deriving DecidableEq, Inhabited

namespace Binary32

def value (number : Binary32) : Float32 := Float32.ofBits number.bits

def ofFloat32 (number : Float32) : Binary32 := ⟨number.toBits⟩

/-- Rounds a double to the nearest single; large magnitudes become infinite. -/
def ofFloat (number : Float) : Binary32 := ofFloat32 number.toFloat32

end Binary32

end SymmetricTrees
