import SymmetricTrees.Quad

/-!
Lane-wise operations on four 32-bit words and four single-precision values.
The two backends differ in how they keep a bit where a comparison holds: one
masks the bits with the comparisons of a vector unit, the other chooses per
lane. A vector unit is a parameter with laws of its own. Main statements:
either backend works lane by lane, whatever a lane-wise vector unit is used.
-/

set_option autoImplicit false

namespace SymmetricTrees

inductive LaneBackend where
  /-- Compares into a mask and intersects it with the bits. -/
  | simd
  /-- Chooses lane by lane. -/
  | scalar
deriving DecidableEq

def pickGreater (value threshold : Float32) (bits : UInt32) : UInt32 :=
  if threshold < value then bits else 0

namespace Quad

def or (left right : Quad UInt32) : Quad UInt32 := left.map₂ (· ||| ·) right

def and (left right : Quad UInt32) : Quad UInt32 := left.map₂ (· &&& ·) right

def shiftLeft (quad : Quad UInt32) (amount : UInt32) : Quad UInt32 := quad.map (· <<< amount)

def sum (quad : Quad UInt32) : UInt32 :=
  quad.lane0 + quad.lane1 + quad.lane2 + quad.lane3

/-- All bits where the value exceeds the threshold, no bit elsewhere. -/
def greaterMask (values thresholds : Quad Float32) : Quad UInt32 :=
  values.map₂ (fun value threshold => if threshold < value then 0xFFFFFFFF else 0) thresholds

def pickGreater (values thresholds : Quad Float32) (bits : Quad UInt32) : Quad UInt32 :=
  ⟨SymmetricTrees.pickGreater values.lane0 thresholds.lane0 bits.lane0,
    SymmetricTrees.pickGreater values.lane1 thresholds.lane1 bits.lane1,
    SymmetricTrees.pickGreater values.lane2 thresholds.lane2 bits.lane2,
    SymmetricTrees.pickGreater values.lane3 thresholds.lane3 bits.lane3⟩

end Quad

/-- What a vector unit offers on registers of four lanes. -/
structure VectorUnit where
  Floats : Type
  Words : Type
  ofFloats : Quad Float32 → Floats
  ofWords : Quad UInt32 → Words
  splat : UInt32 → Words
  /-- Compares lanes, the outcome being a mask of words. -/
  greater : Floats → Floats → Words
  and : Words → Words → Words
  or : Words → Words → Words
  shiftLeft : Words → UInt32 → Words
  toWords : Words → Quad UInt32

namespace VectorUnit

/-- Every operation acts on each lane alone. A comparison gives all bits in the
lanes where it holds and none elsewhere. -/
structure LaneWise (unit : VectorUnit) : Prop where
  toWords_ofWords : ∀ words, unit.toWords (unit.ofWords words) = words
  toWords_splat : ∀ word, unit.toWords (unit.splat word) = Quad.splat word
  toWords_greater : ∀ values thresholds,
    unit.toWords (unit.greater (unit.ofFloats values) (unit.ofFloats thresholds)) =
      Quad.greaterMask values thresholds
  toWords_and : ∀ left right,
    unit.toWords (unit.and left right) = (unit.toWords left).and (unit.toWords right)
  toWords_or : ∀ left right,
    unit.toWords (unit.or left right) = (unit.toWords left).or (unit.toWords right)
  toWords_shiftLeft : ∀ words (amount : UInt32), amount < 32 →
    unit.toWords (unit.shiftLeft words amount) = (unit.toWords words).shiftLeft amount

def quads : VectorUnit where
  Floats := Quad Float32
  Words := Quad UInt32
  ofFloats := id
  ofWords := id
  splat := Quad.splat
  greater := Quad.greaterMask
  and := Quad.and
  or := Quad.or
  shiftLeft := Quad.shiftLeft
  toWords := id

theorem quads_lane_wise : quads.LaneWise where
  toWords_ofWords _ := rfl
  toWords_splat _ := rfl
  toWords_greater _ _ := rfl
  toWords_and _ _ := rfl
  toWords_or _ _ := rfl
  toWords_shiftLeft _ _ _ := rfl

end VectorUnit

/-- The operations that scoring needs, on whatever keeps four values. -/
structure LaneOps where
  Floats : Type
  Words : Type
  load : Quad Float32 → Floats
  ofQuad : Quad UInt32 → Words
  splat : UInt32 → Words
  selectGreater : Floats → Floats → Words → Words
  or : Words → Words → Words
  shiftLeft : Words → UInt32 → Words
  toQuad : Words → Quad UInt32

namespace LaneOps

def zero (ops : LaneOps) : ops.Words := ops.splat 0

def sum (ops : LaneOps) (words : ops.Words) : UInt32 := (ops.toQuad words).sum

/-- Each operation does to the four lanes what it does to one. -/
structure LaneWise (ops : LaneOps) : Prop where
  toQuad_ofQuad : ∀ words, ops.toQuad (ops.ofQuad words) = words
  toQuad_splat : ∀ word, ops.toQuad (ops.splat word) = Quad.splat word
  toQuad_selectGreater : ∀ values thresholds bits,
    ops.toQuad (ops.selectGreater (ops.load values) (ops.load thresholds) bits) =
      Quad.pickGreater values thresholds (ops.toQuad bits)
  toQuad_or : ∀ left right,
    ops.toQuad (ops.or left right) = (ops.toQuad left).or (ops.toQuad right)
  toQuad_shiftLeft : ∀ words (amount : UInt32), amount < 32 →
    ops.toQuad (ops.shiftLeft words amount) = (ops.toQuad words).shiftLeft amount

def portable : LaneOps where
  Floats := Quad Float32
  Words := Quad UInt32
  load := id
  ofQuad := id
  splat := Quad.splat
  selectGreater := Quad.pickGreater
  or := Quad.or
  shiftLeft := Quad.shiftLeft
  toQuad := id

def ofUnit (unit : VectorUnit) : LaneOps where
  Floats := unit.Floats
  Words := unit.Words
  load := unit.ofFloats
  ofQuad := unit.ofWords
  splat := unit.splat
  selectGreater values thresholds bits := unit.and (unit.greater values thresholds) bits
  or := unit.or
  shiftLeft := unit.shiftLeft
  toQuad := unit.toWords

theorem mask_and_eq_pick_greater (value threshold : Float32) (bits : UInt32) :
    (if threshold < value then (0xFFFFFFFF : UInt32) else 0) &&& bits =
      pickGreater value threshold bits := by
  unfold pickGreater
  split
  · exact UInt32.neg_one_and
  · exact UInt32.zero_and

theorem greater_mask_and (values thresholds : Quad Float32) (bits : Quad UInt32) :
    (Quad.greaterMask values thresholds).and bits = Quad.pickGreater values thresholds bits := by
  simp only [Quad.greaterMask, Quad.and, Quad.map₂, Quad.pickGreater, mask_and_eq_pick_greater]

theorem portable_lane_wise : portable.LaneWise where
  toQuad_ofQuad _ := rfl
  toQuad_splat _ := rfl
  toQuad_selectGreater _ _ _ := rfl
  toQuad_or _ _ := rfl
  toQuad_shiftLeft _ _ _ := rfl

theorem of_unit_lane_wise {unit : VectorUnit} (laneWise : unit.LaneWise) :
    (ofUnit unit).LaneWise where
  toQuad_ofQuad := laneWise.toWords_ofWords
  toQuad_splat := laneWise.toWords_splat
  toQuad_selectGreater values thresholds bits := by
    rw [← greater_mask_and, ← laneWise.toWords_greater]
    exact laneWise.toWords_and _ _
  toQuad_or := laneWise.toWords_or
  toQuad_shiftLeft := laneWise.toWords_shiftLeft

end LaneOps

namespace LaneBackend

def opsOn (backend : LaneBackend) (unit : VectorUnit) : LaneOps :=
  match backend with
  | .simd => .ofUnit unit
  | .scalar => .portable

def ops (backend : LaneBackend) : LaneOps := backend.opsOn .quads

theorem ops_on_lane_wise (backend : LaneBackend) {unit : VectorUnit} (laneWise : unit.LaneWise) :
    (backend.opsOn unit).LaneWise := by
  cases backend with
  | simd => exact LaneOps.of_unit_lane_wise laneWise
  | scalar => exact LaneOps.portable_lane_wise

def selectGreater (backend : LaneBackend) (values thresholds : Quad Float32)
    (bits : Quad UInt32) : Quad UInt32 :=
  let ops := backend.ops
  ops.toQuad (ops.selectGreater (ops.load values) (ops.load thresholds) (ops.ofQuad bits))

end LaneBackend

end SymmetricTrees
