/-
# Sliding-window geometry

A resolved geometry has a nonempty window and positive strides on both axes; that is
part of the type. The number of window positions along an axis is
`(size + 2 * pad - kernel) / stride + 1`, rounded down.

Key definitions: `Geometry`, `Geometry.ofPairs`, `positions`, `Geometry.outputSize`.
Key statements: `positions_eq`.
-/
import SteeredConv.Options.Gaussian

namespace SteeredConv

/-- Window, stride and padding of a sliding-window layer, per axis. -/
structure Geometry where
  kernel : Nat × Nat
  stride : Nat × Nat
  pad : Nat × Nat
  kernel_pos : 0 < kernel.1 ∧ 0 < kernel.2
  stride_pos : 0 < stride.1 ∧ 0 < stride.2
  deriving DecidableEq

/-- The number of positions of a window along an axis; not positive if it does not fit. -/
def positions (size : Int) (kernel stride pad : Nat) : Int :=
  Int.fdiv (size + 2 * pad - kernel) stride + 1

/-- If the window fits, the positions are those that a quotient of naturals counts. -/
theorem positions_eq {size kernel stride pad : Nat} (h : kernel ≤ size + 2 * pad) :
    positions size kernel stride pad = ((size + 2 * pad - kernel) / stride + 1 : Nat) := by
  unfold positions
  have : (size : Int) + 2 * pad - kernel = ((size + 2 * pad - kernel : Nat) : Int) := by omega
  rw [this, Int.fdiv_eq_ediv_of_nonneg _ (Int.natCast_nonneg _)]
  simp

namespace Geometry

/-- Checks the sizes of a geometry, kernel first. -/
def ofPairs (owner : OptionSet) (kernel stride pad : Int × Int) : Except Fault Geometry :=
  if hk : 0 < kernel.1 ∧ 0 < kernel.2 then
    if hs : 0 < stride.1 ∧ 0 < stride.2 then
      if 0 ≤ pad.1 ∧ 0 ≤ pad.2 then
        .ok
          { kernel := (kernel.1.toNat, kernel.2.toNat)
            stride := (stride.1.toNat, stride.2.toNat)
            pad := (pad.1.toNat, pad.2.toNat)
            kernel_pos := by dsimp only; omega
            stride_pos := by dsimp only; omega }
      else .error (.option (.padNegative owner pad))
    else .error (.option (.strideNotPositive owner stride))
  else .error (.option (.kernelNotPositive owner kernel))

/-- A pair of naturals as whole numbers. -/
def ints (p : Nat × Nat) : Int × Int := (p.1, p.2)

/-- The spatial size of the result for an input of the given size. -/
def outputSize (g : Geometry) (height width : Int) : Int × Int :=
  (positions height g.kernel.1 g.stride.1 g.pad.1, positions width g.kernel.2 g.stride.2 g.pad.2)

/-- The Gaussian window with this footprint, stride and padding. -/
def gaussian (g : Geometry) (sigma : Value) : GaussianOptions :=
  { kernelH := .int g.kernel.1, kernelW := .int g.kernel.2
    strideH := .int g.stride.1, strideW := .int g.stride.2
    padH := .int g.pad.1, padW := .int g.pad.2
    sigma := sigma }

end Geometry

/-- The number of positions of a window along an axis, all sizes being values of options. -/
def positionsOf (size kernel stride pad : Value) : Except Fault Value :=
  match size.number?, kernel.number?, stride.number?, pad.number? with
  | some size, some kernel, some stride, some pad => do
    let twice ← (Number.whole 2).combine (· * ·) (· * ·) pad
    let padded ← size.combine (· + ·) (· + ·) twice
    let room ← padded.combine (· - ·) (· - ·) kernel
    let steps ← room.floorDiv stride
    return (← steps.combine (· + ·) (· + ·) (.whole 1)).toValue
  | _, _, _, _ => .error (.operands "+" size (.int 0))

/-- The spatial size of the result for an input whose size is given by values of options. -/
def Geometry.outputSizeOf (g : Geometry) (height width : Value) : Except Fault (Value × Value) := do
  let h ← positionsOf height (.int g.kernel.1) (.int g.stride.1) (.int g.pad.1)
  let w ← positionsOf width (.int g.kernel.2) (.int g.stride.2) (.int g.pad.2)
  return (h, w)

end SteeredConv
