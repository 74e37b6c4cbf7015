/-
# Mean squared difference and signal-to-noise ratio

The difference of two arrays is taken in the numbers that both can be written in,
bytes wrapping around; it is brought into a range around zero, squared and averaged.
The signal-to-noise ratio is unbounded where the mean is zero.

Key definitions: `clippedMeanSquare`, `Decibels`, `signalToNoise`, `meanSquare`,
`peakSignalToNoise`.
-/
import SteeredConv.Tensor.Operand
import SteeredConv.Value.Named
import SteeredConv.Value.Number

namespace SteeredConv

section Real

variable {α : Type} [Scalar α]

/-- A number brought between `-limit` and `limit`; beside no limit there is no number. -/
def within (limit x : α) : α := if limit == limit then clamp (-limit) limit x else limit

/-- The mean of the squares of numbers brought into a range. -/
def clippedMeanSquare (limit : α) (d : Tensor α) : α :=
  (d.map fun x =>
    let y := within limit x
    y * y).mean

/-- A ratio in decibels. -/
inductive Decibels (α : Type) where
  | unbounded
  | finite (x : α)

/-- The ratio as a number. -/
def Decibels.toNumber : Decibels α → α
  | unbounded => Scalar.infinity
  | finite x => x

/-- The ratio of a peak to a mean squared difference. -/
def signalToNoise (peak meanSquare : α) : Decibels α :=
  if meanSquare == 0 then .unbounded
  else .finite (((20 : Nat) : α) * Scalar.log10 peak - ((10 : Nat) : α) * Scalar.log10 meanSquare)

end Real

/-- The range of a whole-number element type. -/
structure WordRange where
  least : Int
  greatest : Int

namespace WordRange

/-- The range of 64-bit numbers. -/
def int64 : WordRange := ⟨-Int.pow 2 63, Int.pow 2 63 - 1⟩

/-- The range of bytes. -/
def uint8 : WordRange := ⟨0, 255⟩

/-- A whole number wrapped into the range. -/
def wrap (r : WordRange) (n : Int) : Int := (n - r.least) % (r.greatest - r.least + 1) + r.least

/-- Brings numbers between `-limit` and `limit`. A bound that no number passes is dropped, and one
that is no number of the type is refused. -/
def within (r : WordRange) (limit : Int) : Except Fault (Int → Int) := do
  let lower : Option Int := if -limit ≤ r.least then none else some (-limit)
  let upper : Option Int := if r.greatest ≤ limit then none else some limit
  if lower.any (r.greatest < ·) then throw (.overflow .bound)
  if upper.any (· < r.least) then throw (.overflow .bound)
  return fun n => upper.elim id min (lower.elim id max n)

/-- The mean of the squares, which wrap, of whole numbers brought into a range. -/
def meanSquare (r : WordRange) (limit : Int) (d : List Int) : Except Fault Float := do
  let bring ← r.within limit
  let total := d.foldl (fun sum n => sum + Float.ofInt (r.wrap (bring n * bring n))) 0
  return total / Float.ofNat d.length

end WordRange

namespace AnyTensor

/-- The difference of two arrays of one shape in a given element type. -/
def difference (e : ElementType) (a b : AnyTensor) : AnyTensor :=
  match e with
  | .float64 => float64 (Tensor.zipWith (· - ·) a.toFloat64 b.toFloat64)
  | .float32 => float32 (Tensor.zipWith (· - ·) a.toFloat32 b.toFloat32)
  | .int64 => int64 (Tensor.zipWith (· - ·) a.toInt64 b.toInt64)
  | .uint8 => uint8 (Tensor.zipWith (· - ·) a.toUInt8 b.toUInt8)

/-- The element type in which plain arrays of two types meet. -/
def plainJoinType : ElementType → ElementType → ElementType
  | .float32, .int64 | .int64, .float32 => .float64
  | a, b => joinType a b

/-- The mean of squares of a tensor. Whole numbers have one only beside a limit with a fraction. -/
def meanSquareOfTensor (d : AnyTensor) : Number → Except Fault Float
  | .real limit =>
    match d with
    | float64 t => .ok (clippedMeanSquare limit t)
    | d => .ok (clippedMeanSquare limit.toFloat32 d.toFloat32).toFloat
  | .whole limit => do
    (Number.whole (-limit)).checkWord
    (Number.whole limit).checkWord
    match d with
    | float64 t => return clippedMeanSquare (Float.ofInt limit) t
    | float32 t => return (clippedMeanSquare (Float.ofInt limit).toFloat32 t).toFloat
    | int64 _ | uint8 _ => throw .unsupported

/-- The mean of squares of a plain array. -/
def meanSquareOfPlain (d : AnyTensor) : Number → Except Fault Float
  | .real limit =>
    match d with
    | float32 t => .ok (clippedMeanSquare limit.toFloat32 t).toFloat
    | d => .ok (clippedMeanSquare limit d.toFloat64)
  | .whole limit =>
    match d with
    | float64 t => .ok (clippedMeanSquare (Float.ofInt limit) t)
    | float32 t => .ok (clippedMeanSquare (Float.ofInt limit).toFloat32 t).toFloat
    | int64 t => WordRange.int64.meanSquare limit (t.entries.toList.map Int64.toInt)
    | uint8 t => WordRange.uint8.meanSquare limit (t.entries.toList.map fun n => (n.toNat : Int))

end AnyTensor

/-- The default bound of differences. -/
def defaultLimit : Value := .float 100000

/-- The mean squared difference of two arrays whose differences are brought into a range. -/
def meanSquare (truth estimate : Operand) (limit : Value) : Except Fault Float := do
  let a ← truth.asArray "shape"
  let b ← estimate.asArray "shape"
  if a.data.shape ≠ b.data.shape then throw (.shape (.unequal "MSE" a.data.shape b.data.shape))
  match limit.number? with
  | none => throw (.wrongType "")
  | some limit =>
    if a.kind = .tensor ∧ b.kind = .tensor then
      let e := AnyTensor.joinType a.data.elementType b.data.elementType
      (AnyTensor.difference e a.data b.data).meanSquareOfTensor limit
    else
      let e := AnyTensor.plainJoinType a.data.elementType b.data.elementType
      (AnyTensor.difference e a.data b.data).meanSquareOfPlain limit

/-- The signal-to-noise ratio of two arrays for a given peak. -/
def peakSignalToNoise (truth estimate : Operand) (peak limit : Value) :
    Except Fault (Decibels Float) := do
  let mean ← meanSquare truth estimate limit
  if mean == 0 then return .unbounded
  match peak.number? with
  | none => throw (.wrongType "")
  | some peak => return signalToNoise (← peak.toFloat) mean

end SteeredConv
