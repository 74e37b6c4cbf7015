/-
# Orientation of a gradient map

The two components of a gradient map are smoothed, and the angle of the smoothed
vector is taken at every window, together with its sine and cosine. A vector of zero
has the angle zero.

Key definitions: `Directed`, `Orientation`, `orientationOf`, `Estimator`.
Key statements: `shape_angles`.
-/
import SteeredConv.Gaussian.Smoother

namespace SteeredConv

/-- Entries `β` of a map whose vectors have an angle among the numbers `γ`. -/
class Directed (β : Type) (γ : outParam Type) where
  coordinate : β → γ

instance : Directed Float Float := ⟨id⟩

instance : Directed Float32 Float32 := ⟨id⟩

instance : Directed Int64 Float32 := ⟨Int64.toFloat32⟩

instance : Directed UInt8 Float32 := ⟨UInt8.toFloat32⟩

/-- The orientation of a map at every window. -/
structure Orientation (β γ : Type) where
  smoothed : Tensor β
  angle : Tensor γ
  /-- The sine of the angle, then its cosine. -/
  sinCos : Tensor γ

section Angles

variable {β γ : Type} [Zero β] [Directed β γ] [Scalar γ]

/-- The angles of the vectors of a batch, whose first channel is the horizontal component and whose
second channel is the vertical one. Without a second channel there are none. -/
def angles (smoothed : Tensor β) : Tensor γ :=
  Tensor.ofImages (smoothed.extent 0) (min 1 (smoothed.extent 1 - 1)) (smoothed.extent 2)
    (smoothed.extent 3) fun n _ i j =>
      Scalar.atan2 (Directed.coordinate (smoothed.at4 n 1 i j))
        (Directed.coordinate (smoothed.at4 n 0 i j))

/-- The sines of the angles, then their cosines. -/
def sinesAndCosines (angle : Tensor γ) : Tensor γ :=
  let count := angle.extent 1
  Tensor.ofImages (angle.extent 0) (2 * count) (angle.extent 2) (angle.extent 3) fun n c i j =>
    if c < count then Scalar.sin (angle.at4 n c i j) else Scalar.cos (angle.at4 n (c - count) i j)

def orientationOf (smoothed : Tensor β) : Orientation β γ :=
  let angle := angles smoothed
  ⟨smoothed, angle, sinesAndCosines angle⟩

theorem shape_angles {n h w : Nat} {smoothed : Tensor β} (hs : smoothed.shape = [n, 2, h, w]) :
    (angles smoothed : Tensor γ).shape = [n, 1, h, w] := by
  simp [angles, Tensor.shape_ofImages, Tensor.extent, hs]

end Angles

/-- A smoother for gradient maps with the options of its owner. -/
structure Estimator (ω : Type) where
  operator : Operator
  smoother : Smoother ω

namespace Estimator

/-- Builds an estimator from options. -/
def create {ω : Type} [Scalar ω] (o : GaussianOptions) (options : GlobalOptions) :
    Action Fault (Estimator ω) := do
  let operator ← Operator.create .orientation options
  let smoother ← Smoother.create o options
  return ⟨operator, smoother⟩

/-- The orientation of a map. -/
def estimate {ω β γ : Type} [Zero β] [Add β] [Mul β] [Stored β ω] [Directed β γ] [Scalar γ]
    (e : Estimator ω) (map : Tensor β) : Except Fault (Orientation β γ) := do
  return orientationOf (← e.smoother.smooth map)

end Estimator

/-- An orientation whose element types are found at run time. -/
structure AnyOrientation where
  smoothed : AnyTensor
  angle : AnyTensor
  sinCos : AnyTensor

namespace Estimator

variable (e : Estimator Float)

/-- The orientation of a map whose element type is found at run time. -/
def estimateAny : AnyTensor → Except Fault AnyOrientation
  | .float64 t => do
    let r ← e.estimate t
    return ⟨.float64 r.smoothed, .float64 r.angle, .float64 r.sinCos⟩
  | .float32 t => do
    let r ← e.estimate t
    return ⟨.float32 r.smoothed, .float32 r.angle, .float32 r.sinCos⟩
  | .int64 t => do
    let r ← e.estimate t
    return ⟨.int64 r.smoothed, .float32 r.angle, .float32 r.sinCos⟩
  | .uint8 t => do
    let r ← e.estimate t
    return ⟨.uint8 r.smoothed, .float32 r.angle, .float32 r.sinCos⟩

/-- The orientation of an operand, which is checked unless it is taken as it is. -/
def apply (unchecked : Bool) (x : Operand) : Except Fault AnyOrientation := do
  let t ←
    if unchecked then Smoother.tensorOf e.smoother.fits x
    else e.operator.ensure "gradient_map" (.int 2) x
  e.estimateAny t

end Estimator
end SteeredConv
