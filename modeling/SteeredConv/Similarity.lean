/-
# Structural similarity

The similarity of two batches at a window is a luminance factor times a
contrast-structure factor, both built from Gaussian averages of the batches and of
their products. The loss of a `SimilarityPass` is one minus the mean of the similarity, and
`SimilarityPass.gradientIn` is its gradient in one of the batches.

Key definitions: `WindowAverages`, `SimilarityFactors`, `similarityMap`,
`similarityPass`, `SimilarityPass.gradientIn`.
-/
import SteeredConv.Orientation

namespace SteeredConv

/-- The local means, variances and covariance of two batches. -/
structure WindowAverages (β : Type) where
  meanA : Tensor β
  meanB : Tensor β
  varianceA : Tensor β
  varianceB : Tensor β
  covariance : Tensor β

/-- Numerators and denominators of the two factors of the similarity. -/
structure SimilarityFactors (γ : Type) where
  lumNum : Tensor γ
  lumDen : Tensor γ
  csNum : Tensor γ
  csDen : Tensor γ

section Averages

variable {β ω : Type} [Zero β] [Add β] [Sub β] [Mul β] [Stored β ω]

/-- The product of two batches, entry by entry. -/
def products (a b : Tensor β) : Tensor β := Tensor.zipWith (· * ·) a b

/-- The average of a product less the product of the averages. -/
def centred (average first second : Tensor β) : Tensor β :=
  Tensor.zipWith (· - ·) average (products first second)

/-- The averages of two batches of one shape over every window. -/
def windowAverages (s : Smoother ω) (a b : Tensor β) : Except Fault (WindowAverages β) := do
  if a.shape ≠ b.shape then throw (.shape (.unequal "ssim_components" a.shape b.shape))
  let meanA ← s.smooth a
  let meanB ← s.smooth b
  let squareA ← s.smooth (products a a)
  let squareB ← s.smooth (products b b)
  let cross ← s.smooth (products a b)
  return ⟨meanA, meanB, centred squareA meanA meanA, centred squareB meanB meanB,
    centred cross meanA meanB⟩

end Averages

section Factors

variable {β γ : Type} [Zero β] [Add β] [Mul β] [Directed β γ] [Scalar γ]

/-- The factors of the similarity with stabilizers `c1` and `c2`. -/
def WindowAverages.factors (w : WindowAverages β) (c1 c2 : γ) : SimilarityFactors γ :=
  let real (x : β) : γ := Directed.coordinate x
  { lumNum := Tensor.zipWith (fun x y => two * real x * real y + c1) w.meanA w.meanB
    lumDen := Tensor.zipWith (fun x y => real (x * x + y * y) + c1) w.meanA w.meanB
    csNum := w.covariance.map fun x => two * real x + c2
    csDen := Tensor.zipWith (fun x y => real (x + y) + c2) w.varianceA w.varianceB }

namespace SimilarityFactors

variable (f : SimilarityFactors γ)

/-- The luminance factor. -/
def luminance : Tensor γ := Tensor.zipWith (· / ·) f.lumNum f.lumDen

def contrastStructure : Tensor γ := Tensor.zipWith (· / ·) f.csNum f.csDen

/-- The similarity at every window. -/
def map : Tensor γ := Tensor.zipWith (· * ·) f.luminance f.contrastStructure

end SimilarityFactors

end Factors

section Loss

variable {α ω : Type} [Scalar α] [Stored α ω] [Directed α α]

/-- What the gradients of a loss need. -/
structure SimilarityPass (α ω : Type) where
  smoother : Smoother ω
  first : Tensor α
  second : Tensor α
  averages : WindowAverages α
  factors : SimilarityFactors α

/-- The similarity of two batches at every window. -/
def similarityMap (s : Smoother ω) (c1 c2 : α) (a b : Tensor α) : Except Fault (Tensor α) := do
  return ((← windowAverages s a b).factors c1 c2).map

/-- The averages and factors of two batches. -/
def similarityPass (s : Smoother ω) (c1 c2 : α) (a b : Tensor α) :
    Except Fault (SimilarityPass α ω) := do
  let averages ← windowAverages s a b
  return ⟨s, a, b, averages, averages.factors c1 c2⟩

namespace SimilarityPass

variable (p : SimilarityPass α ω)

/-- One minus the mean of the similarity. -/
def loss : α := 1 - p.factors.map.mean

/-- The derivative of the loss in the similarity at each window, for a gradient in the loss. -/
def perWindow (cotangent : α) : α := -cotangent / ((p.factors.lumNum.size : Nat) : α)

/-- The derivative of the loss in the average of either square. -/
def inSquare (cotangent : α) : Tensor α :=
  let g := p.perWindow cotangent
  let luminance := p.factors.luminance
  Tensor.ofFlat p.factors.lumNum.shape fun i =>
    let den := p.factors.csDen.flat i
    g * (-(luminance.flat i) * p.factors.csNum.flat i / (den * den))

/-- The derivative of the loss in the average of the product. -/
def inCross (cotangent : α) : Tensor α :=
  let g := p.perWindow cotangent
  let luminance := p.factors.luminance
  Tensor.ofFlat p.factors.lumNum.shape fun i =>
    g * (two * luminance.flat i / p.factors.csDen.flat i)

/-- The derivative of the loss in the mean of one batch; `own` is that mean and `other` the mean of
the other batch. -/
def inMean (own other : Tensor α) (cotangent : α) : Tensor α :=
  let g := p.perWindow cotangent
  let f := p.factors
  let luminance := f.luminance
  let contrast := f.contrastStructure
  Tensor.ofFlat f.lumNum.shape fun i =>
    let x := own.flat i
    let y := other.flat i
    let lumDen := f.lumDen.flat i
    let csDen := f.csDen.flat i
    let dLum := (two * y * lumDen - f.lumNum.flat i * two * x) / (lumDen * lumDen)
    let dCs := (-two * y * csDen + two * x * f.csNum.flat i) / (csDen * csDen)
    g * (dLum * contrast.flat i + luminance.flat i * dCs)

/-- The gradient of the loss in one batch, from its own pixels and mean and those of the other. -/
def gradientIn (own other ownMean otherMean : Tensor α) (cotangent : α) :
    Except Fault (Tensor α) := do
  let back (t : Tensor α) : Except Fault (Tensor α) := p.smoother.adjoint own.shape t
  let square ← back (p.inSquare cotangent)
  let cross ← back (p.inCross cotangent)
  let mean ← back (p.inMean ownMean otherMean cotangent)
  return Tensor.ofFlat own.shape fun i =>
    mean.flat i + two * own.flat i * square.flat i + other.flat i * cross.flat i

/-- The gradient of the loss in the first batch. -/
def firstGradient (cotangent : α) : Except Fault (Tensor α) :=
  p.gradientIn p.first p.second p.averages.meanA p.averages.meanB cotangent

/-- The gradient of the loss in the second batch. -/
def secondGradient (cotangent : α) : Except Fault (Tensor α) :=
  p.gradientIn p.second p.first p.averages.meanB p.averages.meanA cotangent

end SimilarityPass

end Loss
end SteeredConv
