/-
# Structural similarity as a metric

An index has a Gaussian window and two stabilizers. It gives the similarity of two
batches at every window, and its mean. `AnyStatistics` holds the statistics of batches
whose element type is found at run time.

Key definitions: `statisticsOf`, `SimilarityIndex`, `SimilarityIndex.map`,
`SimilarityIndex.mean`, `similarityOf`, `similarityReport`.
-/
import SteeredConv.Options.Similarity
import SteeredConv.Similarity

namespace SteeredConv

section Typed

variable {β γ ω : Type} [Zero β] [Add β] [Sub β] [Mul β] [Stored β ω] [Directed β γ] [Scalar γ]

/-- The averages and factors of two batches, for stabilizers that are values of options. -/
def statisticsOf (s : Smoother ω) (c1 c2 : Value) (a b : Tensor β) :
    Except Fault (WindowAverages β × SimilarityFactors γ) := do
  let w ← windowAverages s a b
  let c1 ← c1.measureIn γ
  let c2 ← c2.measureIn γ
  return (w, w.factors c1 c2)

end Typed

/-- A metric with its window and the options that hold its stabilizers. -/
structure SimilarityIndex (ω : Type) where
  options : SimilarityOptions
  smoother : Smoother ω

namespace SimilarityIndex

/-- Builds an index from options. -/
def create {ω : Type} [Scalar ω] (options : SimilarityOptions) (globals : GlobalOptions) :
    Action Fault (SimilarityIndex ω) := do
  let _ ← options.resolve
  let gaussian ← options.gaussian
  return ⟨options, ← Smoother.create gaussian globals⟩

section Typed

variable {β γ ω : Type} [Zero β] [Add β] [Sub β] [Mul β] [Stored β ω] [Directed β γ] [Scalar γ]
  (x : SimilarityIndex ω)

/-- The similarity of two batches at every window. -/
def map (a b : Tensor β) : Except Fault (Tensor γ) := do
  let (_, factors) ← statisticsOf x.smoother x.options.c1 x.options.c2 a b
  return SimilarityFactors.map factors

/-- The mean similarity of two batches. -/
def mean (a b : Tensor β) : Except Fault γ := do return (← x.map a b).mean

end Typed

/-- The similarity of two batches at every window, and its mean; batches of different types meet in
the wider one. -/
def mapAny (x : SimilarityIndex Float) (a b : AnyTensor) : Except Fault (AnyTensor × Float) :=
  match AnyTensor.joinType a.elementType b.elementType with
  | .float64 => do
    let t ← x.map a.toFloat64 b.toFloat64
    return (.float64 t, t.mean)
  | .float32 => do
    let t ← x.map a.toFloat32 b.toFloat32
    return (.float32 t, t.mean.toFloat)
  | .int64 => do
    let t ← x.map a.toInt64 b.toInt64
    return (.float32 t, t.mean.toFloat)
  | .uint8 => do
    let t ← x.map a.toUInt8 b.toUInt8
    return (.float32 t, t.mean.toFloat)

end SimilarityIndex

/-- What a metric answers. -/
inductive MetricResult where
  | number (x : Float)
  | array (a : AnyArray)

/-- The similarity of two operands under given options: its mean, or the map. -/
def similarityOf (options : SimilarityOptions) (wholeMap : Bool) (format : Value)
    (truth estimate : Operand) : Action Fault MetricResult := do
  let x ← SimilarityIndex.create options { outputFormat := .value format }
  let a ← liftM (x.smoother.operator.ensure "u_truth" .null truth)
  let b ← liftM (x.smoother.operator.ensure "u_estim" .null estimate)
  let (map, mean) ← liftM (x.mapAny a b)
  if wholeMap then return .array (← liftM (x.smoother.operator.deliver .null ⟨.tensor, map⟩))
  else return .number mean

/-- Averages and factors whose element types are found at run time. -/
structure AnyStatistics where
  meanA : AnyTensor
  meanB : AnyTensor
  varianceA : AnyTensor
  varianceB : AnyTensor
  covariance : AnyTensor
  lumNum : AnyTensor
  lumDen : AnyTensor
  csNum : AnyTensor
  csDen : AnyTensor
  luminance : AnyTensor
  contrastStructure : AnyTensor
  map : AnyTensor
  mean : Float

/-- Statistics of one element type among those of any. -/
def AnyStatistics.pack {β γ : Type} [Scalar γ] [Stored γ Float] (packAverage : Tensor β → AnyTensor)
    (packFactor : Tensor γ → AnyTensor) (w : WindowAverages β) (f : SimilarityFactors γ) :
    AnyStatistics :=
  { meanA := packAverage w.meanA, meanB := packAverage w.meanB
    varianceA := packAverage w.varianceA, varianceB := packAverage w.varianceB
    covariance := packAverage w.covariance
    lumNum := packFactor f.lumNum, lumDen := packFactor f.lumDen
    csNum := packFactor f.csNum, csDen := packFactor f.csDen
    luminance := packFactor f.luminance, contrastStructure := packFactor f.contrastStructure
    map := packFactor f.map, mean := Stored.widen f.map.mean }

/-- The statistics of two batches; batches of different types meet in the wider one. -/
def statisticsAny (s : Smoother Float) (c1 c2 : Value) (a b : AnyTensor) :
    Except Fault AnyStatistics :=
  match AnyTensor.joinType a.elementType b.elementType with
  | .float64 => do
    let (w, f) ← statisticsOf s c1 c2 a.toFloat64 b.toFloat64
    return .pack .float64 .float64 w f
  | .float32 => do
    let (w, f) ← statisticsOf s c1 c2 a.toFloat32 b.toFloat32
    return .pack .float32 .float32 w f
  | .int64 => do
    let (w, f) ← statisticsOf s c1 c2 a.toInt64 b.toInt64
    return .pack .int64 .float32 w f
  | .uint8 => do
    let (w, f) ← statisticsOf s c1 c2 a.toUInt8 b.toUInt8
    return .pack .uint8 .float32 w f

/-- The statistics of two operands under the options of a window. -/
def similarityReport (gaussian : GaussianOptions) (options : GlobalOptions) (c1 c2 : Value)
    (a b : Operand) : Action Fault AnyStatistics := do
  let s : Smoother Float ← Smoother.create gaussian options
  match a, b with
  | .array a, .array b =>
    if a.data.shape ≠ b.data.shape then
      throw (.shape (.unequal "ssim_components" a.data.shape b.data.shape))
    let first ← liftM (Smoother.tensorOf s.fits (.array a))
    let second ← liftM (Smoother.tensorOf s.fits (.array b))
    liftM (s.fits first.shape)
    liftM (statisticsAny s c1 c2 first second)
  | .other v, _ | _, .other v => throw (.lacks v "shape")

end SteeredConv
