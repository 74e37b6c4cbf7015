/-
# The oriented convolution of arrays whose element type is found at run time

The batch and the kernel have to hold numbers of one type; the map may hold others, and
its weights are converted to the type of the batch.

Key definitions: `orientAny`, `ConvRequest`, `ConvRequest.run`, `ConvRequest.answer`.
-/
import SteeredConv.OrientedConv.Pass

namespace SteeredConv

/-- The orientation of a map and the weights of the rotations. -/
def orientAny (e : Estimator Float) (map : AnyTensor) :
    Except Fault (AnyOrientation × AnyTensor) := do
  let orientation ← e.estimateAny map
  return (orientation, ← interpolationAny orientation.angle)

/-- A sweep of whole numbers, if the steps are positive and the zeros are not fewer than none. -/
def Sweep.ofInts? (stride pad : Int × Int) : Option Sweep :=
  if 0 < stride.1 ∧ 0 < stride.2 ∧ 0 ≤ pad.1 ∧ 0 ≤ pad.2 then
    some ⟨(stride.1.toNat, stride.2.toNat), (pad.1.toNat, pad.2.toNat)⟩
  else none

/-- A forward pass in one of the element types. -/
inductive AnyPass where
  | float64 (p : ForwardPass Float)
  | float32 (p : ForwardPass Float32)
  | wholeNumbers

/-- The arrays and settings of one oriented convolution. -/
structure ConvRequest where
  input : AnyTensor
  map : AnyTensor
  weight : AnyTensor
  bias : Option AnyTensor
  stride : Int × Int
  pad : Int × Int
  groups : Int

/-- The result of an oriented convolution. -/
structure ConvOutputs where
  output : AnyTensor
  sinCos : AnyTensor
  smoothed : AnyTensor

namespace ConvRequest

/-- The sweep and the number of groups, if they are acceptable. -/
def settings (c : ConvRequest) : Except Fault (Sweep × Nat) := do
  let s ← fitting (Sweep.ofInts? c.stride c.pad)
  if c.groups ≤ 0 then throw .incompatible
  return (s, c.groups.toNat)

/-- The output for weights of the rotations, in numbers of the batch. -/
def respond (c : ConvRequest) (weights : AnyTensor) : Except Fault (AnyTensor × AnyPass) := do
  requireSquare c.weight.shape
  let (s, groups) ← c.settings
  match c.input, c.weight with
  | .float64 x, .float64 w => do
    let weights := weights.toFloat64
    return (.float64 (← steer s groups x w (c.bias.map AnyTensor.toFloat64) weights),
      .float64 ⟨x, w, weights, s, groups⟩)
  | .float32 x, .float32 w => do
    let weights := weights.toFloat32
    return (.float32 (← steer s groups x w (c.bias.map AnyTensor.toFloat32) weights),
      .float32 ⟨x, w, weights, s, groups⟩)
  | .int64 x, .int64 w =>
    return (.int64 (← steer s groups x w (c.bias.map AnyTensor.toInt64) weights.toInt64),
      .wholeNumbers)
  | .uint8 x, .uint8 w =>
    return (.uint8 (← steer s groups x w (c.bias.map AnyTensor.toUInt8) weights.toUInt8),
      .wholeNumbers)
  | _, _ => throw .incompatible

/-- The outputs, the weights of the rotations, and the forward pass. -/
def run (c : ConvRequest) (e : Estimator Float) :
    Except Fault (ConvOutputs × AnyTensor × AnyPass) := do
  let (orientation, weights) ← orientAny e c.map
  let weights := weights.cast c.input.elementType
  let (output, pass) ← c.respond weights
  return (⟨output, orientation.sinCos, orientation.smoothed⟩, weights, pass)

end ConvRequest

/-- The gradients of a forward pass that are asked for. -/
def AnyPass.gradients (p : AnyPass) (requested : Requested) (g : AnyTensor) :
    Except Fault (Gradients Float ⊕ Gradients Float32) :=
  match p, g with
  | .float64 p, .float64 g => .inl <$> p.gradients requested g
  | .float32 p, .float32 g => .inr <$> p.gradients requested g
  | .wholeNumbers, _ => .error .unsupported
  | _, _ => .error .incompatible

/-- The gradients in the input, the kernel and the bias. -/
def gradientList : Gradients Float ⊕ Gradients Float32 → List (Option AnyTensor)
  | .inl g => [g.input, g.weight, g.bias].map fun t => t.map .float64
  | .inr g => [g.input, g.weight, g.bias].map fun t => t.map .float32

/-- Which gradients named flags ask for. -/
def Requested.ofNamed (flags : List (String × Value)) : Except Fault Requested := do
  Named.only ["input_grad", "weight_grad", "bias_grad"] flags
  let flag (name : String) : Bool := (Named.get flags name (.bool true)).isTrue
  return ⟨flag "input_grad", flag "weight_grad", flag "bias_grad"⟩

/-- The answer to a request: the outputs, the weights of the rotations, and the gradients for a
cotangent if there is one. -/
structure ConvAnswer where
  outputs : ConvOutputs
  interpolation : AnyTensor
  gradients : Option (List (Option AnyTensor))

/-- Answers a request under the options of the orientation estimate. -/
def ConvRequest.answer (c : ConvRequest) (gaussian : GaussianOptions) (options : GlobalOptions)
    (cotangent : Option (AnyTensor × List (String × Value))) : Action Fault ConvAnswer := do
  let e ← Estimator.create gaussian options
  let (outputs, weights, pass) ← liftM (c.run e)
  match cotangent with
  | none => return ⟨outputs, weights, none⟩
  | some (g, flags) =>
    let requested ← liftM (Requested.ofNamed flags)
    let gradients ← liftM (pass.gradients requested g)
    return ⟨outputs, weights, some (gradientList gradients)⟩

end SteeredConv
