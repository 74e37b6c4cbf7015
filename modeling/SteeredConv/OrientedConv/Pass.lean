/-
# The oriented convolution

A batch is correlated with the four rotations of a kernel; at every window the four
responses are added with the weights of the orientation there, the same for every
output channel, and the bias is added once. `steer` is the forward pass for given
weights; `ForwardPass` keeps what the gradients need, and `ForwardPass.inputGradient`,
`ForwardPass.weightGradient` and `biasGradient` are the gradients for a cotangent, the
gradient in the output.

Key definitions: `steer`, `ForwardPass`, `ForwardPass.gradients`, `forwardPass`.
-/
import SteeredConv.Orientation
import SteeredConv.Rotation

namespace SteeredConv

/-- A result that has to exist for arrays of fitting shapes. -/
def fitting {β : Type} (x : Option β) : Except Fault β :=
  match x with
  | some b => .ok b
  | none => .error .incompatible

section Forward

variable {α : Type} [Zero α] [Add α] [Mul α]

/-- The response of a batch to one rotation of a kernel, weighted at every window. -/
def weightedResponse (s : Sweep) (groups : Nat) (x w weights : Tensor α) (r : Nat) :
    Except Fault (Tensor α) := do
  let response ← correlate? s groups x (turned r w)
  fitting (Tensor.combine? (· * ·) response (weights.channel r))

/-- The sum of the weighted responses to the four rotations of a kernel. -/
def steeredSum (s : Sweep) (groups : Nat) (x w weights : Tensor α) : Except Fault (Tensor α) := do
  let p ← weightedResponse s groups x w weights 0
  let q ← weightedResponse s groups x w weights 1
  let u ← weightedResponse s groups x w weights 2
  let v ← weightedResponse s groups x w weights 3
  return Tensor.zipWith (· + ·) (Tensor.zipWith (· + ·) (Tensor.zipWith (· + ·) p q) u) v

/-- A bias as a batch with one entry per channel. -/
def biasImage (bias : Tensor α) : Tensor α :=
  Tensor.ofImages 1 bias.size 1 1 fun _ o _ _ => bias.flat o

/-- The output of the oriented convolution for given weights of the rotations. -/
def steer (s : Sweep) (groups : Nat) (x w : Tensor α) (bias : Option (Tensor α))
    (weights : Tensor α) : Except Fault (Tensor α) := do
  requireSquare w.shape
  let x ← fitting x.toImages?
  let output ← steeredSum s groups x w weights
  match bias with
  | none => return output
  | some bias => fitting (Tensor.combine? (· + ·) output (biasImage bias))

end Forward

/-- What the gradients of a forward pass need. -/
structure ForwardPass (α : Type) where
  input : Tensor α
  weight : Tensor α
  /-- The weights of the rotations at every window. -/
  interpolation : Tensor α
  sweep : Sweep
  groups : Nat

/-- Gradients in the input, the kernel and the bias, as far as they are asked for. -/
structure Gradients (α : Type) where
  input : Option (Tensor α)
  weight : Option (Tensor α)
  bias : Option (Tensor α)

/-- Which gradients are asked for. -/
structure Requested where
  input : Bool := true
  weight : Bool := true
  bias : Bool := true

/-- The gradient in the bias: the sum over samples and windows. -/
def biasGradient {α : Type} [Zero α] [Add α] (g : Tensor α) : Except Fault (Tensor α) :=
  if g.rank < 4 then .error .outOfRange
  else .ok (Tensor.ofFlat [g.extent 1] fun o =>
    sumTo (g.extent 0) fun n => sumTaps g.area fun i j => g.at4 n o i j)

namespace ForwardPass

variable {α : Type} [Zero α] [Add α] [Mul α] (p : ForwardPass α)

/-- The cotangent weighted for one rotation. -/
def share (g : Tensor α) (r : Nat) : Except Fault (Tensor α) := do
  fitting (Tensor.combine? (· * ·) g (p.interpolation.channel r))

/-- The gradient in the input that comes through one rotation. -/
def inputShare (g : Tensor α) (r : Nat) : Except Fault (Tensor α) := do
  correlateInput? p.sweep p.groups p.input.shape (turned r p.weight) (← p.share g r)

/-- The gradient in one rotation of the kernel. -/
def weightShare (g : Tensor α) (r : Nat) : Except Fault (Tensor α) := do
  correlateKernel? p.sweep p.groups p.weight.shape p.input (← p.share g r)

/-- The gradient in the input: the sum over the rotations. -/
def inputGradient (g : Tensor α) : Except Fault (Tensor α) := do
  let a ← p.inputShare g 0
  let b ← p.inputShare g 1
  let c ← p.inputShare g 2
  let d ← p.inputShare g 3
  return Tensor.zipWith (· + ·) (Tensor.zipWith (· + ·) (Tensor.zipWith (· + ·) a b) c) d

/-- The gradient in the kernel: the gradients in its rotations, turned back and added. -/
def weightGradient (g : Tensor α) : Except Fault (Tensor α) := do
  let a ← p.weightShare g 0
  let b ← p.weightShare g 1
  let c ← p.weightShare g 2
  let d ← p.weightShare g 3
  return foldBank (Tensor.stack p.weight.shape [a, b, c, d])

/-- The gradients that are asked for. -/
def gradients (requested : Requested) (g : Tensor α) : Except Fault (Gradients α) := do
  let cotangent ← fitting g.toImages?
  for r in List.range rotations do
    let _ ← p.share cotangent r
  let input ← if requested.input then some <$> p.inputGradient cotangent else pure none
  let weight ← if requested.weight then some <$> p.weightGradient cotangent else pure none
  let bias ← if requested.bias then some <$> biasGradient g else pure none
  return ⟨input, weight, bias⟩

end ForwardPass

section Whole

variable {α β γ ω : Type} [Zero β] [Add β] [Mul β] [Stored β ω] [Directed β γ] [Scalar γ]
    [Stored γ ω]
  [Zero α] [Add α] [Mul α] [Stored α ω]

/-- The orientation of a map and the weights of the rotations, as numbers of the input. -/
def orient (e : Estimator ω) (map : Tensor β) : Except Fault (Orientation β γ × Tensor α) := do
  let orientation ← e.estimate map
  let weights ← interpolationWeights? orientation.angle
  return (orientation, weights.map fun x => Stored.narrow (Stored.widen x))

/-- The whole forward pass: the orientation of the map, the output, and what the gradients need. -/
def forwardPass (e : Estimator ω) (s : Sweep) (groups : Nat) (x : Tensor α) (map : Tensor β)
    (w : Tensor α) (bias : Option (Tensor α)) :
    Except Fault (Orientation β γ × Tensor α × ForwardPass α) := do
  let (orientation, weights) ← orient e map
  let output ← steer s groups x w bias weights
  return (orientation, output, ⟨x, w, weights, s, groups⟩)

end Whole
end SteeredConv
