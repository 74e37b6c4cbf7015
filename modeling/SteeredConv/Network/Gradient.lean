/-
# The gradients of a network

The gradient of a loss in the output of a network is carried from the last layer back
to the first one; on the way every layer gets the gradients of its parameters. The
gradient map is taken as given.

Key definitions: `leakyGradient`, `Stage.back`, `Trace.gradients`, `Network.accumulate`.
-/
import SteeredConv.Network.Forward

namespace SteeredConv

/-- The gradient before the slope is applied, from the one after it and the number that was put
in. -/
def leakyGradient {α : Type} [Zero α] [Mul α] [LT α] [DecidableLT α] (slope x g : α) : α :=
  if 0 < x then g else g * slope

section Back

variable {α : Type} [Scalar α]

/-- The gradients of a layer's parameters and, if it is wanted, of its input. -/
def Stage.gradients (s : Stage α) (wantsInput : Bool) (cotangent : Tensor α) :
    Except Fault (Gradients α) :=
  s.pass.gradients { input := wantsInput } cotangent

/-- The gradient in what a layer put out, and the gradients of the layers after it. -/
def Stage.back (slope : α) (output : Tensor α) :
    List (Stage α) → Tensor α → Except Fault (Tensor α × List (Gradients α))
  | [], cotangent => .ok (cotangent, [])
  | s :: rest, cotangent => do
    let (cotangent, later) ← Stage.back slope s.output rest cotangent
    let own ← s.gradients true cotangent
    let below ← fitting own.input
    return (Tensor.zipWith (leakyGradient slope) output below, own :: later)

/-- The gradients of all layers for a gradient in the output. -/
def Trace.gradients (t : Trace α) (slope : α) (cotangent : Tensor α) :
    Except Fault (Gradients α × List (Gradients α)) := do
  let (cotangent, later) ← Stage.back slope t.first.output t.rest cotangent
  let own ← t.first.gradients false cotangent
  return (own, later)

end Back

namespace Network

variable {α ω : Type} [Scalar α]

/-- The network with gradients added to those of its parameters. -/
def accumulate (n : Network α ω) (g : Gradients α × List (Gradients α)) : Network α ω :=
  { n with
    first := n.first.accumulate g.1
    rest := List.zipWith (fun l own => l.accumulate own) n.rest g.2 }

/-- The network without gradients. -/
def clear (n : Network α ω) : Network α ω := n.mapParameters Parameter.clear

end Network
end SteeredConv
