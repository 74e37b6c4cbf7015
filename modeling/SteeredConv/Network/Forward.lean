/-
# The pass of an image through a network

The gradient map of the image steers every layer. Between two layers negative numbers
are multiplied by the slope of the network. A trace keeps what every layer was given
and put out, which is what the gradients need.

Key definitions: `Given`, `Stage`, `Trace`, `leaky`, `Network.forward`.
-/
import SteeredConv.Network.Basic

namespace SteeredConv

/-- What is given where a tensor of the numbers of a network is expected. -/
inductive Given (α : Type) where
  | own (t : Tensor α)
  | other (x : Operand)

/-- An operand as it is given; tensors of other numbers are not converted. -/
def Given.ofOperand {α : Type} [Element α] (x : Operand) : Given α :=
  match x with
  | .array ⟨.tensor, t⟩ =>
    match Element.unpack? t with
    | some s => .own s
    | none => .other x
  | x => .other x

/-- Positive numbers stay, others are multiplied by a slope. -/
def leaky {α : Type} [Zero α] [Mul α] [LT α] [DecidableLT α] (slope x : α) : α :=
  if 0 < x then x else x * slope

/-- What a layer was given and what it put out. -/
structure Stage (α : Type) where
  pass : ForwardPass α
  output : Tensor α

/-- The pass of an image through a network. -/
structure Trace (α : Type) where
  gradientMap : Tensor α
  /-- The sines and cosines of the orientation that the first layer found. -/
  sinCos : Tensor α
  first : Stage α
  rest : List (Stage α)

/-- What the last layer put out. -/
def Trace.output {α : Type} (t : Trace α) : Tensor α := (t.rest.getLast?.getD t.first).output

namespace Network

variable {α ω : Type} [Scalar α] [Scalar ω] [Stored α ω] [Directed α α]

/-- The gradient map of a batch of images. -/
def mapOf (image : Tensor α) : Except Fault (Tensor α) :=
  if image.shape.length = 4 then gradientMap? image
  else .error (.shape (.notImages .gradient "image" image.shape))

/-- The pass of a batch through one layer. -/
def passLayer (map x : Tensor α) : Update (ConvLayer α ω) Fault (Orientation α α × Stage α) := do
  let (orientation, output, pass) ← ConvLayer.forward x map
  return (orientation, ⟨pass, output⟩)

/-- The pass through a later layer of what the layer before it put out. -/
def passOn (slope : α) (map : Tensor α) (before : Stage α) :
    Update (ConvLayer α ω) Fault (Stage α) := do
  let (_, stage) ← passLayer map (before.output.map (leaky slope))
  return stage

def inFirst {β : Type} (u : Update (ConvLayer α ω) Fault β) : Update (Network α ω) Fault β :=
  Update.within Network.first (fun n l => { n with first := l }) u

/-- An update of the later layers. -/
def inRest {β : Type} (u : Update (List (ConvLayer α ω)) Fault β) : Update (Network α ω) Fault β :=
  Update.within Network.rest (fun n ls => { n with rest := ls }) u

/-- The pass of a batch of images. -/
def pass (image : Tensor α) : Update (Network α ω) Fault (Trace α) := do
  let n ← get
  let map ← liftM (mapOf image)
  let (orientation, first) ← inFirst (passLayer map image)
  let rest ← inRest (Update.along (passOn (Stored.narrow n.slope) map) first)
  return ⟨map, orientation.sinCos, first, rest⟩

/-- What is no tensor of the numbers of the network fails when the first layer computes with it. -/
def refuse (x : Operand) : Update (Network α ω) Fault (Trace α) := do
  let n ← get
  let image ← liftM (n.gradient.ensure "image" .null x)
  let map ← liftM (gradientAny false image)
  let _ ← inFirst (ConvLayer.reshape x map.operand)
  let _ ← liftM x.asTensor
  throw .incompatible

/-- The pass of an image. -/
def forward (image : Given α) : Update (Network α ω) Fault (Trace α) :=
  match image with
  | .own t => pass t
  | .other x => refuse x

end Network
end SteeredConv
