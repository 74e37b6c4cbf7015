/-
# Networks

A network is a row of oriented convolutions that keep the size of an image, with a
comparator for its output. It is built from a description, in which every convolution
gets as many input channels as the one before it puts out and the last comparator counts.

Key definitions: `Network`, `Geometry.keepsSize`, `Network.stack`, `Network.build`,
`Network.parameters`, `Network.assign`.
-/
import SteeredConv.Gradient
import SteeredConv.Layer.OrientedConv
import SteeredConv.Layer.SimilarityLoss
import SteeredConv.Options.Description

namespace SteeredConv

/-- Whether the windows of a geometry are as many as the pixels, whatever the size. -/
def Geometry.keepsSize (g : Geometry) : Bool :=
  g.stride = (1, 1) && 2 * g.pad.1 + 1 = g.kernel.1 && 2 * g.pad.2 + 1 = g.kernel.2

/-- A row of oriented convolutions with a comparator. -/
structure Network (α ω : Type) where
  /-- The operator that takes the gradient map of an image. -/
  gradient : Operator
  /-- What negative numbers between two layers are multiplied by. -/
  slope : ω
  first : ConvLayer α ω
  rest : List (ConvLayer α ω)
  loss : SimilarityLoss ω

/-- The description that is used if none is given. -/
def defaultDescription : String := String.intercalate "\n" [
  "in_channels: 1",
  "negative_slope: 0.01",
  "layers:",
  "  - name: orient1",
  "    type: GradOrientConvolution",
  "    num_output: 8",
  "    kernel_size: 3",
  "    pad: 1",
  "    weight_filler:",
  "      type: xavier",
  "    bias_filler:",
  "      type: constant",
  "      value: 0.0",
  "  - name: orient2",
  "    type: GradOrientConvolution",
  "    num_output: 8",
  "    kernel_size: 3",
  "    pad: 1",
  "    group: 2",
  "    weight_filler:",
  "      type: msra",
  "  - name: orient_out",
  "    type: GradOrientConvolution",
  "    num_output: 1",
  "    kernel_size: 3",
  "    pad: 1",
  "  - name: loss",
  "    type: SSIMLoss",
  "    kernel_size: 7",
  "    stride: 1",
  "    c1: 0.0001",
  "    c2: 0.0009"]

namespace Network

variable {α ω : Type}

/-- All layers in order. -/
def layers (n : Network α ω) : List (ConvLayer α ω) := n.first :: n.rest

/-- The number of channels that the network takes. -/
def inChannels (n : Network α ω) : Value := n.first.inChannels

def outChannels (n : Network α ω) : Value := (n.rest.getLast?.getD n.first).options.numOutput

section Build

variable [Scalar ω] [Stored α ω] [Draws α ω]

/-- Builds the layers of a description for a number of channels; the last comparator counts. -/
def stack (globals : GlobalOptions) :
    Value → List LayerOptions → Action Fault (List (ConvLayer α ω) × Option (SimilarityLoss ω))
  | _, [] => return ([], none)
  | channels, .orientedConv o :: rest => do
    let layer ← ConvLayer.build o globals channels
    let (layers, loss) ← stack globals o.numOutput rest
    return (layer :: layers, loss)
  | channels, .similarity o :: rest => do
    let own ← SimilarityLoss.build o globals
    let (layers, loss) ← stack globals channels rest
    return (layers, some (loss.getD own))

/-- Refuses a layer that does not keep the size of every image. -/
def checkSize (l : ConvLayer α ω) : Except Fault Unit :=
  let g := l.geometry
  if g.keepsSize then .ok ()
  else .error (.option
    (.sizeNotKept (Geometry.ints g.kernel) (Geometry.ints g.stride) (Geometry.ints g.pad)))

/-- The entries of a description. -/
def entriesOf : Value → Except Fault (List (Value × Value))
  | .map entries => .ok entries
  | v => .error (.lacks v "get")

/-- Builds a network from a description that is kept under a name. -/
def build (source : String) (description : Value) (globals : GlobalOptions) :
    Action Fault (Network α ω) := do
  let entries ← liftM (entriesOf description)
  let channels ← liftM ((Value.lookup? entries "in_channels").getD (.int 1)).whole
  let slope ← liftM ((Value.lookup? entries "negative_slope").getD (.float 0.01)).real
  let gradient ← Operator.create .gradient
    { outputFormat := .value (.text "torch"), dtype := globals.dtype }
  let options ← liftM (layersOf description)
  match ← stack globals (.int channels) options with
  | ([], _) => throw (.option (.noOrientedLayer source))
  | (first :: rest, loss) =>
    liftM ((first :: rest).forM checkSize)
    let loss ← match loss with
      | some l => pure l
      | none => SimilarityLoss.build {} globals
    Action.info s!"OrientNet built from {source}: {rest.length + 1} oriented layers."
    return {
      gradient := gradient, slope := Scalar.ofFloat slope, first := first, rest := rest
      loss := loss }

end Build

def mapParameters (f : Parameter α → Parameter α) (n : Network α ω) : Network α ω :=
  { n with first := n.first.mapParameters f, rest := n.rest.map (ConvLayer.mapParameters · f) }

def parameterName (position : Nat) (name : String) : String := s!"convs.{position}.{name}"

/-- The parameters by name. -/
def parameters (n : Network α ω) : List (String × Parameter α) :=
  n.layers.zipIdx.flatMap fun (l, i) => l.parameters.map fun (name, p) => (parameterName i name, p)

/-- The entries of the parameters by name. -/
def snapshot (n : Network α ω) : List (String × Tensor α) :=
  n.parameters.map fun (name, p) => (name, p.value)

/-- The layer and parameter that a name stands for. -/
def locate (n : Network α ω) (name : String) : Option (Nat × String) :=
  (n.layers.zipIdx.flatMap fun (l, i) => l.parameters.map fun (own, _) => (i, own)).find?
    fun (i, own) =>
    parameterName i own = name

/-- The network with the layer at a position changed. -/
def changeLayer (n : Network α ω) (position : Nat)
    (f : ConvLayer α ω → Except Fault (ConvLayer α ω)) : Except Fault (Network α ω) := do
  match position with
  | 0 => return { n with first := ← f n.first }
  | position + 1 =>
    match n.rest[position]? with
    | some l => return { n with rest := n.rest.set position (← f l) }
    | none => return n

/-- Sets a parameter to the entries of an array. -/
def assign [Element α] [Zero α] [Add α] (n : Network α ω) (name : String) (source : AnyTensor) :
    Except Fault (Network α ω) :=
  match n.locate name with
  | some (position, own) => n.changeLayer position fun l => l.assign own source
  | none => .error (.missingKey name)

end Network
end SteeredConv
