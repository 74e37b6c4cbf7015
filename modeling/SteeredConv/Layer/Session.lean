/-
# Working with one layer

A session holds a layer and its last successful forward pass. The gradients of a pass
are taken once; they are added to the parameters that the pass used, and they are
refused if such a parameter has been overwritten in between.

Key definitions: `ConvSession`, `LossSession`, `LayerSession`, `LayerSession.build`,
`LayerSession.step`.
-/
import SteeredConv.Layer.OrientedConv
import SteeredConv.Layer.SimilarityLoss
import SteeredConv.Metric.Similarity
import SteeredConv.Options.Inquiry
import SteeredConv.OrientedConv.Request

namespace SteeredConv

/-- A request to a layer. -/
inductive LayerStep where
  | assign (name : String) (source : AnyTensor)
  | parameters
  | describe
  | setup (arguments : List Value)
  | reshape (a b : Operand)
  | forward (a b : Operand) (wanted : Bool × Bool)
  | backward (cotangent : Option AnyTensor)
  | clear

/-- What a layer answers. -/
inductive LayerReply where
  | done
  | parameters (entries : List (String × AnyTensor))
  | description (text title : String)
  | size (s : Nat × Nat)
  | outputs (o : ConvOutputs)
  | loss (t : AnyTensor)
  | gradients (inputs : Option AnyTensor × Option AnyTensor)
    (parameters : List (String × Option AnyTensor))

/-- The cotangent for an output of a given shape; a single number has one by itself. -/
def cotangentFor {α : Type} [Zero α] [One α] [Element α] (output : List Nat)
    (given : Option AnyTensor) : Except Fault (Tensor α) :=
  match given with
  | some g => if g.shape = output then .ok (Element.convert g) else .error .incompatible
  | none => if volume output = 1 then .ok (Tensor.fill output 1) else .error .incompatible

/-- A forward pass of an oriented convolution whose gradients may be taken. -/
structure ConvTape (α : Type) where
  pass : ForwardPass α
  output : List Nat
  wantsInput : Bool
  /-- The setup whose parameters the pass used. -/
  generation : Nat
  /-- Whether the kernel of the pass was overwritten. -/
  stale : Bool
  /-- Whether the gradients were taken. -/
  spent : Bool

/-- An oriented convolution layer at work. -/
structure ConvSession (α : Type) where
  layer : ConvLayer α Float
  generation : Nat
  tape : Option (ConvTape α)

namespace ConvSession

variable {α : Type} [Scalar α] [Stored α Float] [Element α] (s : ConvSession α)

/-- Sets a parameter. Overwriting the kernel spoils a pass that used it. -/
def assign (name : String) (source : AnyTensor) : ConvSession α × Except Fault LayerReply :=
  match s.layer.assign name source with
  | .error e => (s, .error e)
  | .ok layer =>
    let spoil (t : ConvTape α) : ConvTape α :=
      if name = "weight" ∧ t.generation = s.generation then { t with stale := true } else t
    ({ s with layer := layer, tape := s.tape.map spoil }, .ok .done)

/-- Why a setup with a wrong number of arguments is refused. -/
def miscounted (given : Nat) : Fault :=
  if given = 0 then
    .wrongType "GradOrientConv2d.setup() missing 1 required positional argument: 'in_channels'"
  else
    .wrongType s!"GradOrientConv2d.setup() takes 2 positional arguments but {given + 1} were given"

/-- Sets the layer up again. -/
def setup [Draws α Float] (arguments : List Value) : Action Fault (ConvSession α × Except Fault LayerReply) := do
  match arguments with
  | [inChannels] =>
    let (layer, outcome) ← s.layer.setup inChannels
    match outcome with
    | .ok () => return ({ s with layer := layer, generation := s.generation + 1 }, .ok .done)
    | .error e => return ({ s with layer := layer }, .error e)
  | _ =>
    let r ← Action.attempt (ConvLayer.logged "setup" (throw (miscounted arguments.length)))
    return (s, r.map fun (_ : Unit) => .done)

/-- The outputs for a batch and a map, with the weights of the rotations. -/
def respond (layer : ConvLayer α Float) (a b : Operand) :
    Except Fault (ConvOutputs × ForwardPass α × List Nat) := do
  let map ← b.detached
  let (orientation, weights) ← orientAny layer.estimator map
  let x ← a.asTensor
  let x ← fitting (Element.unpack? x)
  let (output, pass) ← layer.respond x (Element.convert weights)
  return (⟨Element.pack output, orientation.sinCos, orientation.smoothed⟩, pass, output.shape)

/-- A forward pass. -/
def forward (a b : Operand) (wantsInput : Bool) :
    Action Fault (ConvSession α × Except Fault LayerReply) := do
  let (settled, layer) ← (ConvLayer.reshape a b).start s.layer
  let s := { s with layer := layer }
  match settled with
  | .error e => return (s, .error e)
  | .ok _ =>
    match respond layer a b with
    | .error e => return (s, .error e)
    | .ok (outputs, pass, shape) =>
      let tape : ConvTape α := ⟨pass, shape, wantsInput, s.generation, false, false⟩
      return ({ s with tape := some tape }, .ok (.outputs outputs))

/-- The gradients of the parameters. -/
def gradientsOf (layer : ConvLayer α Float) : List (String × Option AnyTensor) :=
  layer.parameters.map fun (name, p) => (name, p.gradient.map Element.pack)

/-- The gradients of the last pass. -/
def backward (cotangent : Option AnyTensor) : ConvSession α × Except Fault LayerReply :=
  match s.tape with
  | none => (s, .error (.missingKey "output"))
  | some t =>
    if t.spent then (s, .error .incompatible)
    else
      match cotangentFor t.output cotangent with
      | .error e => (s, .error e)
      | .ok g =>
        let s := { s with tape := some { t with spent := true } }
        if t.stale then (s, .error .incompatible)
        else
          match t.pass.gradients { input := t.wantsInput, bias := s.layer.bias.isSome } g with
          | .error e => (s, .error e)
          | .ok gradients =>
            let layer :=
              if t.generation = s.generation then s.layer.accumulate gradients else s.layer
            ({ s with layer := layer },
              .ok (.gradients (gradients.input.map Element.pack, none) (gradientsOf layer)))

/-- Answers a request. -/
def step [Draws α Float] : LayerStep → Action Fault (ConvSession α × Except Fault LayerReply)
  | .assign name source => return s.assign name source
  | .parameters =>
    return (s,
      .ok (.parameters (s.layer.parameters.map fun (name, p) => (name, Element.pack p.value))))
  | .describe => return (s, .ok (.description s.layer.describe Component.orientedConv.title))
  | .setup arguments => s.setup arguments
  | .reshape a b => do
    let (settled, layer) ← (ConvLayer.reshape a b).start s.layer
    return ({ s with layer := layer }, settled.map .size)
  | .forward a b wanted => s.forward a b wanted.1
  | .backward cotangent => return s.backward cotangent
  | .clear => return ({ s with layer := s.layer.mapParameters Parameter.clear }, .ok .done)

end ConvSession

/-- A comparison in one of the element types. -/
inductive AnyComparison where
  | float64 (p : SimilarityPass Float Float)
  | float32 (p : SimilarityPass Float32 Float)
  | wholeNumbers

/-- A comparison whose gradients may be taken. -/
structure LossTape where
  pass : AnyComparison
  wanted : Bool × Bool
  types : ElementType × ElementType
  spent : Bool

/-- A comparator at work. -/
structure LossSession where
  layer : SimilarityLoss Float
  tape : Option LossTape

namespace LossSession

variable (s : LossSession)

/-- The loss of two batches; batches of different types meet in the wider one. -/
def compare (layer : SimilarityLoss Float) (a b : AnyTensor) :
    Except Fault (AnyTensor × AnyComparison) := do
  match AnyTensor.joinType a.elementType b.elementType with
  | .float64 =>
    let p : SimilarityPass Float Float ← layer.pass a.toFloat64 b.toFloat64
    return (.float64 (.scalar p.loss), .float64 p)
  | .float32 =>
    let p : SimilarityPass Float32 Float ← layer.pass a.toFloat32 b.toFloat32
    return (.float32 (.scalar p.loss), .float32 p)
  | _ =>
    let index : SimilarityIndex Float := ⟨layer.options, layer.smoother⟩
    let (_, mean) ← index.mapAny a b
    return (.float32 (.scalar (1 - mean).toFloat32), .wholeNumbers)

/-- A forward pass. -/
def forward (a b : Operand) (wanted : Bool × Bool) :
    Action Fault (LossSession × Except Fault LayerReply) := do
  match ← Action.attempt (s.layer.reshape a b) with
  | .error e => return (s, .error e)
  | .ok _ =>
    let computed : Except Fault (AnyTensor × LossTape) := do
      let a ← a.asTensor
      let b ← b.asTensor
      let (loss, pass) ← compare s.layer a b
      return (loss, ⟨pass, wanted, (a.elementType, b.elementType), false⟩)
    match computed with
    | .error e => return (s, .error e)
    | .ok (loss, tape) => return ({ s with tape := some tape }, .ok (.loss loss))

section Typed

variable {α : Type} [Scalar α] [Stored α Float] [Directed α α] [Element α]

/-- The gradients of a comparison that are wanted. -/
def gradientsOf (p : SimilarityPass α Float) (t : LossTape) (cotangent : Option AnyTensor) :
    Except Fault LayerReply := do
  let u : Tensor α ← cotangentFor [] cotangent
  let u := u.flat 0
  let first ← if t.wanted.1 then some <$> p.firstGradient u else pure none
  let second ← if t.wanted.2 then some <$> p.secondGradient u else pure none
  return .gradients (first.map fun g => (Element.pack g).cast t.types.1,
    second.map fun g => (Element.pack g).cast t.types.2) []

end Typed

/-- The gradients of the last comparison. -/
def backward (cotangent : Option AnyTensor) : LossSession × Except Fault LayerReply :=
  match s.tape with
  | none => (s, .error (.missingKey "output"))
  | some t =>
    if t.spent || !(t.wanted.1 || t.wanted.2) then (s, .error .incompatible)
    else
      let reply := match t.pass with
        | .float64 p => gradientsOf p t cotangent
        | .float32 p => gradientsOf p t cotangent
        | .wholeNumbers => .error .incompatible
      match reply with
      | .error e => (s, .error e)
      | .ok r => ({ s with tape := some { t with spent := true } }, .ok r)

/-- Sets the comparator up again. -/
def setup (arguments : List Value) : Action Fault (LossSession × Except Fault LayerReply) := do
  if !arguments.isEmpty then
    let refusal : Fault :=
      .wrongType
        s!"SSIMLoss.setup() takes 1 positional argument but {arguments.length + 1} were given"
    let r ← Action.attempt (SimilarityLoss.logged "setup" (throw refusal))
    return (s, r.map fun (_ : Unit) => .done)
  else
    match ← Action.attempt (SimilarityLoss.build s.layer.options s.layer.globals) with
    | .error e => return (s, .error e)
    | .ok layer => return ({ s with layer := layer }, .ok .done)

/-- Answers a request. -/
def step : LayerStep → Action Fault (LossSession × Except Fault LayerReply)
  | .assign name _ => return (s, .error (.missingKey name))
  | .parameters => return (s, .ok (.parameters []))
  | .describe => return (s, .ok (.description s.layer.describe Component.similarityLoss.title))
  | .setup arguments => s.setup arguments
  | .reshape a b => do
    let r ← Action.attempt (s.layer.reshape a b)
    return (s, r.map .size)
  | .forward a b wanted => s.forward a b wanted
  | .backward cotangent => return s.backward cotangent
  | .clear => return (s, .ok .done)

end LossSession

/-- A layer at work. -/
inductive LayerSession where
  | conv64 (s : ConvSession Float)
  | conv32 (s : ConvSession Float32)
  | loss (s : LossSession)

namespace LayerSession

variable [Draws Float Float] [Draws Float32 Float]

/-- Builds the layer that options describe. -/
def build (o : AnyOptions) (inChannels : Value) (globals : GlobalOptions) :
    Action Fault LayerSession :=
  match o with
  | .orientedConv o =>
    if inChannels.isNull then throw (.option .channelsMissing)
    else
      match globals.elementType with
      | .float32 => do return .conv32 ⟨← ConvLayer.build o globals inChannels, 0, none⟩
      | _ => do return .conv64 ⟨← ConvLayer.build o globals inChannels, 0, none⟩
  | .similarity o => do return .loss ⟨← SimilarityLoss.build o globals, none⟩
  | .globals _ => throw (.option (.notALayer .globals))
  | .filler _ => throw (.option (.notALayer .filler))
  | .gaussian _ => throw (.option (.notALayer .gaussian))

/-- Answers a request. -/
def step (s : LayerSession) (r : LayerStep) :
    Action Fault (LayerSession × Except Fault LayerReply) :=
  match s with
  | conv64 s => do
    let (s, reply) ← s.step r
    return (conv64 s, reply)
  | conv32 s => do
    let (s, reply) ← s.step r
    return (conv32 s, reply)
  | loss s => do
    let (s, reply) ← s.step r
    return (loss s, reply)

end LayerSession
end SteeredConv
