/-
# The oriented convolution layer

A layer is built from options and a number of input channels. `ConvLayer.setup` builds
it again for another number of channels; `ConvLayer.reshape` checks a batch and its
map and returns the size of the output; `ConvLayer.forward` checks and computes. What
fails leaves the layer as it was, but for one case: a number of channels that passes
its check is remembered even if it is not whole.

Key definitions: `ConvLayer`, `ConvLayer.build`, `ConvLayer.setup`, `ConvLayer.reshape`,
`ConvLayer.settle`, `ConvLayer.respond`, `ConvLayer.forward`.
Key statements: `ConvLayer.shapes_of_sizeFor`.
-/
import SteeredConv.Filling
import SteeredConv.Layer.Parameter
import SteeredConv.Options.OrientedConv
import SteeredConv.OrientedConv.Pass
import SteeredConv.Tensor.Operand
import SteeredConv.Update

namespace SteeredConv

/-- A convolution whose kernel follows the orientation of a map. -/
structure ConvLayer (α ω : Type) where
  options : OrientedConvOptions
  globals : GlobalOptions
  inChannels : Value
  geometry : Geometry
  estimator : Estimator ω
  weight : Parameter α
  bias : Option (Parameter α)
  /-- The shape of the batch that was checked last. -/
  lastShape : Option (List Nat)

namespace ConvLayer

/-- A failure is logged under the name of the step. -/
def logged {β : Type} (step : String) (a : Action Fault β) : Action Fault β :=
  Action.reporting Fault.text (Component.orientedConv.title ++ "." ++ step) a

/-- Refuses numbers of channels that are not positive or not a multiple of the groups. -/
def checkChannels (o : OrientedConvOptions) (inChannels : Value) : Except Fault Unit := do
  let low ← inChannels.atMost (.int 0)
  match inChannels.number?, o.group.number? with
  | some n, some g =>
    let good ← if low then pure false else n.dividedBy g
    if !good then throw (.option (.channels inChannels o.group))
  | _, _ => throw (.operands "%" inChannels o.group)

/-- The geometry of the options for a number of input channels that they accept. -/
def accept (o : OrientedConvOptions) (inChannels : Value) : Action Fault Geometry := do
  let geometry ← o.resolve
  liftM (checkChannels o inChannels)
  return geometry

/-- The shape of the kernels. -/
def weightShape (o : OrientedConvOptions) (g : Geometry) (inChannels : Value) :
    Except Fault (List Nat) := do
  let outputs ← o.numOutput.count
  match inChannels.number?, o.group.number? with
  | some (.whole n), some (.whole groups) =>
    return [outputs.toNat, (Int.fdiv n groups).toNat, g.kernel.1, g.kernel.2]
  | _, _ => throw (.wrongType "")

section Build

variable {α ω : Type} [Scalar ω] [Stored α ω] [Draws α ω]

/-- The parts of a layer that a setup makes anew. -/
structure Parts (α ω : Type) where
  estimator : Estimator ω
  weight : Tensor α
  bias : Option (Tensor α)

/-- The estimator and the filled parameters. -/
def allocate (o : OrientedConvOptions) (globals : GlobalOptions) (g : Geometry)
    (inChannels : Value) : Action Fault (Parts α ω) := do
  let estimator ← Estimator.create (g.gaussian o.gaussianSigma) globals
  let shape ← liftM (weightShape o g inChannels)
  let weight ← liftM (filledBy o.weightFiller shape)
  let bias ← if o.biasTerm.isTrue then some <$> liftM (filledBy o.biasFiller (shape.take 1))
    else pure none
  return ⟨estimator, weight, bias⟩

/-- Logs what was set up. -/
def announce (o : OrientedConvOptions) (g : Geometry) (inChannels : Value) : Action Fault Unit :=
  Action.info (s!"Setting up GradOrientConv2d: {inChannels.plain} -> {o.numOutput.plain}, " ++
    s!"kernel {spellInts (Geometry.ints g.kernel)}, " ++
    s!"stride {spellInts (Geometry.ints g.stride)}, " ++
    s!"pad {spellInts (Geometry.ints g.pad)}, group {o.group.plain}, bias {o.biasTerm.plain}")

/-- Builds a layer. -/
def build (o : OrientedConvOptions) (globals : GlobalOptions) (inChannels : Value) :
    Action Fault (ConvLayer α ω) := logged "setup" do
  let g ← accept o inChannels
  let parts : Parts α ω ← allocate o globals g inChannels
  announce o g inChannels
  return {
    options := o, globals := globals, inChannels := inChannels, geometry := g
    estimator := parts.estimator, weight := .fresh parts.weight, bias := parts.bias.map .fresh
    lastShape := none }

/-- Sets a layer up for a number of input channels. The layer is returned also if that fails. -/
def setup (l : ConvLayer α ω) (inChannels : Value) :
    Action Fault (ConvLayer α ω × Except Fault Unit) := do
  match ← Action.attempt (logged "setup" (accept l.options inChannels)) with
  | .error e => return (l, .error e)
  | .ok g =>
    let l := { l with inChannels := inChannels, geometry := g }
    let remaining : Action Fault (Parts α ω) := do
      let parts ← allocate l.options l.globals g inChannels
      announce l.options g inChannels
      return parts
    match ← Action.attempt (logged "setup" remaining) with
    | .error e => return (l, .error e)
    | .ok parts =>
      return ({ l with
        estimator := parts.estimator, weight := .fresh parts.weight
        bias := parts.bias.map .fresh },
        .ok ())

end Build

section Use

variable {α ω : Type} (l : ConvLayer α ω)

/-- The size of the output for a batch and a map of given shapes, if the layer accepts them. -/
def sizeFor (input map : List Nat) : Except Fault (Nat × Nat) :=
  match input, map with
  | [n, c, h, w], [n', c', h', w'] =>
    let size := l.geometry.outputSize h w
    if l.inChannels.same (.int c) = false then .error (.shape (.convChannels l.inChannels c))
    else if c' ≠ 2 then .error (.shape (.mapChannels c'))
    else if n' ≠ n ∨ h' ≠ h ∨ w' ≠ w then .error (.shape (.mapSize map input))
    else if size.1 ≤ 0 ∨ size.2 ≤ 0 then
      .error (.shape
        (.convFit (Geometry.ints l.geometry.kernel) [h, w] (Geometry.ints l.geometry.pad)))
    else .ok (size.1.toNat, size.2.toNat)
  | _, _ => .error (.shape (.convRank input map))

/-- Accepted shapes are batches of one size with the channels of the layer and two channels of the
map. -/
theorem shapes_of_sizeFor {input map : List Nat} {size : Nat × Nat}
    (h : l.sizeFor input map = .ok size) :
    ∃ n c v w, input = [n, c, v, w] ∧ map = [n, 2, v, w] ∧ l.inChannels.same (.int c) = true := by
  unfold sizeFor at h
  split at h
  · rename_i n c v w n' c' v' w'
    dsimp only at h
    split at h
    · simp at h
    · rename_i hc
      split at h
      · simp at h
      · rename_i hm
        split at h
        · simp at h
        · rename_i hs
          simp only [ne_eq, not_or, Decidable.not_not] at hm hs
          obtain ⟨rfl, rfl, rfl⟩ := hs
          exact ⟨n', c, v', w', rfl, by rw [hm], by simpa using hc⟩
  · simp at h

/-- The shape of the output in the log. -/
def spellOutput (samples : Nat) (size : Nat × Nat) : String :=
  spellTuple [toString samples, l.options.numOutput.spell, toString size.1, toString size.2]

/-- The shapes of two operands that are asked for their extents one after the other. -/
def shapesOf (input map : Operand) : Except Fault (List Nat × List Nat) := do
  let rank ← input.rank
  if rank = 4 then let _ ← map.rank
  return (← input.shape, ← map.shape)

/-- A failed change of a layer is logged under the name of the step. -/
def loggedChange {β : Type} (step : String) (u : Update (ConvLayer α ω) Fault β) :
    Update (ConvLayer α ω) Fault β :=
  Update.reporting Fault.text (Component.orientedConv.title ++ "." ++ step) u

/-- Checks the shapes of a batch and its map; a new shape of the batch is remembered and logged. -/
def settle (input map : List Nat) : Update (ConvLayer α ω) Fault (Nat × Nat) := do
  let l ← get
  let size ← liftM (l.sizeFor input map)
  if l.lastShape ≠ some input then
    Update.act (Action.debug (s!"GradOrientConv2d reshape: input {spellShape input} -> output " ++
      l.spellOutput (input.getD 0 0) size))
    set { l with lastShape := some input }
  return size

/-- Checks a batch and its map. -/
def reshape (input map : Operand) : Update (ConvLayer α ω) Fault (Nat × Nat) :=
  loggedChange "reshape" do
    let (inputShape, mapShape) ← liftM (shapesOf input map)
    settle inputShape mapShape

/-- The number of groups as the computation needs it. -/
def groups : Except Fault Nat := do return (← l.options.group.count).toNat

/-- The output for a batch and weights of the rotations, with what its gradients need. -/
def respond [Zero α] [Add α] [Mul α] (x weights : Tensor α) :
    Except Fault (Tensor α × ForwardPass α) := do
  let groups ← l.groups
  let s := l.geometry.sweep
  let output ← steer s groups x l.weight.value (l.bias.map Parameter.value) weights
  return (output, ⟨x, l.weight.value, weights, s, groups⟩)

variable {β γ : Type} [Zero β] [Add β] [Mul β] [Stored β ω] [Directed β γ] [Scalar γ] [Stored γ ω]
  [Zero α] [Add α] [Mul α] [Stored α ω]

/-- The orientation of a map, the output for a batch, and what the gradients need. -/
def compute (x : Tensor α) (map : Tensor β) :
    Except Fault (Orientation β γ × Tensor α × ForwardPass α) := do
  let (orientation, weights) ← orient l.estimator map
  let (output, pass) ← l.respond x weights
  return (orientation, output, pass)

/-- Checks and computes. -/
def forward (x : Tensor α) (map : Tensor β) :
    Update (ConvLayer α ω) Fault (Orientation β γ × Tensor α × ForwardPass α) := do
  let _ ← loggedChange "reshape" (settle x.shape map.shape)
  let l ← get
  liftM (l.compute x map)

/-- The layer with gradients added to those of its parameters. -/
def accumulate (g : Gradients α) : ConvLayer α ω :=
  { l with
    weight := g.weight.elim l.weight l.weight.accumulate
    bias := l.bias.map fun b => g.bias.elim b b.accumulate }

def mapParameters (f : Parameter α → Parameter α) : ConvLayer α ω :=
  { l with weight := f l.weight, bias := l.bias.map f }

end Use

section Description

variable {α ω : Type} (l : ConvLayer α ω)

/-- The layer in one line. -/
def describe : String :=
  s!"{l.inChannels.plain}, {l.options.numOutput.plain}, " ++
    s!"kernel_size={spellInts (Geometry.ints l.geometry.kernel)}, " ++
    s!"stride={spellInts (Geometry.ints l.geometry.stride)}, " ++
    s!"padding={spellInts (Geometry.ints l.geometry.pad)}, " ++
    s!"groups={l.options.group.plain}, bias={(Value.bool l.bias.isSome).plain}"

/-- The parameters by name. -/
def parameters : List (String × Parameter α) :=
  ("weight", l.weight) :: (l.bias.map fun b => ("bias", b)).toList

/-- Sets a parameter to the entries of an array. -/
def assign [Element α] [Zero α] [Add α] (name : String) (source : AnyTensor) :
    Except Fault (ConvLayer α ω) :=
  let source : Tensor α := Element.convert source
  match name, l.bias with
  | "weight", _ => do return { l with weight := ← fitting (l.weight.assign? source) }
  | "bias", some b => do return { l with bias := some (← fitting (b.assign? source)) }
  | _, _ => .error (.missingKey name)

end Description

end ConvLayer
end SteeredConv
