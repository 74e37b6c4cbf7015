/-
# Gaussian smoothing

Every channel of a batch is averaged over the windows of a sweep with the weights of
a table; `windowSpread` is the adjoint, which brings a number at every window back to
the pixels of the window. A `Smoother` is built from options once and then refuses
only batches of a wrong shape.

Key definitions: `windowAverage`, `windowSpread`, `Smoother`, `Smoother.create`,
`Smoother.smooth`, `Smoother.adjoint`, `smoothImage`.
Key statements: `shape_windowAverage`, `shape_windowSpread`.
-/
import SteeredConv.Correlation
import SteeredConv.Gaussian.Table
import SteeredConv.Value.Named

namespace SteeredConv

section Windows

variable {α : Type} [Zero α] [Add α] [Mul α]

/-- The entry of a table at a row and column. -/
def Tensor.at2 (t : Tensor α) (a b : Nat) : α := t.flat (a * t.extent 1 + b)

/-- The rows and columns of a table. -/
def Tensor.footprint (t : Tensor α) : Nat × Nat := (t.extent 0, t.extent 1)

/-- The sum, at every window, of the pixels weighted by the table. -/
def windowAverage (s : Sweep) (table x : Tensor α) : Tensor α :=
  let grid := s.grid table.footprint x.area
  Tensor.ofImages (x.extent 0) (x.extent 1) grid.1 grid.2 fun n c i j =>
    sumTaps table.footprint fun a b =>
      x.padded s.pad n c (i * s.stride.1 + a) (j * s.stride.2 + b) * table.at2 a b

/-- The sum, at every pixel of a batch of the given shape, of the numbers at the windows that hold
it, weighted by the table. -/
def windowSpread (s : Sweep) (table : Tensor α) (shape : List Nat) (g : Tensor α) : Tensor α :=
  Tensor.ofImages (shape.getD 0 0) (shape.getD 1 0) (shape.getD 2 0) (shape.getD 3 0) fun n c h v =>
    sumTaps table.footprint fun a b =>
      match windowAt? s.stride.1 (h + s.pad.1) a, windowAt? s.stride.2 (v + s.pad.2) b with
      | some i, some j => g.at4 n c i j * table.at2 a b
      | _, _ => 0

theorem shape_windowAverage (s : Sweep) (table x : Tensor α) :
    (windowAverage s table x).shape =
      [x.extent 0, x.extent 1, (s.grid table.footprint x.area).1,
        (s.grid table.footprint x.area).2] := rfl

theorem shape_windowSpread (s : Sweep) (table : Tensor α) (n c h w : Nat) (g : Tensor α) :
    (windowSpread s table [n, c, h, w] g).shape = [n, c, h, w] := rfl

end Windows

/-- A Gaussian window whose table has been computed. -/
structure Smoother (ω : Type) where
  operator : Operator
  options : GaussianOptions
  table : Tensor ω

namespace Smoother

/-- The window of the options, if stride and padding are acceptable. -/
def check (o : GaussianOptions) : Except Fault Unit := do
  let refuse := throw (.option (.windowGeometry o.stride o.pad))
  if ← o.strideH.atMost (.int 0) then refuse
  if ← o.strideW.atMost (.int 0) then refuse
  if ← o.padH.less (.int 0) then refuse
  if ← o.padW.less (.int 0) then refuse

/-- Builds a smoother from options. -/
def create {ω : Type} [Scalar ω] (o : GaussianOptions) (options : GlobalOptions) :
    Action Fault (Smoother ω) := do
  let operator ← Operator.create .smoother options
  liftM (check o)
  let table ← liftM (o.table ω)
  return ⟨operator, o, table⟩

variable {ω β : Type} (s : Smoother ω)

/-- The geometry of the window, which has to be whole numbers. -/
def geometry : Except Fault Geometry := do
  let o := s.options
  let kernel := (← Value.count o.kernelH, ← Value.count o.kernelW)
  let stride := (← Value.count o.strideH, ← Value.count o.strideW)
  let pad := (← Value.count o.padH, ← Value.count o.padW)
  Geometry.ofPairs .gaussian kernel stride pad

/-- The spatial size of the result for an input of the given size. -/
def outputSize (height width : Value) : Except Fault (Value × Value) := do
  let o := s.options
  let h ← positionsOf height o.kernelH o.strideH o.padH
  let w ← positionsOf width o.kernelW o.strideW o.padW
  return (h, w)

/-- Refuses shapes that are no batch of images or too small for the window. -/
def fits (shape : List Nat) : Except Fault Unit := do
  match shape with
  | [_, _, h, w] =>
    let (height, width) ← s.outputSize (.int h) (.int w)
    let low ← height.atMost (.int 0)
    let thin ← if low then pure true else width.atMost (.int 0)
    if thin then throw (.shape (.smootherFit s.options.kernel [h, w] s.options.pad))
  | _ => throw (.shape (.smootherRank shape))

def kernelShape (g : Geometry) (channels : Nat) : List Nat := [channels, 1, g.kernel.1, g.kernel.2]

/-- The geometry with which a batch of the given shape is smoothed. -/
def accepts (shape : List Nat) : Except Fault Geometry := do
  s.fits shape
  let g ← s.geometry
  let channels := shape.getD 1 0
  if Correlates g.sweep channels shape (kernelShape g channels) then return g
  else throw .incompatible

variable [Zero β] [Add β] [Mul β] [Stored β ω]

/-- The average of a batch over every window, in the numbers of the batch. -/
def smooth (x : Tensor β) : Except Fault (Tensor β) := do
  let g ← s.accepts x.shape
  return windowAverage g.sweep (s.table.map Stored.narrow) x

/-- The adjoint of `smooth` for batches of a given shape. -/
def adjoint (shape : List Nat) (y : Tensor β) : Except Fault (Tensor β) := do
  if y.shape.length < 2 then throw .outOfRange
  let g ← s.geometry
  let channels := y.extent 1
  let kernels := kernelShape g channels
  if Correlates g.sweep channels shape kernels ∧
      y.shape = correlationShape g.sweep shape kernels then
    return windowSpread g.sweep (s.table.map Stored.narrow) shape y
  else throw .incompatible

end Smoother

namespace Smoother

variable (s : Smoother Float)

/-- The average of a batch whose element type is found at run time. -/
def smoothAny : AnyTensor → Except Fault AnyTensor
  | .float64 t => return .float64 (← s.smooth t)
  | .float32 t => return .float32 (← s.smooth t)
  | .int64 t => return .int64 (← s.smooth t)
  | .uint8 t => return .uint8 (← s.smooth t)

/-- The adjoint for a batch whose element type is found at run time; whole numbers have none. -/
def adjointAny (shape : List Nat) : AnyTensor → Except Fault AnyTensor
  | .float64 t => return .float64 (← s.adjoint shape t)
  | .float32 t => return .float32 (← s.adjoint shape t)
  | .int64 t => do
    let _ ← s.adjoint shape t
    throw .unsupported
  | .uint8 t => do
    let _ ← s.adjoint shape t
    throw .unsupported

/-- A tensor, where plain arrays are refused only once their shape is known to fit. -/
def tensorOf (fits : List Nat → Except Fault Unit) : Operand → Except Fault AnyTensor
  | .array ⟨.tensor, t⟩ => .ok t
  | .array ⟨.plain, t⟩ => do
    fits t.shape
    throw (.wrongType "")
  | .other v => .error (.lacks v "ndim")

/-- Smooths an operand and returns it in the configured kind of array. -/
def apply (x : Operand) : Except Fault AnyArray := do
  let t ← s.operator.ensure "image" .null x
  s.operator.deliver .null ⟨.tensor, ← s.smoothAny t⟩

end Smoother

/-- Smooths an image with a square window, the options being given by name. -/
def smoothImage (settings : List (String × Value)) (x : Operand) : Action Fault AnyArray := do
  liftM (Named.only ["kernel_size", "stride", "pad", "sigma", "output_format"] settings)
  let size ← liftM (Named.required settings "kernel_size")
  let stride := Named.get settings "stride" (.int 1)
  let pad := Named.get settings "pad" (.int 0)
  let o : GaussianOptions :=
    { kernelH := size, kernelW := size, strideH := stride, strideW := stride
      padH := pad, padW := pad
      sigma := Named.get settings "sigma" .null }
  let options : GlobalOptions :=
    { outputFormat := .value (Named.get settings "output_format" (.text "torch")) }
  let s ← Smoother.create o options
  liftM (s.apply x)

end SteeredConv
