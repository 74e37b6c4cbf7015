/-
# Gaussian tables

The table of a footprint holds the Gaussian weights of its positions around the
centre of the footprint; exponents below minus fifty are raised to minus fifty. A
normalized table is divided by the sum of its entries.

Key definitions: `gaussianWeight`, `gaussianTable`, `footprintDeviation`,
`GaussianOptions.table`, `GaussianOptions.generate`.
Key statements: `shape_gaussianTable`.
-/
import SteeredConv.Operator
import SteeredConv.Options.Gaussian

namespace SteeredConv

section Table

variable {ω : Type} [Scalar ω]

/-- The Gaussian weight at a given distance from the centre along each axis. -/
def gaussianWeight (sigma dh dw : ω) : ω :=
  let spread := sigma * sigma
  Scalar.exp (atLeast (-((50 : Nat) : ω)) (-(dw * dw + dh * dh) / (two * spread))) /
    (two * Scalar.pi * spread)

/-- The weights of a footprint around a centre, as they are. -/
def rawTable (rows cols : Nat) (centre : ω × ω) (sigma : ω) : Tensor ω :=
  Tensor.ofFlat [rows, cols] fun i =>
    gaussianWeight sigma ((i / cols : Nat) - centre.1) ((i % cols : Nat) - centre.2)

/-- The weights of a footprint around a centre, divided by their sum if that is asked for. -/
def gaussianTable (rows cols : Nat) (centre : ω × ω) (sigma : ω) (normalize : Bool) : Tensor ω :=
  let raw := rawTable rows cols centre sigma
  if normalize then
    let total := raw.sum
    raw.map (· / total)
  else raw

theorem shape_gaussianTable (rows cols : Nat) (centre : ω × ω) (sigma : ω) (normalize : Bool) :
    (gaussianTable rows cols centre sigma normalize).shape = [rows, cols] := by
  unfold gaussianTable
  cases normalize <;> rfl

/-- The middle of an axis of `n` positions. -/
def middle (n : Nat) : ω := ((n : Nat) - 1) / two

/-- The deviation of a footprint for which none is given: a twelfth of the sum of its sizes. -/
def footprintDeviation (rows cols : Nat) : ω := ((rows + cols : Nat) : ω) / ((12 : Nat) : ω)

end Table

namespace Number

/-- The number of whole numbers from zero up to a number; `none` if there is no end. -/
def steps? : Number → Option Nat
  | whole n => some n.toNat
  | n => n.quotient?.map fun (num, den) => (-(Int.fdiv (-num) den)).toNat

/-- Refuses a number whose square is out of range. -/
def checkSquare : Number → Except Fault Unit
  | whole n => (whole (2 * n * n)).checkWord
  | real x => if x.isFinite && (x * x).isInf then .error (.overflow .square) else .ok ()

end Number

namespace GaussianOptions

variable (ω : Type) [Scalar ω]

/-- The number of positions along an axis and the middle between them. -/
def axisOf (v : Value) : Except Fault (Nat × ω) :=
  match v.number? with
  | none => .error (.unordered "<=" v (.int 0))
  | some n =>
    match n, n.steps? with
    | .whole _, some count => .ok (count, middle count)
    | .real x, some count => .ok (count, Scalar.ofFloat ((x - 1) / 2))
    | _, none => .error .incompatible

/-- The sizes of a footprint, if they are whole numbers. -/
def wholeKernel? (o : GaussianOptions) : Option (Nat × Nat) :=
  match o.kernelH.number?, o.kernelW.number? with
  | some (.whole h), some (.whole w) => some (h.toNat, w.toNat)
  | _, _ => none

/-- A deviation that is given, if it is positive and its square is in range. -/
def givenDeviation (sigma : Value) : Except Fault ω := do
  if ← sigma.atMost (.int 0) then throw (.option (.tableSigma sigma))
  match sigma.number? with
  | none => throw (.unordered "<=" sigma (.int 0))
  | some n =>
    n.checkSquare
    return n.toScalar

/-- The deviation, if its square is in range. -/
def deviation (o : GaussianOptions) : Except Fault ω := do
  match o.sigma.isNull, o.wholeKernel? with
  | true, some (rows, cols) =>
    if rows + cols < 12 * Nat.pow (Nat.pow 2 256) 2 then return footprintDeviation rows cols
    else throw (.overflow .square)
  | _, _ => givenDeviation ω (← o.resolvedSigma)

/-- The table of the options. -/
def table (o : GaussianOptions) : Except Fault (Tensor ω) := do
  let flat ← o.kernelH.atMost (.int 0)
  let narrow ← if flat then pure true else o.kernelW.atMost (.int 0)
  if narrow then throw (.option (.tableSize o.kernel))
  let sigma ← deviation ω o
  let (rows, centreH) ← axisOf ω o.kernelH
  let (cols, centreW) ← axisOf ω o.kernelW
  return gaussianTable rows cols (centreH, centreW) sigma o.normalize.isTrue

end GaussianOptions

/-- A table as it is drawn. -/
structure TableDrawing where
  title : String
  image : List Nat
  axes : Nat

/-- The drawing of a table: the table as an image, with a scale beside it. -/
def TableDrawing.of (shape : List Nat) : TableDrawing :=
  ⟨s!"2D Gaussian Kernel ({shape.getD 0 0}x{shape.getD 1 0})", shape, 2⟩

/-- The table of the options as an array of the configured element type, and its drawing. -/
def GaussianOptions.generate (o : GaussianOptions) (options : GlobalOptions) (format : Value) :
    Action Fault (AnyArray × TableDrawing) := do
  let operator ← Operator.create .table options
  let values ← liftM (o.table Float)
  let t := (AnyTensor.float64 values).cast options.elementType
  let delivered ← liftM (operator.deliver format ⟨.tensor, t⟩)
  return (delivered, TableDrawing.of t.shape)

end SteeredConv
