/-
# Gradient maps

The gradient of an image at a pixel is taken from the eight pixels around it: the
difference across one axis, averaged along the other with weights one, two, one.
Channels are averaged first, and pixels outside the image are zero. `gradientMap`
correlates with the whole kernels and `gradientMapSparse` skips the taps whose weight
is zero.

Key definitions: `gradientTap`, `gradientMap`, `gradientMapSparse`, `Operator.gradient`.
Key statements: `shape_gradientMap`, `shape_gradientMapSparse`.
-/
import SteeredConv.Correlation
import SteeredConv.Operator
import SteeredConv.Value.Named

namespace SteeredConv

section Map

variable {α : Type} [Scalar α]

/-- The weights along the axis that is averaged. -/
def averaging (a : Nat) : α := if a = 1 then two else 1

/-- The weights along the axis that is differentiated. -/
def differencing (b : Nat) : α := if b = 0 then -1 else if b = 1 then 0 else 1

/-- The weight of a row and column for the horizontal (0) or vertical (1) component. -/
def gradientTap (component a b : Nat) : α :=
  (if component = 0 then averaging a * differencing b else averaging b * differencing a) /
    ((8 : Nat) : α)

def gradientKernels : Tensor α :=
  Tensor.ofImages 2 1 3 3 fun component _ a b => gradientTap component a b

/-- The mean over the channels of a batch. -/
def channelMean (x : Tensor α) : Tensor α :=
  Tensor.ofImages (x.extent 0) 1 (x.extent 2) (x.extent 3) fun n _ h w =>
    (sumTo (x.extent 1) fun c => x.at4 n c h w) / ((x.extent 1 : Nat) : α)

/-- A window of three rows and columns around every pixel. -/
def around : Sweep := ⟨(1, 1), (1, 1)⟩

/-- The gradient map of a batch: horizontal component, then vertical component. -/
def gradientMap (x : Tensor α) : Tensor α := correlate around 1 (channelMean x) gradientKernels

/-- The gradient map computed without the taps whose weight is zero. -/
def gradientMapSparse (x : Tensor α) : Tensor α :=
  let mean := channelMean x
  Tensor.ofImages (x.extent 0) 2 (x.extent 2) (x.extent 3) fun n component i j =>
    sumTaps (3, 3) fun a b =>
      if (gradientTap component a b : α) == 0 then 0
      else mean.padded (1, 1) n 0 (i + a) (j + b) * gradientTap component a b

theorem shape_gradientMapSparse (x : Tensor α) :
    (gradientMapSparse x).shape = [x.extent 0, 2, x.extent 2, x.extent 3] := rfl

theorem windows_around (size : Nat) : windows size 3 1 1 = size := by
  unfold windows
  split <;> omega

theorem shape_gradientMap (x : Tensor α) :
    (gradientMap x).shape = [x.extent 0, 2, x.extent 2, x.extent 3] := by
  show [x.extent 0, 2, windows (x.extent 2) 3 1 1, windows (x.extent 3) 3 1 1] = _
  rw [windows_around, windows_around]

/-- The gradient map of a batch that has pixels, or no samples. -/
def gradientMap? (x : Tensor α) : Except Fault (Tensor α) :=
  if Correlates around 1 [x.extent 0, 1, x.extent 2, x.extent 3] [2, 1, 3, 3] then
    .ok (gradientMap x)
  else .error .incompatible

/-- The gradient map by one of the two computations. -/
def gradientBy (sparse : Bool) (x : Tensor α) : Except Fault (Tensor α) :=
  if sparse then .ok (gradientMapSparse x) else gradientMap? x

end Map

/-- The gradient map of a batch whose element type is found at run time; whole numbers have none. -/
def gradientAny (sparse : Bool) : AnyTensor → Except Fault AnyTensor
  | .float64 t => return .float64 (← gradientBy sparse t)
  | .float32 t => return .float32 (← gradientBy sparse t)
  | .int64 _ | .uint8 _ => .error .unsupported

/-- The gradient map of an operand in the kind of array that is asked for. -/
def Operator.gradient (o : Operator) (sparse : Bool) (format : Value) (x : Operand) :
    Except Fault AnyArray := do
  let t ← o.ensure "image" .null x
  o.deliver format ⟨.tensor, ← gradientAny sparse t⟩

def gradientOf (options : GlobalOptions) (sparse : Value) (format : Value) (x : Operand) :
    Action Fault AnyArray := do
  let o ← Operator.create .gradient options
  liftM (o.gradient sparse.isTrue format x)

/-- The gradient map of an operand, the settings being given by name. -/
def gradientImage (settings : List (String × Value)) (x : Operand) : Action Fault AnyArray := do
  liftM (Named.only ["output_format", "use_numpy"] settings)
  gradientOf { outputFormat := .value (Named.get settings "output_format" (.text "torch")) }
    (Named.get settings "use_numpy" (.bool false)) .null x

end SteeredConv
