/-
# Options of the Gaussian smoother

The footprint of the Gaussian window, its stride and padding, and its deviation,
which is a twelfth of the sum of the two footprint sizes unless it is given.

Key definitions: `GaussianOptions`, `GaussianOptions.resolvedSigma`.
-/
import SteeredConv.Options.Record

namespace SteeredConv

/-- Footprint and geometry of a Gaussian window. -/
structure GaussianOptions where
  kernelH : Value := .int 3
  kernelW : Value := .int 3
  strideH : Value := .int 1
  strideW : Value := .int 1
  padH : Value := .int 0
  padW : Value := .int 0
  sigma : Value := .null
  normalize : Value := .bool true
  deriving Inhabited

namespace GaussianOptions

/-- The options and their settings. -/
def fields (o : GaussianOptions) : List (String × Setting) :=
  [("kernel_h", .value o.kernelH), ("kernel_w", .value o.kernelW), ("stride_h", .value o.strideH),
    ("stride_w", .value o.strideW), ("pad_h", .value o.padH), ("pad_w", .value o.padW),
    ("sigma", .value o.sigma), ("normalize", .value o.normalize)]

/-- Sets one option. -/
def set? (o : GaussianOptions) (key : String) : Setting → Option GaussianOptions
  | .value v =>
    match key with
    | "kernel_h" => some { o with kernelH := v }
    | "kernel_w" => some { o with kernelW := v }
    | "stride_h" => some { o with strideH := v }
    | "stride_w" => some { o with strideW := v }
    | "pad_h" => some { o with padH := v }
    | "pad_w" => some { o with padW := v }
    | "sigma" => some { o with sigma := v }
    | "normalize" => some { o with normalize := v }
    | _ => none
  | _ => none

instance : HasOptions GaussianOptions where
  owner := .gaussian
  default := {}
  fields := fields
  set? := set?
  operations := ["update_config", "resolved_sigma"]
  views := ["kernel", "stride", "pad"]

/-- The footprint. -/
def kernel (o : GaussianOptions) : Value × Value := (o.kernelH, o.kernelW)

/-- The steps between windows. -/
def stride (o : GaussianOptions) : Value × Value := (o.strideH, o.strideW)

/-- The rows and columns of zeros on each side. -/
def pad (o : GaussianOptions) : Value × Value := (o.padH, o.padW)

/-- The given deviation, or a twelfth of the sum of the footprint sizes. -/
def resolvedSigma (o : GaussianOptions) : Except Fault Value :=
  if o.sigma.isNull then
    match o.kernelH.number?, o.kernelW.number? with
    | some h, some w => do
      let total ← h.combine (· + ·) (· + ·) w
      return .float ((← total.toFloat) / 12)
    | _, _ => .error (.operands "+" o.kernelH o.kernelW)
  else .ok o.sigma

end GaussianOptions
end SteeredConv
