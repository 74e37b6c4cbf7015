/-
# Options of the structural-similarity comparison

A square Gaussian window and the two stabilizers of the quotients; a stabilizer of
zero is accepted with a warning.

Key definitions: `SimilarityOptions`, `SimilarityOptions.resolve`.
-/
import SteeredConv.Options.OrientedConv

namespace SteeredConv

/-- Options of a structural-similarity comparison. -/
structure SimilarityOptions where
  kernelSize : Value := .int 11
  stride : Value := .int 1
  pad : Value := .int 0
  c1 : Value := .float 0.0001
  c2 : Value := .float 0.0009
  gaussianSigma : Value := .null
  deriving Inhabited

namespace SimilarityOptions

/-- The options and their settings. -/
def fields (o : SimilarityOptions) : List (String × Setting) :=
  [("kernel_size", .value o.kernelSize), ("stride", .value o.stride), ("pad", .value o.pad),
    ("c1", .value o.c1), ("c2", .value o.c2), ("gaussian_sigma", .value o.gaussianSigma)]

/-- Sets one option. -/
def set? (o : SimilarityOptions) (key : String) : Setting → Option SimilarityOptions
  | .value v =>
    match key with
    | "kernel_size" => some { o with kernelSize := v }
    | "stride" => some { o with stride := v }
    | "pad" => some { o with pad := v }
    | "c1" => some { o with c1 := v }
    | "c2" => some { o with c2 := v }
    | "gaussian_sigma" => some { o with gaussianSigma := v }
    | _ => none
  | _ => none

instance : HasOptions SimilarityOptions where
  owner := .similarity
  default := {}
  fields := fields
  set? := set?
  operations := ["update_config", "resolve", "gaussian_cfg"]
  views := []

/-- The checks of the options, in order, and the geometry that passes them. -/
def check (o : SimilarityOptions) : Except Fault Geometry := do
  let kernel ← o.kernelSize.whole
  let stride ← o.stride.whole
  let pad ← o.pad.whole
  let geometry ← Geometry.ofPairs .similarity (kernel, kernel) (stride, stride) (pad, pad)
  let first ← o.c1.less (.int 0)
  let negative ← if first then pure true else o.c2.less (.int 0)
  if negative then throw (.option (.stabilizerNegative .similarity))
  requireSigma .similarity o.gaussianSigma
  return geometry

/-- Checks the options, warns of a vanishing stabilizer and returns the geometry. -/
def resolve (o : SimilarityOptions) : Action Fault Geometry := do
  let geometry ← liftM o.check
  Action.warnIf (o.c1.same (.int 0) || o.c2.same (.int 0))
    (s!"[SSIMConfig] c1={o.c1.plain}, c2={o.c2.plain}: flat windows will divide by zero.")
  return geometry

/-- The Gaussian window of the local statistics. -/
def gaussian (o : SimilarityOptions) : Action Fault GaussianOptions := do
  return (← o.resolve).gaussian o.gaussianSigma

end SimilarityOptions
end SteeredConv
