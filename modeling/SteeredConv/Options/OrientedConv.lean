/-
# Options of the oriented convolution

Kernel, stride and padding are each given once for both axes or once per axis, never
both. `OrientedConvOptions.resolve` checks the options in a fixed order and returns
the geometry; an even kernel is accepted with a warning.

Key definitions: `OrientedConvOptions`, `resolvePair`, `OrientedConvOptions.resolve`.
-/
import SteeredConv.Options.Geometry
import SteeredConv.Journal

namespace SteeredConv

/-- Options of an oriented convolution layer. -/
structure OrientedConvOptions where
  numOutput : Value := .int 0
  kernelSize : Value := .null
  kernelH : Value := .null
  kernelW : Value := .null
  stride : Value := .null
  strideH : Value := .null
  strideW : Value := .null
  pad : Value := .null
  padH : Value := .null
  padW : Value := .null
  group : Value := .int 1
  biasTerm : Value := .bool true
  weightFiller : Setting := .filler { type := .text "xavier" }
  biasFiller : Setting := .filler {}
  gaussianSigma : Value := .null
  deriving Inhabited

namespace OrientedConvOptions

/-- The options and their settings. -/
def fields (o : OrientedConvOptions) : List (String × Setting) :=
  [("num_output", .value o.numOutput), ("kernel_size", .value o.kernelSize),
    ("kernel_h", .value o.kernelH), ("kernel_w", .value o.kernelW), ("stride", .value o.stride),
    ("stride_h", .value o.strideH), ("stride_w", .value o.strideW), ("pad", .value o.pad),
    ("pad_h", .value o.padH), ("pad_w", .value o.padW), ("group", .value o.group),
    ("bias_term", .value o.biasTerm), ("weight_filler", o.weightFiller),
    ("bias_filler", o.biasFiller), ("gaussian_sigma", .value o.gaussianSigma)]

/-- Sets one option that holds a value. -/
def setValue? (o : OrientedConvOptions) (key : String) (v : Value) : Option OrientedConvOptions :=
  match key with
  | "num_output" => some { o with numOutput := v }
  | "kernel_size" => some { o with kernelSize := v }
  | "kernel_h" => some { o with kernelH := v }
  | "kernel_w" => some { o with kernelW := v }
  | "stride" => some { o with stride := v }
  | "stride_h" => some { o with strideH := v }
  | "stride_w" => some { o with strideW := v }
  | "pad" => some { o with pad := v }
  | "pad_h" => some { o with padH := v }
  | "pad_w" => some { o with padW := v }
  | "group" => some { o with group := v }
  | "bias_term" => some { o with biasTerm := v }
  | "gaussian_sigma" => some { o with gaussianSigma := v }
  | _ => none

def set? (o : OrientedConvOptions) (key : String) (s : Setting) : Option OrientedConvOptions :=
  match key, s with
  | "weight_filler", s => some { o with weightFiller := s }
  | "bias_filler", s => some { o with biasFiller := s }
  | key, .value v => o.setValue? key v
  | _, _ => none

instance : HasOptions OrientedConvOptions where
  owner := .orientedConv
  default := {}
  fields := fields
  set? := set?
  operations := ["update_config", "resolve", "gaussian_cfg"]
  views := []

end OrientedConvOptions

/-- A size given once for both axes or once per axis. The sizes are converted to whole
numbers; where nothing is given the fallback stands, if there is one. -/
def resolvePair (owner : OptionSet) (name : String) (single h w : Value) (fallback : Option Int) :
    Except Fault (Int × Int) :=
  if !h.isNull || !w.isNull then
    if !single.isNull then .error (.option (.bothForms owner name))
    else if h.isNull || w.isNull then .error (.option (.halfGiven owner name))
    else do
      let h ← h.whole
      let w ← w.whole
      return (h, w)
  else if !single.isNull then do
    let n ← single.whole
    return (n, n)
  else
    match fallback with
    | some n => .ok (n, n)
    | none => .error (.option (.required owner name))

/-- Refuses a count that is missing or not positive. -/
def requirePositive (owner : OptionSet) (name : String) (v : Value) : Except Fault Unit := do
  if v.isNull then throw (.option (.countNotPositive owner name v))
  if ← v.atMost (.int 0) then throw (.option (.countNotPositive owner name v))

/-- Refuses a number of outputs that is no multiple of the number of groups. -/
def requireMultiple (owner : OptionSet) (outputs group : Value) : Except Fault Unit := do
  match outputs.number?, group.number? with
  | some n, some g => if !(← n.dividedBy g) then throw (.option (.groupsDoNotDivide owner))
  | _, _ => throw (.operands "%" outputs group)

/-- Refuses a deviation that is given and not positive. -/
def requireSigma (owner : OptionSet) (sigma : Value) : Except Fault Unit := do
  if !sigma.isNull then
    if ← sigma.atMost (.int 0) then throw (.option (.sigmaNotPositive owner))

namespace OrientedConvOptions

/-- The checks of the options, in order, and the geometry that passes them. -/
def check (o : OrientedConvOptions) : Except Fault Geometry := do
  requirePositive .orientedConv "num_output" o.numOutput
  requirePositive .orientedConv "group" o.group
  requireMultiple .orientedConv o.numOutput o.group
  let kernel ← resolvePair .orientedConv "kernel" o.kernelSize o.kernelH o.kernelW none
  let stride ← resolvePair .orientedConv "stride" o.stride o.strideH o.strideW (some 1)
  let pad ← resolvePair .orientedConv "pad" o.pad o.padH o.padW (some 0)
  let geometry ← Geometry.ofPairs .orientedConv kernel stride pad
  if kernel.1 ≠ kernel.2 then throw (.option (.notSquare .orientedConv kernel))
  requireSigma .orientedConv o.gaussianSigma
  return geometry

/-- Checks the options, warns of an even kernel and returns the geometry. -/
def resolve (o : OrientedConvOptions) : Action Fault Geometry := do
  let geometry ← liftM o.check
  Action.warnIf (geometry.kernel.1 % 2 == 0)
    (s!"[GradOrientConvConfig] Even kernel {spellInts (Geometry.ints geometry.kernel)}: " ++
      "rotated copies have no centre tap.")
  return geometry

/-- The Gaussian window of the orientation estimate. -/
def gaussian (o : OrientedConvOptions) : Action Fault GaussianOptions := do
  return (← o.resolve).gaussian o.gaussianSigma

end OrientedConvOptions
end SteeredConv
