/-
# What all operators share

An operator takes tensors as they are and turns plain arrays into tensors of the
configured element type. `Operator.ensure` also checks that an operand is a batch of
images, and `Operator.deliver` returns a result in the configured kind of array or
in the one that is asked for.

Key definitions: `Operator`, `Operator.create`, `Operator.convert`, `Operator.ensure`,
`Operator.deliver`.
-/
import SteeredConv.Options.Global
import SteeredConv.Tensor.Any
import SteeredConv.Text.SmallLetters

namespace SteeredConv

/-- An operator with checked options. -/
structure Operator where
  component : Component
  outputFormat : String
  options : GlobalOptions

namespace Operator

/-- A name in small letters. -/
def lowered : Setting → Except Fault String
  | .value (.text s) => .ok (inSmallLetters s)
  | .value v => .error (.lacks v "lower")
  | _ => .error (.noAttribute "")

/-- The options with the name of the operator in front, printed as well if that is asked for. -/
def summary (o : Operator) (printout : Bool) : Action Fault (List (String × Setting)) := do
  let entries := ("operator", .value (.text o.component.title)) :: o.options.fields
  if printout then
    Action.printLine ("====[ " ++ o.component.title ++ " Summary ]====")
    for line in summaryLines 15 entries do Action.printLine line
  return entries

/-- The operator of the given options, unless they ask for arrays that it does not know. -/
def check (component : Component) (options : GlobalOptions) : Except Fault Operator := do
  let framework ← lowered options.framework
  let format ← lowered options.outputFormat
  if framework ≠ ArrayKind.tensor.title then throw (.request (.framework component framework))
  if ArrayKind.ofTitle? format = none then throw (.request (.outputFormat component format))
  return ⟨component, format, options⟩

/-- An operator introduces itself if its options say so. -/
def create (component : Component) (options : GlobalOptions) : Action Fault Operator := do
  let o ← liftM (check component options)
  if options.verbose.isTrue then let _ ← o.summary true
  return o

/-- The first of several values that is given, or else the fallback. -/
def firstGiven (values : List Value) (fallback : Value) : Value :=
  (values.find? fun v => !v.isNull).getD fallback

/-- An operand as a tensor. -/
def convert (o : Operator) : Operand → Except Fault AnyTensor
  | .array ⟨.tensor, t⟩ => .ok t
  | .array ⟨.plain, t⟩ => .ok (t.cast o.options.elementType)
  | .other v => .error (.notAnArray o.component v.kind)

/-- Refuses shapes of other things than batches of images, with a given number of channels if there is
one. -/
def requireImages (o : Operator) (name : String) (channels : Value) (shape : List Nat) : Except Fault Unit := do
  if shape.length ≠ 4 then throw (.shape (.notImages o.component name shape))
  let found := shape.getD 1 0
  if !channels.isNull && !channels.same (.int found) then
    throw (.shape (.channelCount o.component name channels found))

/-- An operand as a batch of images, with a given number of channels if there is one. -/
def ensure (o : Operator) (name : String) (channels : Value) (x : Operand) :
    Except Fault AnyTensor := do
  let t ← o.convert x
  o.requireImages name channels t.shape
  return t

/-- A result as the kind of array that is asked for, or else the configured one. -/
def deliver (o : Operator) (format : Value) (result : AnyArray) : Except Fault AnyArray :=
  match firstGiven [format] (.text o.outputFormat) with
  | .text name =>
    match ArrayKind.ofTitle? name, result.kind with
    | some .tensor, _ => .ok result
    | some .plain, .tensor => .ok { result with kind := .plain }
    | some .plain, .plain =>
      .error (.noAttribute "'numpy.ndarray' object has no attribute 'detach'")
    | none, _ => .error (.request (.outputFormat o.component name))
  | v => .error (.request (.outputFormat o.component v.plain))

end Operator
end SteeredConv
