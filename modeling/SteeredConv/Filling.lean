/-
# Filling of parameters

A filler chooses the entries of a parameter: all equal, or drawn from a range or around
a mean. The range or the deviation, where it is not given, follows from the number of
entries that feed one output. Which entries are drawn is left to `Draws`, and so is what
can be drawn from: a range that the numbers of the parameter do not have, for instance,
is refused.

Key definitions: `FillerKind`, `fanIn`, `Draws`, `FillerOptions.entries`, `fillTensor`.
Key statements: `FillerKind.ofName?_name`.
-/
import SteeredConv.Options.Record
import SteeredConv.Tensor.Any
import SteeredConv.Text.SmallLetters

namespace SteeredConv

/-- The kinds of filler. -/
inductive FillerKind where
  | constant
  | gaussian
  | msra
  | uniform
  | xavier
  deriving Repr, DecidableEq

namespace FillerKind

/-- All kinds, by name. -/
def all : List FillerKind := [constant, gaussian, msra, uniform, xavier]

def name : FillerKind → String
  | constant => "constant"
  | gaussian => "gaussian"
  | msra => "msra"
  | uniform => "uniform"
  | xavier => "xavier"

/-- The kind of a name in small letters. -/
def ofName? (name : String) : Option FillerKind := all.find? fun k => k.name = name

theorem ofName?_name (k : FillerKind) : ofName? k.name = some k := by
  cases k <;> decide +kernel

end FillerKind

/-- The number of entries of a parameter that feed one output. -/
def fanIn (shape : List Nat) : Except Fault Nat :=
  match shape with
  | [] => .ok 1
  | [n] => .ok n
  | n :: rest => if n = 0 then .error .outOfRange else .ok (volume rest)

/-- The root of `total` divided by the number of entries that feed one output. -/
def fanRoot {ω : Type} [Scalar ω] (total fan : Nat) : ω := Scalar.sqrt (((total : Nat) : ω) / ((fan : Nat) : ω))

/-- How numbers `α` are drawn for a parameter, by its shape and the flat position of the entry. Drawing is
refused if the bounds do not span a range of these numbers, in order and not farther apart than their
greatest one, or if the deviation does not spread, being negative or no number. The ranges and deviations
that follow from a number of entries are never refused. -/
class Draws (α : Type) (ω : outParam Type) [Scalar ω] where
  spans : ω → ω → Bool
  spreads : ω → Bool
  /-- Entries between two bounds. -/
  between : ω → ω → List Nat → Nat → α
  /-- Entries around a mean with a deviation. -/
  around : ω → ω → List Nat → Nat → α
  spans_fanRoot : ∀ fan : Nat, fan ≠ 0 → spans (-fanRoot 3 fan) (fanRoot 3 fan) = true
  spreads_fanRoot : ∀ fan : Nat, fan ≠ 0 → spreads (fanRoot 2 fan) = true

section Entries

variable {α ω : Type} [Scalar ω]

/-- The root of `total` divided by the number of entries of a shape that feed one output. -/
def fanScale (total : Nat) (shape : List Nat) : Except Fault ω := do
  let fan ← fanIn shape
  if fan = 0 then throw .divisionByZero
  return fanRoot total fan

def fillerNumber (v : Value) : Except Fault ω := do
  return Scalar.ofFloat (← v.measure)

variable [Draws α ω]

/-- Entries between two bounds that span a range. -/
def drawBetween (low high : ω) (shape : List Nat) : Except Fault (Nat → α) :=
  if Draws.spans α low high then .ok (Draws.between low high shape) else .error .incompatible

/-- Entries around a mean with a deviation that spreads. -/
def drawAround (mean deviation : ω) (shape : List Nat) : Except Fault (Nat → α) :=
  if Draws.spreads α deviation then .ok (Draws.around mean deviation shape) else .error .incompatible

variable [Stored α ω]

/-- The entries that a filler chooses for a parameter of the given shape, by flat position. A single entry
for all positions has to be admitted by the parameter. -/
def FillerOptions.entries (o : FillerOptions) (shape : List Nat) : Except Fault (Nat → α) := do
  match o.type with
  | .text name =>
    match FillerKind.ofName? (inSmallLetters name) with
    | none => throw (.option (.unknownFiller name))
    | some .constant =>
      let x ← o.value.measureIn ω
      if !Stored.admits α x then throw .incompatible
      return fun _ => Stored.narrow x
    | some .uniform =>
      if ← o.min.exceeds o.max then throw (.option (.emptyRange o.min o.max))
      let low ← fillerNumber o.min
      let high ← fillerNumber o.max
      drawBetween low high shape
    | some .gaussian =>
      if ← o.std.atMost (.int 0) then throw (.option (.deviationNotPositive o.std))
      let mean ← fillerNumber o.mean
      let deviation ← fillerNumber o.std
      drawAround mean deviation shape
    | some .xavier =>
      let scale ← fanScale 3 shape
      drawBetween (-scale) scale shape
    | some .msra =>
      let deviation ← fanScale 2 shape
      drawAround 0 deviation shape
  | .bytes data => throw (.option (.unknownFiller (Value.bytes data).plain))
  | v => throw (.lacks v "lower")

/-- The parameter of the given shape that an option chooses, unless it is no filler. -/
def filledBy (s : Setting) (shape : List Nat) : Except Fault (Tensor α) :=
  match s with
  | .filler o => Tensor.ofFlat shape <$> o.entries shape
  | .value v => .error (.lacks v "type")
  | .elementType _ => .error (.noAttribute "")

end Entries

/-- The parameter of a given element type that a filler chooses. -/
def fillTensor [Draws Float Float] [Draws Float32 Float] [Draws Int64 Float] [Draws UInt8 Float]
    (o : FillerOptions) (shape : List Nat) (e : ElementType) : Except Fault AnyTensor :=
  match e with
  | .float64 => .float64 <$> filledBy (.filler o) shape
  | .float32 => .float32 <$> filledBy (.filler o) shape
  | .int64 => .int64 <$> filledBy (.filler o) shape
  | .uint8 => .uint8 <$> filledBy (.filler o) shape

end SteeredConv
