/-
# Element types

The four kinds of numbers that arrays of unknown content hold, and the two kinds of
array in which they come: tensors, which every operator computes on, and plain arrays,
which are converted on the way in and on request on the way out.

Key definitions: `ElementType`, `ArrayKind`.
-/
namespace SteeredConv

/-- What an array holds. -/
inductive ElementType where
  | float64
  | float32
  | int64
  | uint8
  deriving Repr, DecidableEq, Inhabited

namespace ElementType

/-- The name of an element type. -/
def title : ElementType → String
  | float64 => "float64"
  | float32 => "float32"
  | int64 => "int64"
  | uint8 => "uint8"

/-- The element type of a name. -/
def ofTitle? (name : String) : Option ElementType :=
  [float64, float32, int64, uint8].find? fun e => e.title = name

theorem ofTitle?_title (e : ElementType) : ofTitle? e.title = some e := by
  cases e <;> decide +kernel

/-- Whether the numbers have a fraction. -/
def isFloating : ElementType → Bool
  | float64 | float32 => true
  | int64 | uint8 => false

end ElementType

/-- The two kinds of array. -/
inductive ArrayKind where
  | tensor
  | plain
  deriving Repr, DecidableEq, Inhabited

namespace ArrayKind

/-- The name of a kind of array. -/
def title : ArrayKind → String
  | tensor => "torch"
  | plain => "numpy"

/-- The kind of array of a name. -/
def ofTitle? (name : String) : Option ArrayKind :=
  [tensor, plain].find? fun k => k.title = name

theorem ofTitle?_title (k : ArrayKind) : ofTitle? k.title = some k := by
  cases k <;> decide +kernel

end ArrayKind
end SteeredConv
