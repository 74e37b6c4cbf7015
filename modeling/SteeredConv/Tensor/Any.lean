/-
# Arrays whose element type is found at run time

`AnyTensor` is an array of any of the four element types. It is converted to another
type entry by entry, whole numbers wrapping around and fractions being cut off, and two
arrays meet in the wider of their types. `AnyArray` adds the kind of array and
`Operand` the things that are no arrays at all.

Key definitions: `AnyTensor`, `AnyTensor.cast`, `AnyTensor.joinType`, `Element`, `AnyArray`,
`Operand`.
Key statements: `joinType_self`, `joinType_comm`.
-/
import SteeredConv.Tensor.Broadcast
import SteeredConv.Tensor.ElementType
import SteeredConv.Value

namespace SteeredConv

/-- An array of any element type. -/
inductive AnyTensor where
  | float64 (t : Tensor Float)
  | float32 (t : Tensor Float32)
  | int64 (t : Tensor Int64)
  | uint8 (t : Tensor UInt8)

namespace AnyTensor

def elementType : AnyTensor → ElementType
  | float64 _ => .float64
  | float32 _ => .float32
  | int64 _ => .int64
  | uint8 _ => .uint8

/-- The extents. -/
def shape : AnyTensor → List Nat
  | float64 t => t.shape
  | float32 t => t.shape
  | int64 t => t.shape
  | uint8 t => t.shape

/-- The entries as double-precision numbers. -/
def toFloat64 : AnyTensor → Tensor Float
  | float64 t => t
  | float32 t => t.map Float32.toFloat
  | int64 t => t.map Int64.toFloat
  | uint8 t => t.map UInt8.toFloat

/-- The entries as single-precision numbers. -/
def toFloat32 : AnyTensor → Tensor Float32
  | float64 t => t.map Float.toFloat32
  | float32 t => t
  | int64 t => t.map Int64.toFloat32
  | uint8 t => t.map UInt8.toFloat32

/-- The entries as 64-bit whole numbers. -/
def toInt64 : AnyTensor → Tensor Int64
  | float64 t => t.map truncate
  | float32 t => t.map fun x => truncate x.toFloat
  | int64 t => t
  | uint8 t => t.map fun n => n.toUInt64.toInt64

/-- The entries as bytes. -/
def toUInt8 : AnyTensor → Tensor UInt8
  | float64 t => t.map fun x => lowByte (truncate x)
  | float32 t => t.map fun x => lowByte (truncate x.toFloat)
  | int64 t => t.map lowByte
  | uint8 t => t

/-- The entries in a given element type. -/
def cast (t : AnyTensor) : ElementType → AnyTensor
  | .float64 => .float64 t.toFloat64
  | .float32 => .float32 t.toFloat32
  | .int64 => .int64 t.toInt64
  | .uint8 => .uint8 t.toUInt8

/-- The element type in which tensors of two types meet. -/
def joinType : ElementType → ElementType → ElementType
  | .float64, _ | _, .float64 => .float64
  | .float32, _ | _, .float32 => .float32
  | .int64, _ | _, .int64 => .int64
  | .uint8, .uint8 => .uint8

theorem joinType_self (e : ElementType) : joinType e e = e := by cases e <;> rfl

theorem joinType_comm (a b : ElementType) : joinType a b = joinType b a := by
  cases a <;> cases b <;> rfl

/-- Applies an operation on entries that needs only addition and multiplication. -/
def mapRing
    (f : {α : Type} → [Zero α] → [One α] → [Add α] → [Neg α] → [Mul α] → Tensor α → Tensor α) :
    AnyTensor → AnyTensor
  | float64 t => .float64 (f t)
  | float32 t => .float32 (f t)
  | int64 t => .int64 (f t)
  | uint8 t => .uint8 (f t)

end AnyTensor

/-- Numbers that arrays of unknown content hold. -/
class Element (α : Type) where
  type : ElementType
  /-- An array as one of unknown content. -/
  pack : Tensor α → AnyTensor
  /-- The array, if it holds these numbers. -/
  unpack? : AnyTensor → Option (Tensor α)
  /-- The array converted to these numbers. -/
  convert : AnyTensor → Tensor α

instance : Element Float where
  type := .float64
  pack := .float64
  unpack?
    | .float64 t => some t
    | _ => none
  convert := AnyTensor.toFloat64

instance : Element Float32 where
  type := .float32
  pack := .float32
  unpack?
    | .float32 t => some t
    | _ => none
  convert := AnyTensor.toFloat32

/-- An array of some kind. -/
structure AnyArray where
  kind : ArrayKind
  data : AnyTensor

/-- What is given where an array is expected. -/
inductive Operand where
  | array (a : AnyArray)
  | other (v : Value)

def AnyTensor.operand (t : AnyTensor) : Operand := .array ⟨.tensor, t⟩

end SteeredConv
