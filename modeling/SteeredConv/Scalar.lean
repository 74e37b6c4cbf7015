/-
# Number systems

The operators are written for any number system with arithmetic, an order and the
functions of `Scalar`, so that the same definitions run in double and in single
precision and can be read as statements about real numbers. `Stored` relates the
numbers that arrays hold to the wider ones in which tables, losses and rates are
computed.

Key definitions: `Scalar`, `Stored`, `clamp`, `sumTo`.
Key statements: `sumTo_succ`.
-/
import SteeredConv.Decimal.Fixed

namespace SteeredConv

/-- Arithmetic, an order and the functions that the operators use. -/
class Scalar (α : Type) extends Zero α, One α, Add α, Sub α, Neg α, Mul α, Div α, NatCast α, LT α,
    BEq α where
  decidableLT : DecidableLT α
  exp : α → α
  sin : α → α
  cos : α → α
  /-- The angle of the vector with the given height and width. -/
  atan2 : α → α → α
  sqrt : α → α
  log10 : α → α
  pi : α
  /-- What an unbounded quality is reported as. -/
  infinity : α
  /-- The number that an option written as a floating-point number stands for. -/
  ofFloat : Float → α
  /-- The text with a given number of places after the point. -/
  fixed : Nat → α → String

attribute [reducible, instance] Scalar.decidableLT

instance : Scalar Float where
  natCast := Float.ofNat
  decidableLT := inferInstance
  exp := Float.exp
  sin := Float.sin
  cos := Float.cos
  atan2 := Float.atan2
  sqrt := Float.sqrt
  log10 := Float.log10
  pi := 3.141592653589793
  infinity := 1 / 0
  ofFloat x := x
  fixed := Decimal.fixed

instance : Scalar Float32 where
  natCast := Float32.ofNat
  decidableLT := inferInstance
  exp := Float32.exp
  sin := Float32.sin
  cos := Float32.cos
  atan2 := Float32.atan2
  sqrt := Float32.sqrt
  log10 := Float32.log10
  pi := 3.141592653589793
  infinity := 1 / 0
  ofFloat := Float.toFloat32
  fixed places x := Decimal.fixed places x.toFloat

/-- Numbers `α` that arrays hold, beside the numbers `ω` in which totals are computed. -/
class Stored (α : Type) (ω : outParam Type) where
  narrow : ω → α
  widen : α → ω
  /-- Whether a number may be written into all of an array; a finite one beyond the range may not. -/
  admits : ω → Bool := fun _ => true

instance : Stored Float Float where
  narrow := id
  widen := id

/-- Whether a number is within the range of 32-bit numbers, unless it is infinite or no number. -/
def isSingle (x : Float) : Bool := !x.isFinite || x.abs ≤ 3.4028234663852886e38

instance : Stored Float32 Float where
  narrow := Float.toFloat32
  widen := Float32.toFloat
  admits := isSingle

/-- The whole part of a floating-point number as a 64-bit number. -/
def truncate (x : Float) : Int64 := if x.isNaN || x.isInf then Int64.minValue else x.toInt64

/-- The low byte of a 64-bit number. -/
def lowByte (n : Int64) : UInt8 := n.toUInt64.toUInt8

instance : Stored Int64 Float where
  narrow := truncate
  widen := Int64.toFloat

instance : Stored UInt8 Float where
  narrow x := lowByte (truncate x)
  widen := UInt8.toFloat

instance zeroInt64 : Zero Int64 := ⟨0⟩

instance zeroUInt8 : Zero UInt8 := ⟨0⟩

instance oneUInt8 : One UInt8 := ⟨1⟩

section Literals

variable {α : Type} [Scalar α]

/-- The number two. -/
def two : α := ((2 : Nat) : α)

end Literals

section Order

variable {α : Type} [LT α] [DecidableLT α]

/-- `x`, but not below `lo`. -/
def atLeast (lo x : α) : α := if x < lo then lo else x

/-- `x`, but not above `hi`. -/
def atMost (hi x : α) : α := if hi < x then hi else x

/-- `x` brought between `lo` and `hi`; the upper bound wins. -/
def clamp (lo hi x : α) : α := atMost hi (atLeast lo x)

end Order

section Sum

variable {α : Type} [Zero α] [Add α]

/-- `f 0 + f 1 + … + f (n - 1)`. -/
def sumTo : Nat → (Nat → α) → α
  | 0, _ => 0
  | n + 1, f => sumTo n f + f n

@[simp] theorem sumTo_zero (f : Nat → α) : sumTo 0 f = 0 := rfl

theorem sumTo_succ (n : Nat) (f : Nat → α) : sumTo (n + 1) f = sumTo n f + f n := rfl

end Sum
end SteeredConv
