/-
# What a floating-point number stands for

A `Float` is taken apart into its sign, whole significand and power of two, so
that every decimal text is computed in exact whole-number arithmetic. A positive
number is then a quotient of two naturals (`Ratio`), on which rounding and the
decimal exponent are defined.

Key definitions: `Binary.ofFloat`, `Ratio.roundHalfEven`, `Ratio.decimalExponent`.
-/
namespace SteeredConv

/-- A floating-point number read exactly: no number, an infinity, or
`± significand · 2 ^ exponent`. -/
inductive Binary where
  | nan
  | infinite (negative : Bool)
  | finite (negative : Bool) (significand : Nat) (exponent : Int)
  deriving Repr, DecidableEq

/-- The exact reading of a double-precision number. -/
def Binary.ofFloat (x : Float) : Binary :=
  let bits : Nat := x.toBits.toNat
  let negative := bits / Nat.pow 2 63 == 1
  let field : Nat := bits / Nat.pow 2 52 % 2048
  let fraction : Nat := bits % Nat.pow 2 52
  if field = 2047 then
    if fraction = 0 then .infinite negative else .nan
  else if field = 0 then .finite negative fraction (-1074)
  else .finite negative (Nat.pow 2 52 + fraction) ((field : Int) - 1075)

/-- A quotient of two naturals. -/
structure Ratio where
  num : Nat
  den : Nat
  deriving Repr, DecidableEq

namespace Ratio

/-- The number `m · 2 ^ q`. -/
def scaled (m : Nat) (q : Int) : Ratio :=
  if 0 ≤ q then ⟨m * Nat.pow 2 q.toNat, 1⟩ else ⟨m, Nat.pow 2 (-q).toNat⟩

/-- The number divided by `10 ^ e`. -/
def shift (r : Ratio) (e : Int) : Ratio :=
  if 0 ≤ e then ⟨r.num, r.den * Nat.pow 10 e.toNat⟩ else ⟨r.num * Nat.pow 10 (-e).toNat, r.den⟩

/-- The largest whole number not above the quotient. -/
def floor (r : Ratio) : Nat := r.num / r.den

/-- The nearest whole number, a half going to the even neighbour. -/
def roundHalfEven (r : Ratio) : Nat :=
  let rest := r.num % r.den
  if 2 * rest < r.den ∨ (2 * rest = r.den ∧ r.floor % 2 = 0) then r.floor else r.floor + 1

/-- The least `j` in `1 … fuel` with `num · 10 ^ j ≥ den`. -/
def leadingZeros (num den : Nat) : Nat → Nat
  | 0 => 0
  | fuel + 1 => if den ≤ num * 10 then 1 else leadingZeros (num * 10) den fuel + 1

/-- The exponent `e` with `10 ^ e ≤ r < 10 ^ (e + 1)`, for a positive quotient. -/
def decimalExponent (r : Ratio) : Int :=
  if r.den ≤ r.num then ((Nat.toDigits 10 r.floor).length : Int) - 1
  else -(leadingZeros r.num r.den (r.den.log2 + 1) : Int)

end Ratio
end SteeredConv
