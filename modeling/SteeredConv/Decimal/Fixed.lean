/-
# Decimal text with a fixed number of places

`Decimal.fixed p x` writes `x` with exactly `p` digits after the point, the exact
value rounded half to even; `Decimal.grid d x` is the value rounded to `d`
significant digits but never to more than `d` places, as a whole number over a
power of ten.

Key definitions: `Decimal.fixed`, `Decimal.grid`.
-/
import SteeredConv.Decimal.Binary

namespace SteeredConv
namespace Decimal

/-- The digits of `n` with zeros in front, at least `width` of them. -/
def padded (width n : Nat) : List Char :=
  let digits := Nat.toDigits 10 n
  List.replicate (width - digits.length) '0' ++ digits

/-- The text of `n / 10 ^ places`. -/
def placed (places n : Nat) : String :=
  let whole := String.ofList (Nat.toDigits 10 (n / Nat.pow 10 places))
  if places = 0 then whole
  else whole ++ "." ++ String.ofList (padded places (n % Nat.pow 10 places))

/-- The text of `x` with `places` digits after the point. -/
def fixed (places : Nat) (x : Float) : String :=
  match Binary.ofFloat x with
  | .nan => "nan"
  | .infinite negative => if negative then "-inf" else "inf"
  | .finite negative m q =>
    let rounded := ((Ratio.scaled m q).shift (-(places : Int))).roundHalfEven
    (if negative then "-" else "") ++ placed places rounded

/-- Strips factors of ten that `n` and `10 ^ places` share. -/
def reduced (n : Nat) : Nat → Nat × Nat
  | 0 => (n, 0)
  | places + 1 => if n % 10 = 0 then reduced (n / 10) places else (n, places + 1)

/-- A finite number on the decimal grid of `digits` significant digits, never finer
than `10 ^ (-digits)`: the signed numerator and the number of places it is over. -/
def grid (digits : Nat) (negative : Bool) (m : Nat) (q : Int) : Int × Nat :=
  if m = 0 then (0, 0)
  else
    let r := Ratio.scaled m q
    let step := max (r.decimalExponent - ((digits : Int) - 1)) (-(digits : Int))
    let n := (r.shift step).roundHalfEven
    let (n, places) :=
      if 0 ≤ step then (n * Nat.pow 10 step.toNat, 0) else reduced n (-step).toNat
    (if negative then -(n : Int) else (n : Int), places)

end Decimal
end SteeredConv
