/-
# The shortest decimal that reads back

Among the decimals that round to a given double, `Decimal.shortestDigits` picks
one with the fewest digits and, of those, the nearest. The decimals that round to
`m · 2 ^ q` fill an interval around it, ends included when `m` is even; on the grid
of `n` digits only the two neighbours of the number can lie nearest, so each grid
from one to seventeen digits is tried in turn.

`Decimal.shortest` lays the digits out: positional from `0.0001` up to below
`10 ^ 16`, with an exponent of at least two digits elsewhere.

Key definitions: `Decimal.shortestDigits`, `Decimal.Layout`, `Decimal.shortest`.
-/
import SteeredConv.Decimal.Fixed

namespace SteeredConv
namespace Decimal

/-- The decimals that round to a double, in units of `unit`: from `lo` to `hi`, around
`mid`, with the ends inside when `closed`. -/
structure Interval where
  lo : Nat
  mid : Nat
  hi : Nat
  unit : Ratio
  closed : Bool

/-- The interval of `m · 2 ^ q`: half a gap to either side, half as much below a power of two. -/
def Interval.around (m : Nat) (q : Int) : Interval :=
  { lo := 4 * m - (if m = Nat.pow 2 52 ∧ -1074 < q then 1 else 2)
    mid := 4 * m
    hi := 4 * m + 2
    unit := Ratio.scaled 1 (q - 2)
    closed := m % 2 = 0 }

/-- Whether `c · 10 ^ e` lies in the interval. -/
def Interval.holds (i : Interval) (c : Nat) (e : Int) : Bool :=
  let ten : Ratio := (⟨1, 1⟩ : Ratio).shift (-e)
  let x := c * ten.num * i.unit.den
  let lo := i.lo * i.unit.num * ten.den
  let hi := i.hi * i.unit.num * ten.den
  if i.closed then lo ≤ x ∧ x ≤ hi else lo < x ∧ x < hi

/-- The nearest neighbour of the number on the grid `10 ^ e` that lies in the interval. -/
def Interval.pick? (i : Interval) (e : Int) : Option Nat :=
  let value : Ratio := (⟨i.mid * i.unit.num, i.unit.den⟩ : Ratio).shift e
  let below := value.floor
  match i.holds below e, i.holds (below + 1) e with
  | true, true => some value.roundHalfEven
  | true, false => some below
  | false, true => some (below + 1)
  | false, false => none

/-- Tries the grids of `n`, `n + 1`, … digits for a number of decimal exponent `top`. -/
def Interval.search (i : Interval) (top : Int) (n : Nat) : Nat → Nat × Int
  | 0 => (0, 0)
  | fuel + 1 =>
    let e := top - n + 1
    match i.pick? e with
    | some c => (c, e)
    | none => i.search top (n + 1) fuel

/-- The shortest decimal `c · 10 ^ e` that rounds to `m · 2 ^ q`, for positive `m`. -/
def shortestDigits (m : Nat) (q : Int) : Nat × Int :=
  (Interval.around m q).search (Ratio.scaled m q).decimalExponent 1 17

/-- How the digits of a number are laid out. -/
structure Layout where
  /-- The least decimal exponent written positionally. -/
  least : Int
  /-- The decimal exponent from which an exponent is written. -/
  bound : Int
  /-- The fewest digits of a written exponent. -/
  exponentDigits : Nat

/-- Positional from a ten-thousandth to below ten to the sixteenth. -/
def Layout.plain : Layout := ⟨-4, 16, 2⟩

/-- The text of `c · 10 ^ e` for positive `c` in a layout. -/
def Layout.text (l : Layout) (c : Nat) (e : Int) : String :=
  let (c, stripped) := strip c (Nat.toDigits 10 c).length
  let e := e + stripped
  let digits := Nat.toDigits 10 c
  let top := e + digits.length - 1
  if top < l.least ∨ l.bound ≤ top then
    let rest := digits.drop 1
    let fraction := if rest.isEmpty then "" else "." ++ String.ofList rest
    let sign := if top < 0 then "-" else "+"
    String.ofList (digits.take 1) ++ fraction ++ "e" ++ sign ++
      String.ofList (padded l.exponentDigits top.natAbs)
  else if top < 0 then
    "0." ++ String.ofList (List.replicate (-top - 1).toNat '0' ++ digits)
  else
    let whole := top.toNat + 1
    let front := digits.take whole ++ List.replicate (whole - digits.length) '0'
    let back := digits.drop whole
    String.ofList front ++ "." ++ (if back.isEmpty then "0" else String.ofList back)
where
  /-- Removes the trailing zeros of a number and counts them. -/
  strip (c : Nat) : Nat → Nat × Nat
    | 0 => (c, 0)
    | fuel + 1 =>
      if c % 10 = 0 ∧ c ≠ 0 then
        let (c, k) := strip (c / 10) fuel
        (c, k + 1)
      else (c, 0)

/-- The shortest text that reads back as `x`. -/
def shortest (x : Float) : String :=
  match Binary.ofFloat x with
  | .nan => "nan"
  | .infinite negative => if negative then "-inf" else "inf"
  | .finite negative m q =>
    let sign := if negative then "-" else ""
    if m = 0 then sign ++ "0.0"
    else
      let (c, e) := shortestDigits m q
      sign ++ Layout.plain.text c e

end Decimal
end SteeredConv
