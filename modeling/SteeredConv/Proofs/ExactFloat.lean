/-
# Numbers that may be no number

Floating-point numbers with exact arithmetic: a real number, or the value that is no
number. Every operation passes that value on, dividing by zero gives it, no comparison
with it holds, and it differs from itself. What goes wrong here goes wrong for reasons
other than rounding.

Key definitions: `ExactFloat`, the instances of `Scalar`, `Stored` and `Directed`.
Key theorems: `ExactFloat.sumTo_nan`, `ExactFloat.quarterTurns_nan`, `ExactFloat.nan_beq_nan`.
-/
import SteeredConv.Proofs.Reals
import SteeredConv.Interpolation

namespace SteeredConv

/-- A real number, or the value that is no number. -/
inductive ExactFloat where
  | real (x : ℝ)
  | nan

namespace ExactFloat

/-- Applies a function to a real number. -/
def map (f : ℝ → ℝ) : ExactFloat → ExactFloat
  | real x => real (f x)
  | nan => nan

/-- Applies a function to two real numbers. -/
def map₂ (f : ℝ → ℝ → ℝ) : ExactFloat → ExactFloat → ExactFloat
  | real x, real y => real (f x y)
  | _, _ => nan

/-- The quotient of two real numbers, the second not being zero. -/
noncomputable def quotient (a b : ExactFloat) : ExactFloat :=
  open Classical in if b = real 0 then nan else map₂ (· / ·) a b

/-- The order of real numbers. -/
def Less (a b : ExactFloat) : Prop := ∃ x y, a = real x ∧ b = real y ∧ x < y

/-- Equality of real numbers. -/
noncomputable def isSame : ExactFloat → ExactFloat → Bool
  | real x, real y => open Classical in decide (x = y)
  | _, _ => false

/-- The number that a floating-point number denotes, unless it is none. -/
noncomputable def ofBinary : Binary → ExactFloat
  | .nan => nan
  | b => real b.toReal

noncomputable instance scalarExactFloat : Scalar ExactFloat where
  zero := real 0
  one := real 1
  add := map₂ (· + ·)
  sub := map₂ (· - ·)
  neg := map fun x => -x
  mul := map₂ (· * ·)
  div := quotient
  natCast n := real n
  lt := Less
  beq := isSame
  decidableLT _ _ := Classical.propDecidable _
  exp := map Scalar.exp
  sin := map Scalar.sin
  cos := map Scalar.cos
  atan2 := map₂ Scalar.atan2
  sqrt := map Scalar.sqrt
  log10 := map Scalar.log10
  pi := real Scalar.pi
  infinity := real Scalar.infinity
  ofFloat x := ofBinary (Binary.ofFloat x)
  fixed _ _ := ""

instance storedExactFloat : Stored ExactFloat ExactFloat where
  narrow := id
  widen := id

instance directedExactFloat : Directed ExactFloat ExactFloat := ⟨id⟩

theorem map₂_nan_left (f : ℝ → ℝ → ℝ) (b : ExactFloat) : map₂ f nan b = nan := by
  cases b <;> rfl

theorem map₂_nan_right (f : ℝ → ℝ → ℝ) (a : ExactFloat) : map₂ f a nan = nan := by
  cases a <;> rfl

theorem nan_add (b : ExactFloat) : nan + b = nan := map₂_nan_left _ b

theorem add_nan (a : ExactFloat) : a + nan = nan := map₂_nan_right _ a

theorem nan_mul (b : ExactFloat) : nan * b = nan := map₂_nan_left _ b

theorem nan_div (b : ExactFloat) : nan / b = nan := by
  show quotient nan b = nan
  unfold quotient
  split
  · rfl
  · exact map₂_nan_left _ b

/-- A sum with a term that is no number is none. -/
theorem sumTo_nan {n i : ℕ} {f : ℕ → ExactFloat} (hi : i < n) (h : f i = nan) : sumTo n f = nan := by
  induction n with
  | zero => omega
  | succ n ih =>
    rw [sumTo_succ]
    by_cases hin : i = n
    · rw [← hin, h, add_nan]
    · rw [ih (by omega), nan_add]

theorem sumTaps_nan {kernel : ℕ × ℕ} {a b : ℕ} {f : ℕ → ℕ → ExactFloat} (ha : a < kernel.1) (hb : b < kernel.2)
    (h : f a b = nan) : sumTaps kernel f = nan :=
  sumTo_nan ha (sumTo_nan hb h)

/-- No number has a position among the sectors. -/
theorem quarterTurns_nan : quarterTurns nan = nan := by
  unfold quarterTurns
  dsimp only
  rw [nan_mul, nan_add, nan_div]

/-- What is no number differs from itself. -/
theorem nan_beq_nan : (nan == nan) = false := rfl

end ExactFloat
end SteeredConv
