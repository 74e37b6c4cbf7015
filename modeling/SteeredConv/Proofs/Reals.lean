/-
# The real numbers

The operators read as statements about real numbers: arithmetic is exact, arrays hold
the same numbers in which totals are computed, and the angle of a vector is the
argument of a complex number. A floating-point option stands for the number that it
denotes; what is no number or infinite has no real value, and zero stands in for it.

Key definitions: the instances of `Scalar`, `Stored` and `Directed`.
-/
import Mathlib
import SteeredConv.Orientation

namespace SteeredConv

/-- The real number that a floating-point number denotes. -/
noncomputable def Binary.toReal : Binary → ℝ
  | .nan => 0
  | .infinite _ => 0
  | .finite negative m q => (if negative then -1 else 1) * m * (2 : ℝ) ^ q

noncomputable instance : Scalar ℝ where
  decidableLT := inferInstance
  exp := Real.exp
  sin := Real.sin
  cos := Real.cos
  atan2 y x := Complex.arg ⟨x, y⟩
  sqrt := Real.sqrt
  log10 := Real.logb 10
  pi := Real.pi
  infinity := 0
  ofFloat x := (Binary.ofFloat x).toReal
  fixed _ _ := ""

instance : Stored ℝ ℝ where
  narrow := id
  widen := id

instance : Directed ℝ ℝ := ⟨id⟩

@[simp] theorem narrow_real (x : ℝ) : (Stored.narrow x : ℝ) = x := rfl

@[simp] theorem widen_real (x : ℝ) : (Stored.widen x : ℝ) = x := rfl

@[simp] theorem coordinate_real (x : ℝ) : (Directed.coordinate x : ℝ) = x := rfl

@[simp] theorem two_real : (two : ℝ) = 2 := by
  show ((2 : ℕ) : ℝ) = 2
  norm_num

theorem atLeast_eq_max (lo x : ℝ) : atLeast lo x = max lo x := by
  unfold atLeast
  split_ifs with h
  · exact (max_eq_left h.le).symm
  · exact (max_eq_right (not_lt.mp h)).symm

theorem atMost_eq_min (hi x : ℝ) : atMost hi x = min hi x := by
  unfold atMost
  split_ifs with h
  · exact (min_eq_left h.le).symm
  · exact (min_eq_right (not_lt.mp h)).symm

theorem toScalar_one : ((Number.whole 1).toScalar : ℝ) = 1 := by
  show ((1 : ℕ) : ℝ) = 1
  exact Nat.cast_one

theorem Tensor.map_narrow_real (t : Tensor ℝ) : t.map (Stored.narrow : ℝ → ℝ) = t := by
  refine Tensor.ext_flat rfl fun i hi => ?_
  rw [Tensor.flat_map (by exact hi)]
  rfl

end SteeredConv
