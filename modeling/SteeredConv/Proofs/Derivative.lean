/-
# Derivatives of families of tensors

A family of tensors of one shape depends on a point of a normed space. `pull` turns a
cotangent, the derivative of a number in every entry of the tensor, into the derivative
of that number at the point. An operation that has an adjoint under the inner product
pulls a cotangent back through its adjoint, so no entry of the operation is ever
differentiated by hand.

Key definitions: `Varies`, `pull`, `pullAll`.
Key theorems: `Varies.hasFDerivAt_inner`, `Varies.image`, `Varies.map`, `Varies.mul`.
-/
import SteeredConv.Proofs.Inner

namespace SteeredConv

open Finset Tensor

variable {E : Type} [NormedAddCommGroup E] [NormedSpace ℝ E]

/-- A family of tensors of one shape whose entries are differentiable at a point. -/
structure Varies (X : E → Tensor ℝ) (shape : List ℕ) (θ : E) : Prop where
  shaped : ∀ η, (X η).shape = shape
  entry : ∀ i < volume shape, DifferentiableAt ℝ (fun η => (X η).flat i) θ

/-- The derivative of the inner product of a family with a fixed cotangent. -/
noncomputable def pull (X : E → Tensor ℝ) (θ : E) (g : Tensor ℝ) : E →L[ℝ] ℝ :=
  ∑ i ∈ range g.size, g.flat i • fderiv ℝ (fun η => (X η).flat i) θ

/-- What several families pull back together, each of them its own cotangent. -/
noncomputable def pullAll (parts : List ((E → Tensor ℝ) × Tensor ℝ)) (θ : E) : E →L[ℝ] ℝ :=
  (parts.map fun part => pull part.1 θ part.2).sum

variable {X Y : E → Tensor ℝ} {shape : List ℕ} {θ : E} {g h : Tensor ℝ}

theorem pullAll_append (parts more : List ((E → Tensor ℝ) × Tensor ℝ)) :
    pullAll (parts ++ more) θ = pullAll parts θ + pullAll more θ := by
  unfold pullAll
  rw [List.map_append, List.sum_append]

theorem pullAll_toList (X : E → Tensor ℝ) (g : Option (Tensor ℝ)) :
    pullAll (g.map fun t => (X, t)).toList θ = g.elim 0 (pull X θ) := by
  cases g with
  | none => rfl
  | some t => exact List.sum_singleton

theorem size_of_shape {t : Tensor ℝ} (h : t.shape = shape) : t.size = volume shape := by
  rw [size, h]

theorem pull_eq_sum (hg : g.shape = shape) :
    pull X θ g = ∑ i ∈ range (volume shape), g.flat i • fderiv ℝ (fun η => (X η).flat i) θ := by
  unfold pull
  rw [size_of_shape hg]

theorem pull_const (t : Tensor ℝ) : pull (fun _ => t) θ g = 0 := by
  unfold pull
  refine sum_eq_zero fun i _ => ?_
  rw [fderiv_fun_const, Pi.zero_apply, smul_zero]

namespace Varies

theorem size (hX : Varies X shape θ) (η : E) : (X η).size = volume shape := size_of_shape (hX.shaped η)

theorem const {t : Tensor ℝ} (ht : t.shape = shape) : Varies (fun _ => t) shape θ :=
  ⟨fun _ => ht, fun _ _ => differentiableAt_const _⟩

theorem hasFDerivAt_entry (hX : Varies X shape θ) {i : ℕ} (hi : i < volume shape) :
    HasFDerivAt (fun η => (X η).flat i) (fderiv ℝ (fun η => (X η).flat i) θ) θ :=
  (hX.entry i hi).hasFDerivAt

/-- The inner product of two families, by the rule for products. -/
theorem hasFDerivAt_inner_families (hX : Varies X shape θ) (hY : Varies Y shape θ) :
    HasFDerivAt (fun η => (X η).inner (Y η)) (pull X θ (Y θ) + pull Y θ (X θ)) θ := by
  have hsum : (fun η => (X η).inner (Y η)) =
      fun η => ∑ i ∈ range (volume shape), (X η).flat i * (Y η).flat i := by
    funext η
    rw [inner_eq_sum_flat, hX.size]
  rw [hsum]
  unfold pull
  rw [hX.size, hY.size, ← sum_add_distrib]
  refine HasFDerivAt.fun_sum fun i hi => ?_
  rw [mem_range] at hi
  refine ((hX.hasFDerivAt_entry hi).mul (hY.hasFDerivAt_entry hi)).congr_fderiv ?_
  exact add_comm _ _

/-- The inner product with a cotangent. -/
theorem hasFDerivAt_inner (hX : Varies X shape θ) (hg : g.shape = shape) :
    HasFDerivAt (fun η => (X η).inner g) (pull X θ g) θ := by
  have hconst : Varies (fun _ => g) shape θ := Varies.const hg
  have := hX.hasFDerivAt_inner_families hconst
  rwa [pull_const, add_zero] at this

end Varies

/-! ### Operations with an adjoint -/

/-- The cotangent that selects one entry. -/
def selector (shape : List ℕ) (i : ℕ) : Tensor ℝ := ofFlat shape fun j => if j = i then 1 else 0

theorem inner_selector {t : Tensor ℝ} (ht : t.shape = shape) {i : ℕ} (hi : i < volume shape) :
    t.inner (selector shape i) = t.flat i := by
  have hterm : ∀ j ∈ range (volume shape), t.flat j * (selector shape i).flat j =
      if j = i then t.flat j else 0 := fun j hj => by
    unfold selector
    rw [flat_ofFlat (mem_range.mp hj), mul_ite, mul_one, mul_zero]
  rw [inner_eq_sum_flat, size_of_shape ht, sum_congr rfl hterm, sum_ite_eq', if_pos (mem_range.mpr hi)]

theorem eq_zeros_of_inner {t : Tensor ℝ} (h : ∀ v : Tensor ℝ, v.shape = t.shape → t.inner v = 0) :
    t = fill t.shape 0 := by
  refine ext_flat rfl fun i hi => ?_
  rw [← inner_selector rfl hi, h (selector t.shape i) rfl, flat_zeros]

theorem varies_of_inner (hY : ∀ η, (Y η).shape = shape)
    (hd : ∀ g, g.shape = shape → DifferentiableAt ℝ (fun η => (Y η).inner g) θ) : Varies Y shape θ := by
  refine ⟨hY, fun i hi => ?_⟩
  have := hd (selector shape i) rfl
  simpa only [inner_selector (hY _) hi] using this

/-- What has an adjoint pulls a cotangent back through the adjoint. -/
theorem Varies.image {shape' : List ℕ} (hX : Varies X shape θ) (hY : ∀ η, (Y η).shape = shape')
    (adjoint : Tensor ℝ → Tensor ℝ) (hadjoint : ∀ g, g.shape = shape' → (adjoint g).shape = shape)
    (hinner : ∀ g, g.shape = shape' → ∀ η, (Y η).inner g = (X η).inner (adjoint g)) :
    Varies Y shape' θ ∧ ∀ g, g.shape = shape' → pull Y θ g = pull X θ (adjoint g) := by
  have hd : ∀ g, g.shape = shape' → HasFDerivAt (fun η => (Y η).inner g) (pull X θ (adjoint g)) θ :=
    fun g hg => by
      simp only [hinner g hg]
      exact hX.hasFDerivAt_inner (hadjoint g hg)
  have hv : Varies Y shape' θ := varies_of_inner hY fun g hg => (hd g hg).differentiableAt
  exact ⟨hv, fun g hg => (hv.hasFDerivAt_inner hg).unique (hd g hg)⟩

/-! ### Operations entry by entry -/

namespace Varies

/-- A function of every entry that has a derivative at each. -/
theorem map {f : ℝ → ℝ} {f' : ℕ → ℝ} (hX : Varies X shape θ)
    (hf : ∀ i < volume shape, HasDerivAt f (f' i) ((X θ).flat i)) :
    Varies (fun η => (X η).map f) shape θ ∧ ∀ g, g.shape = shape →
      pull (fun η => (X η).map f) θ g = pull X θ (ofFlat shape fun i => f' i * g.flat i) := by
  have hentry : ∀ i < volume shape, (fun η => ((X η).map f).flat i) = fun η => f ((X η).flat i) :=
    fun i hi => funext fun η => flat_map (by rw [hX.size]; exact hi)
  have hd : ∀ i < volume shape, HasFDerivAt (fun η => ((X η).map f).flat i)
      (f' i • fderiv ℝ (fun η => (X η).flat i) θ) θ := fun i hi => by
    rw [hentry i hi]
    exact (hf i hi).comp_hasFDerivAt θ (hX.hasFDerivAt_entry hi)
  refine ⟨⟨fun η => hX.shaped η, fun i hi => (hd i hi).differentiableAt⟩, fun g hg => ?_⟩
  have hz : (ofFlat shape fun i => f' i * g.flat i).shape = shape := rfl
  rw [pull_eq_sum hg, pull_eq_sum hz]
  refine sum_congr rfl fun i hi => ?_
  rw [mem_range] at hi
  rw [(hd i hi).fderiv, flat_ofFlat hi, smul_smul, mul_comm]

/-- The product of two families entry by entry. -/
theorem mul (hX : Varies X shape θ) (hY : Varies Y shape θ) :
    Varies (fun η => zipWith (· * ·) (X η) (Y η)) shape θ ∧ ∀ g, g.shape = shape →
      pull (fun η => zipWith (· * ·) (X η) (Y η)) θ g =
        pull X θ (zipWith (· * ·) (Y θ) g) + pull Y θ (zipWith (· * ·) (X θ) g) := by
  have hentry : ∀ i < volume shape, (fun η => (zipWith (· * ·) (X η) (Y η)).flat i) =
      fun η => (X η).flat i * (Y η).flat i :=
    fun i hi => funext fun η => flat_zipWith (by rw [hX.size]; exact hi)
  have hd : ∀ i < volume shape, HasFDerivAt (fun η => (zipWith (· * ·) (X η) (Y η)).flat i)
      ((X θ).flat i • fderiv ℝ (fun η => (Y η).flat i) θ +
        (Y θ).flat i • fderiv ℝ (fun η => (X η).flat i) θ) θ := fun i hi => by
    rw [hentry i hi]
    exact (hX.hasFDerivAt_entry hi).mul (hY.hasFDerivAt_entry hi)
  refine ⟨⟨fun η => hX.shaped η, fun i hi => (hd i hi).differentiableAt⟩, fun g hg => ?_⟩
  have hzy : (zipWith (· * ·) (Y θ) g).shape = shape := hY.shaped θ
  have hzx : (zipWith (· * ·) (X θ) g).shape = shape := hX.shaped θ
  rw [pull_eq_sum hg, pull_eq_sum hzy, pull_eq_sum hzx, ← sum_add_distrib]
  refine sum_congr rfl fun i hi => ?_
  rw [mem_range] at hi
  have hy : (zipWith (· * ·) (Y θ) g).flat i = (Y θ).flat i * g.flat i :=
    flat_zipWith (by rw [hY.size]; exact hi)
  have hx : (zipWith (· * ·) (X θ) g).flat i = (X θ).flat i * g.flat i :=
    flat_zipWith (by rw [hX.size]; exact hi)
  rw [(hd i hi).fderiv, hy, hx, smul_add, smul_smul, smul_smul, add_comm,
    mul_comm (g.flat i), mul_comm (g.flat i)]

end Varies
end SteeredConv
