/-
# The space of the parameters

A network and its entries are a point of a Euclidean space with one coordinate for each
entry of each parameter. Along the space every layer is a family of one form whose
parameters vary, and along one coordinate the gradients of a row of layers pull back
to the entry of the gradient that belongs to the coordinate.

Key definitions: `Network.Point`, `Network.vector`, `Network.withVector`, `Network.families`,
`Gradients.entry`.
Key theorems: `Network.withVector_vector`, `Network.tuned_family`, `Network.pullRow_single`.
-/
import SteeredConv.Proofs.Backpropagation
import SteeredConv.Proofs.History

namespace SteeredConv

open Finset hiding sum_apply
open Tensor

def Gradients.entry (g : Gradients ℝ) : Role → ℕ → ℝ
  | .kernel, i => g.weight.elim 0 fun t => t.flat i
  | .bias, i => g.bias.elim 0 fun t => t.flat i

namespace Network

/-! ### Points -/

/-- The entries of a network as a vector. -/
abbrev Point (n : Network ℝ ℝ) := EuclideanSpace ℝ n.places

variable (n : Network ℝ ℝ)

/-- The coordinate of a vector at a place, zero where there is none. -/
noncomputable def coordinate (v : n.Point) (e : Place) : ℝ := if h : e ∈ n.places then v ⟨e, h⟩ else 0

/-- The entries of the parameters. -/
noncomputable def vector : n.Point := WithLp.toLp _ fun e => n.entry e

noncomputable def withVector (v : n.Point) : Network ℝ ℝ := n.withEntries (n.coordinate v)

variable {n}

theorem coordinate_of_mem {e : Place} (h : e ∈ n.places) (v : n.Point) : n.coordinate v e = v ⟨e, h⟩ :=
  dif_pos h

/-- The network with its own entries is itself. -/
theorem withVector_vector : n.withVector n.vector = n :=
  withEntries_entry fun _ he => coordinate_of_mem he _

theorem differentiable_coordinate (e : Place) (θ : n.Point) :
    DifferentiableAt ℝ (fun v => n.coordinate v e) θ := by
  by_cases h : e ∈ n.places
  · simp only [coordinate_of_mem h]
    exact (EuclideanSpace.proj ⟨e, h⟩ : n.Point →L[ℝ] ℝ).differentiableAt
  · have hzero : (fun v : n.Point => n.coordinate v e) = fun _ => 0 := funext fun _ => dif_neg h
    rw [hzero]
    exact differentiableAt_const 0

/-- A coordinate changes along its own direction alone. -/
theorem fderiv_coordinate_single (e e' : Place) (he : e ∈ n.places) (θ : n.Point) :
    fderiv ℝ (fun v => n.coordinate v e') θ (EuclideanSpace.single ⟨e, he⟩ 1) = if e' = e then 1 else 0 := by
  by_cases h : e' ∈ n.places
  · have hproj : (fun v => n.coordinate v e') = (EuclideanSpace.proj ⟨e', h⟩ : n.Point →L[ℝ] ℝ) :=
      funext fun v => coordinate_of_mem h v
    rw [hproj, ContinuousLinearMap.fderiv]
    show (EuclideanSpace.single ⟨e, he⟩ 1 : n.Point) ⟨e', h⟩ = _
    rw [PiLp.single_apply]
    simp only [Subtype.mk.injEq]
  · have hzero : (fun v : n.Point => n.coordinate v e') = fun _ => 0 := funext fun _ => dif_neg h
    have hne : e' ≠ e := fun heq => h (heq ▸ he)
    rw [hzero, fderiv_fun_const, if_neg hne]
    rfl

/-! ### Families of layers -/

section Family

variable (n) (k : ℕ) (l : ConvLayer ℝ ℝ)

/-- The layer at a position as the parameters vary. -/
noncomputable def family (v : n.Point) : ConvLayer ℝ ℝ := l.withEntries fun r i => n.coordinate v (k, r, i)

/-- The layers from a position on as the parameters vary. -/
noncomputable def families (ls : List (ConvLayer ℝ ℝ)) : List (n.Point → ConvLayer ℝ ℝ) :=
  ls.mapIdx fun j l => n.family (j + k) l

/-- One parameter of the layer at a position as the parameters vary. -/
noncomputable def varying (shape : List ℕ) (r : Role) (v : n.Point) : Tensor ℝ :=
  ofFlat shape fun i => n.coordinate v (k, r, i)

variable {n k l} {shape : List ℕ} {r : Role} {θ : n.Point}

theorem families_cons (ls : List (ConvLayer ℝ ℝ)) :
    n.families k (l :: ls) = n.family k l :: n.families (k + 1) ls := by
  unfold families
  rw [List.mapIdx_cons, Nat.zero_add]
  simp only [Nat.add_right_comm _ 1 k, Nat.add_assoc]

theorem varies_varying : Varies (n.varying k shape r) shape θ := by
  refine ⟨fun _ => rfl, fun i hi => ?_⟩
  have hflat : (fun v => (n.varying k shape r v).flat i) = fun v => n.coordinate v (k, r, i) :=
    funext fun v => flat_ofFlat hi
  rw [hflat]
  exact differentiable_coordinate _ θ

theorem fderiv_varying_single (i : ℕ) {k' i' : ℕ} {r' : Role} (he : (k', r', i') ∈ n.places) :
    fderiv ℝ (fun v => (n.varying k shape r v).flat i) θ (EuclideanSpace.single ⟨(k', r', i'), he⟩ 1) =
      if k' = k ∧ r' = r ∧ i' < volume shape then if i = i' then 1 else 0 else 0 := by
  by_cases hi : i < volume shape
  · have hflat : (fun v => (n.varying k shape r v).flat i) = fun v => n.coordinate v (k, r, i) :=
      funext fun v => flat_ofFlat hi
    rw [hflat, fderiv_coordinate_single, ← ite_and]
    congr 1
    simp only [Prod.mk.injEq, eq_iff_iff]
    constructor
    · rintro ⟨rfl, rfl, rfl⟩
      exact ⟨⟨rfl, rfl, hi⟩, rfl⟩
    · rintro ⟨⟨rfl, rfl, -⟩, rfl⟩
      exact ⟨rfl, rfl, rfl⟩
  · have hflat : (fun v => (n.varying k shape r v).flat i) = fun _ => 0 :=
      funext fun v => flat_of_le (Nat.le_of_not_lt hi)
    rw [hflat, fderiv_fun_const, ← ite_and, if_neg]
    · rfl
    · rintro ⟨⟨-, -, hi'⟩, rfl⟩
      exact hi hi'

/-- A gradient in a parameter pulls back, along one coordinate, to its entry there. -/
theorem pull_varying_single (g : Tensor ℝ) {k' i' : ℕ} {r' : Role} (he : (k', r', i') ∈ n.places) :
    pull (n.varying k shape r) θ g (EuclideanSpace.single ⟨(k', r', i'), he⟩ 1) =
      if k' = k ∧ r' = r ∧ i' < volume shape then g.flat i' else 0 := by
  unfold pull
  rw [sum_apply]
  simp only [smul_apply, fderiv_varying_single, smul_eq_mul]
  split_ifs
  · simp only [mul_ite, mul_one, mul_zero, sum_ite_eq', mem_range]
    split_ifs with hi
    · rfl
    · exact (flat_of_le (Nat.le_of_not_lt hi)).symm
  · simp only [mul_zero, sum_const_zero]

theorem biasOrEmpty_family (v : n.Point) : biasOrEmpty (n.family k l v).biasValue =
    n.varying k (biasOrEmpty l.biasValue).shape .bias v := by
  unfold family ConvLayer.withEntries ConvLayer.biasValue
  cases l.bias with
  | some b => rfl
  | none => exact ext_flat rfl fun i hi => absurd hi (Nat.not_lt_zero i)

/-- As the parameters vary, so does each sound layer. -/
theorem tuned_family (hl : l.Sound) : Tuned (n.family k l) θ := by
  have hform : ∀ v, (n.family k l v).form = l.form := fun v => ConvLayer.form_withEntries _ _
  refine ⟨fun v => (hform v).trans (hform θ).symm, ?_, varies_varying, ?_⟩
  · rw [← ConvLayer.sound_form, hform, ConvLayer.sound_form]
    exact hl
  · simp only [biasOrEmpty_family]
    exact varies_varying

theorem tuned_families {ls : List (ConvLayer ℝ ℝ)} (hls : ∀ l ∈ ls, l.Sound) :
    ∀ F ∈ n.families k ls, Tuned F θ := by
  intro F hF
  obtain ⟨j, hj, rfl⟩ := List.mem_mapIdx.mp hF
  exact tuned_family (hls _ (List.getElem_mem hj))

theorem count_bias : l.count .bias = volume (biasOrEmpty l.biasValue).shape := by
  unfold ConvLayer.count ConvLayer.biasValue
  cases l.bias with
  | some b => rfl
  | none => rfl

/-- The gradients of a layer pull back, along one coordinate, to the entry that belongs to it. -/
theorem pullGradients_single (g : Gradients ℝ) {k' i : ℕ} {r : Role} (he : (k', r, i) ∈ n.places) :
    pullGradients (n.family k l) θ g (EuclideanSpace.single ⟨(k', r, i), he⟩ 1) =
      if k' = k ∧ i < l.count r then g.entry r i else 0 := by
  have hkernel : ∀ t : Tensor ℝ, pull (fun v => (n.family k l v).weight.value) θ t
      (EuclideanSpace.single ⟨(k', r, i), he⟩ 1) =
        if k' = k ∧ r = .kernel ∧ i < l.count .kernel then t.flat i else 0 := fun t =>
    pull_varying_single t he
  have hbias : ∀ t : Tensor ℝ, pull (fun v => biasOrEmpty (n.family k l v).biasValue) θ t
      (EuclideanSpace.single ⟨(k', r, i), he⟩ 1) =
        if k' = k ∧ r = .bias ∧ i < l.count .bias then t.flat i else 0 := fun t => by
    simp only [biasOrEmpty_family]
    rw [count_bias]
    exact pull_varying_single t he
  rw [pullGradients_eq, add_apply]
  unfold Gradients.entry
  obtain ⟨_, weight, bias⟩ := g
  cases r with
  | kernel => cases weight <;> cases bias <;> simp [hkernel, hbias]
  | bias => cases weight <;> cases bias <;> simp [hkernel, hbias]

theorem pullRow_single_of_lt (ls : List (ConvLayer ℝ ℝ)) (gs : List (Gradients ℝ)) {k' i : ℕ} {r : Role}
    (he : (k', r, i) ∈ n.places) (hk : k' < k) :
    pullRow (n.families k ls) θ gs (EuclideanSpace.single ⟨(k', r, i), he⟩ 1) = 0 := by
  induction ls generalizing k gs with
  | nil => rfl
  | cons l ls ih =>
    cases gs with
    | nil =>
      rw [families_cons]
      rfl
    | cons g gs =>
      rw [families_cons, pullRow_cons, add_apply, pullGradients_single,
        if_neg fun h => hk.ne h.1, ih gs (Nat.lt_succ_of_lt hk), zero_add]

/-- The gradients of a row of layers pull back, along one coordinate, to the entry that belongs to
it. -/
theorem pullRow_single {ls : List (ConvLayer ℝ ℝ)} {gs : List (Gradients ℝ)} {k' j i : ℕ} {r : Role}
    (he : (k', r, i) ∈ n.places) (hk : k' = j + k) {g : Gradients ℝ} (hl : ls[j]? = some l)
    (hg : gs[j]? = some g) (hi : i < l.count r) :
    pullRow (n.families k ls) θ gs (EuclideanSpace.single ⟨(k', r, i), he⟩ 1) = g.entry r i := by
  induction ls generalizing j k gs with
  | nil => cases hl
  | cons l' ls ih =>
    cases gs with
    | nil => cases hg
    | cons g' gs =>
      rw [families_cons, pullRow_cons, add_apply, pullGradients_single]
      cases j with
      | zero =>
        obtain rfl := Option.some.inj hl
        obtain rfl := Option.some.inj hg
        rw [if_pos ⟨by omega, hi⟩, pullRow_single_of_lt _ _ _ (by omega), add_zero]
      | succ j =>
        rw [if_neg fun h => absurd h.1 (by omega), zero_add]
        exact ih (by omega) hl hg

end Family

end Network
end SteeredConv
