/-
# Window weights and variances

The weights of a normalized Gaussian table are not negative and their sum is at most
one. Under such weights, by the Cauchy-Schwarz inequality, the square of an average is
at most the average of the squares: no variance is negative.

Key definitions: `Tensor.Weighs`.
Key theorems: `weighs_gaussianTable`, `Smoother.weighs_of_create`, `sq_combination_le`,
`sq_windowAverage_le`.
-/
import SteeredConv.Proofs.Reals
import SteeredConv.Proofs.Smoothing
import SteeredConv.Similarity

namespace SteeredConv

open Finset Tensor

/-! ### Weights -/

/-- Weights that are not negative, with a sum of at most one. -/
structure Tensor.Weighs (t : Tensor ℝ) : Prop where
  nonneg : ∀ i, 0 ≤ t.flat i
  sum_le : t.sum ≤ 1

theorem gaussianWeight_nonneg (sigma dh dw : ℝ) : 0 ≤ gaussianWeight sigma dh dw := by
  unfold gaussianWeight
  rw [two_real]
  have hspread : 0 ≤ sigma * sigma := mul_self_nonneg sigma
  have hpi : (0 : ℝ) ≤ Scalar.pi := Real.pi_pos.le
  exact div_nonneg (Real.exp_pos _).le (mul_nonneg (mul_nonneg zero_le_two hpi) hspread)

theorem flat_nonneg {t : Tensor ℝ} (h : ∀ i < t.size, 0 ≤ t.flat i) (i : ℕ) : 0 ≤ t.flat i := by
  by_cases hi : i < t.size
  · exact h i hi
  · rw [flat_of_le (Nat.le_of_not_lt hi)]

theorem sum_eq_sum_flat (t : Tensor ℝ) : t.sum = ∑ i ∈ range t.size, t.flat i := sumTo_eq_sum _ _

theorem sum_normalized (t : Tensor ℝ) : (t.map (· / t.sum)).sum = t.sum / t.sum := by
  rw [sum_eq_sum_flat, sum_eq_sum_flat t, sum_div, ← sum_eq_sum_flat t]
  exact sum_congr rfl fun i hi => flat_map (by exact mem_range.mp hi)

theorem weighs_normalized {t : Tensor ℝ} (h : ∀ i < t.size, 0 ≤ t.flat i) :
    (t.map (· / t.sum)).Weighs := by
  have hsum : 0 ≤ t.sum := by
    rw [sum_eq_sum_flat]
    exact sum_nonneg fun i hi => h i (mem_range.mp hi)
  refine ⟨flat_nonneg fun i hi => ?_, ?_⟩
  · rw [flat_map (by exact hi)]
    exact div_nonneg (h i hi) hsum
  · rw [sum_normalized]
    exact div_self_le_one _

/-- A normalized Gaussian table weighs. -/
theorem weighs_gaussianTable (rows cols : ℕ) (centre : ℝ × ℝ) (sigma : ℝ) :
    (gaussianTable rows cols centre sigma true).Weighs := by
  refine weighs_normalized (t := rawTable rows cols centre sigma) fun i hi => ?_
  unfold rawTable
  rw [flat_ofFlat (by exact hi)]
  exact gaussianWeight_nonneg _ _ _

/-- The table of options that ask for it is normalized. -/
theorem weighs_table {o : GaussianOptions} {t : Tensor ℝ} (ho : o.normalize.isTrue = true)
    (h : o.table ℝ = .ok t) : t.Weighs := by
  unfold GaussianOptions.table at h
  obtain ⟨flat, -, h⟩ := bind_eq_ok_iff.mp h
  dsimp only at h
  split at h
  · cases h
  · obtain ⟨narrow, -, h⟩ := bind_eq_ok_iff.mp h
    split at h
    · cases h
    · obtain ⟨sigma, -, h⟩ := bind_eq_ok_iff.mp h
      obtain ⟨r, -, h⟩ := bind_eq_ok_iff.mp h
      obtain ⟨c, -, h⟩ := bind_eq_ok_iff.mp h
      cases h
      rw [ho]
      exact weighs_gaussianTable _ _ _ _

/-- A smoother that is built with normalization has a table that weighs. -/
theorem Smoother.weighs_of_create {o : GaussianOptions} {options : GlobalOptions} {s : Smoother ℝ}
    (ho : o.normalize.isTrue = true) (h : (Smoother.create o options).Gives s) : s.table.Weighs := by
  obtain ⟨_, table, -, -, htable, rfl⟩ := parts_of_create h
  exact weighs_table ho htable

/-! ### Variances -/

section Variance

variable {s : Sweep} {table x : Tensor ℝ} {N C H W : ℕ}

theorem padded_products {y : Tensor ℝ} (hx : x.shape = [N, C, H, W]) (hy : y.shape = [N, C, H, W])
    (pad : ℕ × ℕ) (n c h w : ℕ) :
    (products x y).padded pad n c h w = x.padded pad n c h w * y.padded pad n c h w := by
  have hxy : (products x y).shape = [N, C, H, W] := hx
  unfold padded
  split_ifs
  · by_cases hin : n < N ∧ c < C ∧ h - pad.1 < H ∧ w - pad.2 < W
    · obtain ⟨hn, hc, hh, hw⟩ := hin
      exact at4_zipWith hx hy hn hc hh hw
    · rw [at4_of_not hxy hin, at4_of_not hx hin, zero_mul]
  · rw [zero_mul]

theorem sum_eq_sum_at2 {rows cols : ℕ} (h : table.shape = [rows, cols]) :
    table.sum = ∑ t ∈ cells (rows, cols), table.at2 t.1 t.2 := by
  have hsize : table.size = rows * cols := by simp [size, h]
  have hcols : table.extent 1 = cols := by simp [extent, h]
  rw [sum_eq_sum_flat, hsize, sum_rows, cells, sum_product]
  unfold at2
  rw [hcols]

theorem Tensor.Weighs.sum_at2_le (ht : table.Weighs) (hshape : table.shape.length = 2) :
    ∑ t ∈ cells table.footprint, table.at2 t.1 t.2 ≤ 1 := by
  obtain ⟨rows, cols, hrc⟩ := List.length_eq_two.mp hshape
  have hfoot : table.footprint = (rows, cols) := by simp [footprint, extent, hrc]
  rw [hfoot, ← sum_eq_sum_at2 hrc]
  exact ht.sum_le

/-- An entry of the averages reads the pixels of one window. -/
theorem exists_window (s : Sweep) (table : Tensor ℝ) {i : ℕ}
    (hi : i < volume [N, C, (s.grid table.footprint (H, W)).1, (s.grid table.footprint (H, W)).2]) :
    ∃ n c h w, ∀ x : Tensor ℝ, x.shape = [N, C, H, W] → (windowAverage s table x).flat i =
      ∑ t ∈ cells table.footprint, x.padded s.pad n c (h + t.1) (w + t.2) * table.at2 t.1 t.2 := by
  set grid := s.grid table.footprint (H, W) with hgrid
  refine ⟨i / grid.2 / grid.1 / C, i / grid.2 / grid.1 % C, i / grid.2 % grid.1 * s.stride.1,
    i % grid.2 * s.stride.2, fun x hx => ?_⟩
  obtain ⟨x0, x1, -, -⟩ := extents hx
  unfold windowAverage
  rw [x0, x1, area_batch hx, ← hgrid]
  dsimp only
  unfold ofImages
  rw [flat_ofFlat hi]
  exact sumTaps_eq_sum _ _

/-- Under weights with a sum of at most one, the square of a weighted sum is at most the weighted sum of
the squares. -/
theorem sq_sum_le {ι : Type} {s : Finset ι} {weight : ι → ℝ} (hw : ∀ t, 0 ≤ weight t)
    (hsum : ∑ t ∈ s, weight t ≤ 1) (f : ι → ℝ) :
    (∑ t ∈ s, f t * weight t) * (∑ t ∈ s, f t * weight t) ≤ ∑ t ∈ s, f t * f t * weight t := by
  have hsquare : ∀ t, 0 ≤ f t * f t * weight t := fun t => mul_nonneg (mul_self_nonneg _) (hw t)
  rw [← sq]
  calc (∑ t ∈ s, f t * weight t) ^ 2
      ≤ (∑ t ∈ s, weight t) * ∑ t ∈ s, f t * f t * weight t :=
        sum_sq_le_sum_mul_sum_of_sq_le_mul _ (fun t _ => hw t) (fun t _ => hsquare t) fun t _ => by
          ring_nf
          exact le_rfl
    _ ≤ 1 * ∑ t ∈ s, f t * f t * weight t :=
        mul_le_mul_of_nonneg_right hsum (sum_nonneg fun t _ => hsquare t)
    _ = _ := one_mul _

/-- The square of the average of a combination of two batches is at most the average of its squares. -/
theorem sq_combination_le {y : Tensor ℝ} (ht : table.Weighs) (hshape : table.shape.length = 2)
    (hx : x.shape = [N, C, H, W]) (hy : y.shape = [N, C, H, W]) {i : ℕ} (hi : i < (windowAverage s table x).size)
    (k l : ℝ) :
    (k * (windowAverage s table x).flat i + l * (windowAverage s table y).flat i) *
        (k * (windowAverage s table x).flat i + l * (windowAverage s table y).flat i) ≤
      k * k * (windowAverage s table (products x x)).flat i +
        2 * k * l * (windowAverage s table (products x y)).flat i +
        l * l * (windowAverage s table (products y y)).flat i := by
  obtain ⟨x0, x1, -, -⟩ := extents hx
  rw [size, shape_windowAverage, x0, x1, area_batch hx] at hi
  obtain ⟨n, c, h, w, hwindow⟩ := exists_window s table hi
  set f := fun t : ℕ × ℕ => x.padded s.pad n c (h + t.1) (w + t.2)
  set e := fun t : ℕ × ℕ => y.padded s.pad n c (h + t.1) (w + t.2)
  set weight := fun t : ℕ × ℕ => table.at2 t.1 t.2
  have hproduct : ∀ u v : Tensor ℝ, u.shape = [N, C, H, W] → v.shape = [N, C, H, W] →
      (windowAverage s table (products u v)).flat i = ∑ t ∈ cells table.footprint,
        u.padded s.pad n c (h + t.1) (w + t.2) * v.padded s.pad n c (h + t.1) (w + t.2) * weight t := by
    intro u v hu hv
    rw [hwindow (products u v) hu]
    exact sum_congr rfl fun t _ => by rw [padded_products hu hv]
  have hmean : ∑ t ∈ cells table.footprint, (k * f t + l * e t) * weight t =
      k * (windowAverage s table x).flat i + l * (windowAverage s table y).flat i := by
    rw [hwindow x hx, hwindow y hy, mul_sum, mul_sum, ← sum_add_distrib]
    exact sum_congr rfl fun t _ => by ring
  have hsquares : ∑ t ∈ cells table.footprint, (k * f t + l * e t) * (k * f t + l * e t) * weight t =
      k * k * (windowAverage s table (products x x)).flat i +
        2 * k * l * (windowAverage s table (products x y)).flat i +
        l * l * (windowAverage s table (products y y)).flat i := by
    rw [hproduct x x hx hx, hproduct x y hx hy, hproduct y y hy hy, mul_sum, mul_sum, mul_sum, ← sum_add_distrib,
      ← sum_add_distrib]
    exact sum_congr rfl fun t _ => by ring
  rw [← hmean, ← hsquares]
  exact sq_sum_le (fun t => ht.nonneg _) (ht.sum_at2_le hshape) _

/-- The square of an average is at most the average of the squares. -/
theorem sq_windowAverage_le (ht : table.Weighs) (hshape : table.shape.length = 2)
    (hx : x.shape = [N, C, H, W]) {i : ℕ} (hi : i < (windowAverage s table x).size) :
    (windowAverage s table x).flat i * (windowAverage s table x).flat i ≤
      (windowAverage s table (products x x)).flat i := by
  have h := sq_combination_le ht hshape hx hx hi 1 0
  linarith

end Variance

/-! ### Sample smoothers -/

/-- A smoother that weighs all pixels of a window alike. -/
noncomputable def evenSmoother (g : Geometry) : Smoother ℝ where
  operator := ⟨.smoother, "torch", {}⟩
  options := g.gaussian .null
  table := fill [g.kernel.1, g.kernel.2] ((g.kernel.1 * g.kernel.2 : ℕ) : ℝ)⁻¹

theorem shape_fill (shape : List ℕ) (x : ℝ) : (fill shape x).shape = shape := rfl

theorem flat_fill {shape : List ℕ} {i : ℕ} (hi : i < volume shape) (x : ℝ) : (fill shape x).flat i = x :=
  flat_ofFlat hi

theorem sound_evenSmoother (g : Geometry) : (evenSmoother g).Sound := by
  intro g' hg
  have options : (evenSmoother g).options = g.gaussian .null := rfl
  rw [Smoother.geometry_gaussian options] at hg
  obtain rfl := Except.ok.inj hg
  rfl

theorem weighs_evenSmoother (g : Geometry) : (evenSmoother g).table.Weighs := by
  have hsize : (evenSmoother g).table.size = g.kernel.1 * g.kernel.2 := by
    show volume [g.kernel.1, g.kernel.2] = _
    simp
  have hflat : ∀ i < (evenSmoother g).table.size, (evenSmoother g).table.flat i =
      ((g.kernel.1 * g.kernel.2 : ℕ) : ℝ)⁻¹ := fun i hi => flat_fill hi _
  refine ⟨flat_nonneg fun i hi => ?_, ?_⟩
  · rw [hflat i hi]
    exact inv_nonneg.mpr (Nat.cast_nonneg _)
  · rw [sum_eq_sum_flat, sum_congr rfl fun i hi => hflat i (mem_range.mp hi), sum_const, card_range,
      hsize, nsmul_eq_mul]
    exact mul_inv_le_one

/-- Windows of two by two pixels, two rows apart, with a border of one column. -/
def sampleGeometry : Geometry where
  kernel := (2, 2)
  stride := (2, 1)
  pad := (0, 1)
  kernel_pos := by decide
  stride_pos := by decide

def squareWindows (size pad : ℕ) (h : 0 < size) : Geometry :=
  ⟨(size, size), (1, 1), (pad, pad), ⟨h, h⟩, by decide⟩

/-- The smoother of a geometry, its deviation being that of the size of the windows. -/
noncomputable def sampleSmoother (g : Geometry) : Smoother ℝ where
  operator := ⟨.smoother, "torch", {}⟩
  options := g.gaussian .null
  table := gaussianTable g.kernel.1 g.kernel.2 (middle g.kernel.1, middle g.kernel.2)
    (footprintDeviation g.kernel.1 g.kernel.2) true

end SteeredConv
