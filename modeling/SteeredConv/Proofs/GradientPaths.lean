/-
# The two computations of the gradient map

Skipping the taps whose weight is zero changes nothing, at the borders and at images of one row or column
either: both computations read the pixels around each pixel, zero outside the image. The weights of a
component add up to zero, their moment along the axis of the component is one and along the other axis
zero, so that at a pixel whose neighbours all lie on the image the map of an affine image is its slope.

Key definitions: `gradientTaps`, `meanAt`, `gradientAt`, `Affine`, `meanOver`.
Key theorems: `gradientMapSparse_eq`, `vectorAt_gradientMap`, `sum_gradientTaps_affine`, `gradient_paths_agree`.
-/
import SteeredConv.Proofs.EffectiveKernels
import SteeredConv.Proofs.ImageGradient

namespace SteeredConv

open Finset Tensor

section Paths

variable {x : Tensor ℝ} {N C H W n i j : ℕ}

/-- The weights of both components in a tap. -/
noncomputable def gradientTaps (t : ℕ × ℕ) : ℝ × ℝ := (gradientTap 0 t.1 t.2, gradientTap 1 t.1 t.2)

/-- The mean over the channels of the pixel of sample `n` in the given row and column, zero outside the image. -/
noncomputable def meanAt (x : Tensor ℝ) (n : ℕ) (u : ℤ × ℤ) : ℝ :=
  if Inside x.area u then (∑ c ∈ range (x.extent 1), x.at4 n c u.1.toNat u.2.toNat) / x.extent 1 else 0

/-- The gradient of sample `n` at pixel `p`: the means of the nine pixels around it times their weights. -/
noncomputable def gradientAt (x : Tensor ℝ) (n : ℕ) (p : ℕ × ℕ) : ℝ × ℝ :=
  ∑ t ∈ cells (3, 3), meanAt x n (around.tap p t) • gradientTaps t

theorem gradientAt_eq (x : Tensor ℝ) (n : ℕ) (p : ℕ × ℕ) : gradientAt x n p =
    (∑ t ∈ cells (3, 3), meanAt x n (around.tap p t) * gradientTap 0 t.1 t.2,
      ∑ t ∈ cells (3, 3), meanAt x n (around.tap p t) * gradientTap 1 t.1 t.2) := by
  unfold gradientAt
  refine Prod.ext ?_ ?_
  · rw [Prod.fst_sum]
    rfl
  · rw [Prod.snd_sum]
    rfl

theorem tap_around (p t : ℕ × ℕ) : around.tap p t = ((p.1 : ℤ) + t.1 - 1, (p.2 : ℤ) + t.2 - 1) := by
  unfold Sweep.tap around
  push_cast
  exact Prod.ext (by ring) (by ring)

/-- What a tap of the channel means reads. -/
theorem padded_channelMean (hx : x.shape = [N, C, H, W]) (hn : n < N) (p t : ℕ × ℕ) :
    (channelMean x).padded (1, 1) n 0 (p.1 + t.1) (p.2 + t.2) = meanAt x n (around.tap p t) := by
  have hread := padded_tap (s := around) (shape_channelMean hx) n 0 p t
  have hsweep : around.pad = (1, 1) ∧ around.stride = (1, 1) := ⟨rfl, rfl⟩
  rw [hsweep.1, hsweep.2] at hread
  dsimp only at hread
  rw [Nat.mul_one, Nat.mul_one] at hread
  obtain ⟨-, x1, -, -⟩ := extents hx
  unfold meanAt
  rw [hread, area_batch hx, x1]
  refine ite_congr rfl (fun hin => ?_) fun _ => rfl
  obtain ⟨⟨hrow, hrow'⟩, hcolumn, hcolumn'⟩ := hin
  exact at4_channelMean hx hn (by omega) (by omega)

/-- The map by whole kernels. -/
theorem vectorAt_gradientMap (hx : x.shape = [N, C, H, W]) (hn : n < N) (hi : i < H) (hj : j < W) :
    vectorAt (gradientMap x) n i j = gradientAt x n (i, j) := by
  refine (vectorAt_correlate_around (shape_channelMean hx) rfl hn hi hj).trans (sum_congr rfl fun t ht => ?_)
  rw [at4_gradientKernels (by decide) ht, at4_gradientKernels (by decide) ht, padded_channelMean hx hn (i, j)]
  rfl

/-- The map without the taps whose weight is zero. -/
theorem vectorAt_gradientMapSparse (hx : x.shape = [N, C, H, W]) (hn : n < N) (hi : i < H) (hj : j < W) :
    vectorAt (gradientMapSparse x) n i j = gradientAt x n (i, j) := by
  obtain ⟨x0, -, x2, x3⟩ := extents hx
  have hcomponent : ∀ component < 2, (gradientMapSparse x).at4 n component i j =
      ∑ t ∈ cells (3, 3), meanAt x n (around.tap (i, j) t) * gradientTap component t.1 t.2 := by
    intro component hlt
    unfold gradientMapSparse
    rw [x0, x2, x3, at4_ofImages hn hlt hi hj, sumTaps_eq_sum]
    refine sum_congr rfl fun t _ => ?_
    split_ifs with hzero
    · rw [beq_iff_eq.mp hzero, mul_zero]
    · rw [padded_channelMean hx hn (i, j)]
  rw [gradientAt_eq]
  exact Prod.ext (hcomponent 0 (by decide)) (hcomponent 1 (by decide))

/-- Both computations give one map. -/
theorem gradientMapSparse_eq (hx : x.shape = [N, C, H, W]) : gradientMapSparse x = gradientMap x := by
  obtain ⟨x0, -, x2, x3⟩ := extents hx
  have hsparse := shape_gradientMapSparse x
  have hmap := shape_gradientMap x
  rw [x0, x2, x3] at hsparse hmap
  refine ext_vectorAt hsparse hmap fun n hn i hi j hj => ?_
  rw [vectorAt_gradientMapSparse hx hn hi hj, vectorAt_gradientMap hx hn hi hj]

end Paths

/-! ### Affine images -/

section Slopes

variable {x : Tensor ℝ} {N C H W n : ℕ}

/-- Sample `n` of a batch is affine: channel `c` rises by `right c` for each column and by `down c` for each row. -/
def Affine (x : Tensor ℝ) (n : ℕ) (right down level : ℕ → ℝ) : Prop :=
  ∀ c i j, x.Holds n c i j → x.at4 n c i j = right c * j + down c * i + level c

noncomputable def meanOver (C : ℕ) (slope : ℕ → ℝ) : ℝ := (∑ c ∈ range C, slope c) / C

/-- The weights of the taps add up to zero, and their moments are one along the axis of the component and
zero along the other one. -/
theorem sum_gradientTaps_affine (a b d : ℝ) :
    ∑ t ∈ cells (3, 3), (a * t.2 + b * t.1 + d) • gradientTaps t = (a, b) := by
  refine Prod.ext ?_ ?_
  · simp [cells, sum_product, sum_range_succ, gradientTaps, gradientTap, averaging, differencing]
    ring
  · simp [cells, sum_product, sum_range_succ, gradientTaps, gradientTap, averaging, differencing]
    ring

/-- The channel means of an affine image are affine. -/
theorem meanAt_affine {right down level : ℕ → ℝ} (hx : x.shape = [N, C, H, W]) (hn : n < N)
    (h : Affine x n right down level) {u : ℤ × ℤ} (hu : Inside (H, W) u) :
    meanAt x n u = meanOver C right * u.2 + meanOver C down * u.1 + meanOver C level := by
  obtain ⟨x0, x1, x2, x3⟩ := extents hx
  obtain ⟨⟨hrow, hrow'⟩, hcolumn, hcolumn'⟩ := id hu
  have hpixel : ∀ c ∈ range C, x.at4 n c u.1.toNat u.2.toNat = right c * u.2 + down c * u.1 + level c := by
    intro c hc
    have hvalue := h c u.1.toNat u.2.toNat
      ⟨by rwa [x0], by rw [x1]; exact mem_range.mp hc, by rw [x2]; omega, by rw [x3]; omega⟩
    have hcastRow : ((u.1.toNat : ℕ) : ℝ) = u.1 := by exact_mod_cast Int.toNat_of_nonneg hrow
    have hcastColumn : ((u.2.toNat : ℕ) : ℝ) = u.2 := by exact_mod_cast Int.toNat_of_nonneg hcolumn
    rw [hvalue, hcastRow, hcastColumn]
  unfold meanAt meanOver
  rw [area_batch hx, if_pos hu, x1, sum_congr rfl hpixel, sum_add_distrib, sum_add_distrib, ← sum_mul, ← sum_mul]
  ring

/-- Where all neighbours of a pixel lie on the image, the gradient of an affine image is its mean slope. -/
theorem gradientAt_affine {right down level : ℕ → ℝ} (hx : x.shape = [N, C, H, W]) (hn : n < N)
    (h : Affine x n right down level) {p : ℕ × ℕ} (hrow : 0 < p.1 ∧ p.1 + 1 < H) (hcolumn : 0 < p.2 ∧ p.2 + 1 < W) :
    gradientAt x n p = (meanOver C right, meanOver C down) := by
  have hmean : ∀ t ∈ cells (3, 3), meanAt x n (around.tap p t) = meanOver C right * t.2 + meanOver C down * t.1 +
      (meanOver C right * (p.2 - 1) + meanOver C down * (p.1 - 1) + meanOver C level) := by
    intro t ht
    obtain ⟨ha, hb⟩ := mem_cells.mp ht
    have hinside : Inside (H, W) (around.tap p t) := by
      rw [tap_around]
      unfold Inside
      dsimp only at ha hb ⊢
      omega
    rw [meanAt_affine hx hn h hinside, tap_around]
    push_cast
    ring
  unfold gradientAt
  rw [sum_congr rfl fun t ht => congrArg (· • gradientTaps t) (hmean t ht), sum_gradientTaps_affine]

/-- A batch whose images have pixels has one gradient map, whichever computation is asked for. Its vectors are
the gradients at the pixels, and for an affine image they are its mean slopes at all pixels but the outermost. -/
theorem gradient_paths_agree (hx : x.shape = [N, C, H, W]) (hH : 0 < H) (hW : 0 < W) :
    ∃ m : Tensor ℝ, gradientBy false x = .ok m ∧ gradientBy true x = .ok m ∧ m.shape = [N, 2, H, W] ∧
      (∀ n < N, ∀ p ∈ cells (H, W), vectorAt m n p.1 p.2 = gradientAt x n p) ∧
      ∀ n < N, ∀ right down level : ℕ → ℝ, Affine x n right down level →
        ∀ i j, 0 < i ∧ i + 1 < H → 0 < j ∧ j + 1 < W →
          vectorAt m n i j = (meanOver C right, meanOver C down) := by
  obtain ⟨x0, -, x2, x3⟩ := extents hx
  have hwhole : gradientMap? x = .ok (gradientMap x) := (gradientMap?_eq_ok_iff hx).mpr ⟨⟨hH, hW⟩, rfl⟩
  have hsparse : (.ok (gradientMapSparse x) : Except Fault (Tensor ℝ)) = .ok (gradientMap x) := by
    rw [gradientMapSparse_eq hx]
  refine ⟨gradientMap x, hwhole, hsparse, ?_, fun n hn p hp => ?_, fun n hn right down level h i j hi hj => ?_⟩
  · rw [shape_gradientMap, x0, x2, x3]
  · obtain ⟨hi, hj⟩ := mem_cells.mp hp
    exact vectorAt_gradientMap hx hn hi hj
  · rw [vectorAt_gradientMap hx hn (by omega) (by omega)]
    exact gradientAt_affine hx hn h hi hj

/-- Two channels of three rows and columns that rise by different slopes. -/
def ramps : Tensor ℝ := ofImages 1 2 3 3 fun _ c i j => (((2 * c + 1) * j + c * i : ℕ) : ℝ)

theorem affine_ramps : Affine ramps 0 (fun c => 2 * c + 1) (fun c => c) fun _ => 0 := by
  rintro c i j ⟨-, hc, hi, hj⟩
  have hvalue : ramps.at4 0 c i j = _ := at4_ofImages Nat.one_pos hc hi hj
  rw [hvalue]
  push_cast
  ring

/-- In the middle of the two channels the gradient is the mean of their slopes. -/
theorem gradient_paths_agree_ramps : ∃ m : Tensor ℝ, gradientBy false ramps = .ok m ∧ gradientBy true ramps = .ok m ∧
    m.shape = [1, 2, 3, 3] ∧ vectorAt m 0 0 0 = gradientAt ramps 0 (0, 0) ∧ vectorAt m 0 1 1 = (2, 1 / 2) := by
  have hshape : ramps.shape = [1, 2, 3, 3] := rfl
  have hrows : 0 < 3 := by decide
  obtain ⟨m, hwhole, hsparse, hm, hpixels, hslopes⟩ := gradient_paths_agree hshape hrows hrows
  refine ⟨m, hwhole, hsparse, hm, hpixels 0 Nat.one_pos (0, 0) (by decide), ?_⟩
  have hmiddle := hslopes 0 Nat.one_pos _ _ _ affine_ramps 1 1 (by decide) (by decide)
  rw [hmiddle]
  unfold meanOver
  norm_num [sum_range_succ]

end Slopes
end SteeredConv
