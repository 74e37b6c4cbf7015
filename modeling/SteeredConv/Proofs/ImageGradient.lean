/-
# Steering by the gradient of the image

Rows are counted downwards. When images are turned counter-clockwise, the vectors of their gradient maps
turn so that their angles decrease, while the rotations of a kernel turn counter-clockwise as the angle
increases. A kernel that is steered by the gradient of the batch itself therefore turns against the
image: the output for the turned batch is the turned output for the kernel turned by a half turn.

Key definitions: `rowPulse`, `tapKernel`.
Key theorems: `gradientMap_turnedImage`, `kernel_turns_against_image`, `output_does_not_turn_with_image`.
-/
import SteeredConv.Proofs.Equivariance
import SteeredConv.Gradient

namespace SteeredConv

open Finset Tensor

/-! ### The gradient map of turned images -/

section GradientMaps

variable {x m : Tensor ℝ} {N C H W : ℕ}

theorem shape_channelMean (hx : x.shape = [N, C, H, W]) : (channelMean x).shape = [N, 1, H, W] := by
  obtain ⟨x0, -, x2, x3⟩ := extents hx
  unfold channelMean
  rw [x0, x2, x3, shape_ofImages]

theorem at4_channelMean (hx : x.shape = [N, C, H, W]) {n i j : ℕ} (hn : n < N) (hi : i < H) (hj : j < W) :
    (channelMean x).at4 n 0 i j = (∑ c ∈ range C, x.at4 n c i j) / C := by
  obtain ⟨x0, x1, x2, x3⟩ := extents hx
  unfold channelMean
  rw [x0, x1, x2, x3, at4_ofImages hn Nat.one_pos hi hj, sumTo_eq_sum]

theorem channelMean_turnedImage (hx : x.shape = [N, C, H, W]) :
    channelMean (turnedImage x) = turnedImage (channelMean x) := by
  have hx' := shape_turnedImage hx
  have hm := shape_channelMean hx
  refine ext_at4 (shape_channelMean hx') (shape_turnedImage hm) fun n hn c hc i hi j hj => ?_
  obtain rfl : c = 0 := by omega
  rw [at4_turnedImage hm hn hc hi hj, at4_channelMean hx' hn hi hj, at4_channelMean hx hn hj (by omega)]
  congr 1
  refine sum_congr rfl fun c hc => ?_
  rw [at4_turnedImage hx hn (mem_range.mp hc) hi hj]

theorem averaging_mirror {a : ℕ} (ha : a < 3) : (averaging (2 - a) : ℝ) = averaging a := by
  interval_cases a <;> rfl

theorem differencing_mirror {b : ℕ} (hb : b < 3) : (differencing (2 - b) : ℝ) = -differencing b := by
  unfold differencing
  interval_cases b <;> norm_num

theorem at4_gradientKernels {component : ℕ} (h : component < 2) {t : ℕ × ℕ} (ht : t ∈ cells (3, 3)) :
    (gradientKernels : Tensor ℝ).at4 component 0 t.1 t.2 = gradientTap component t.1 t.2 := by
  obtain ⟨h1, h2⟩ := mem_cells.mp ht
  exact at4_ofImages h Nat.one_pos h1 h2

/-- Three quarter turns of the gradient kernels exchange them and change the sign of one. -/
theorem gradientKernels_turned {t : ℕ × ℕ} (ht : t ∈ cells (3, 3)) :
    (turned 3 gradientKernels : Tensor ℝ).at4 0 0 t.1 t.2 = (gradientKernels : Tensor ℝ).at4 1 0 t.1 t.2 ∧
      (turned 3 gradientKernels : Tensor ℝ).at4 1 0 t.1 t.2 = -(gradientKernels : Tensor ℝ).at4 0 0 t.1 t.2 := by
  have hkernels : (gradientKernels : Tensor ℝ).shape = [2, 1, 3, 3] := rfl
  obtain ⟨a, b⟩ := t
  obtain ⟨ha, hb⟩ := mem_cells.mp ht
  dsimp only at ha hb
  have hsource : turnedSource 3 3 (a, b) = (2 - b, a) := by
    simp only [turnedSource, quarterSource]
    exact Prod.ext rfl (by dsimp only; omega)
  have hmem : turnedSource 3 3 (a, b) ∈ cells (3, 3) := turnedSource_mem ht
  rw [at4_turned hkernels 3 (by decide) (by decide) ht, at4_turned hkernels 3 (by decide) (by decide) ht,
    at4_gradientKernels (by decide) hmem, at4_gradientKernels (by decide) hmem, at4_gradientKernels (by decide) ht,
    at4_gradientKernels (by decide) ht, hsource]
  unfold gradientTap
  dsimp only
  rw [averaging_mirror hb, differencing_mirror hb]
  constructor
  · rfl
  · simp only [if_neg one_ne_zero, if_true]
    ring

theorem shape_correlate_around {w : Tensor ℝ} (hm : m.shape = [N, 1, H, W]) (hw : w.shape = [2, 1, 3, 3]) :
    (correlate around 1 m w).shape = [N, 2, H, W] := by
  rw [shape_cotangent (shape_correlate around 1 m w) hm hw]
  show [N, 2, windows H 3 1 1, windows W 3 1 1] = _
  rw [windows_around, windows_around]

/-- The vectors of a correlation with two kernels of three rows and columns. -/
theorem vectorAt_correlate_around {w : Tensor ℝ} (hm : m.shape = [N, 1, H, W]) (hw : w.shape = [2, 1, 3, 3])
    {n i j : ℕ} (hn : n < N) (hi : i < H) (hj : j < W) : vectorAt (correlate around 1 m w) n i j =
      ∑ t ∈ cells (3, 3), m.padded (1, 1) n 0 (i + t.1) (j + t.2) • (w.at4 0 0 t.1 t.2, w.at4 1 0 t.1 t.2) := by
  have hgrid : around.grid (3, 3) (H, W) = (H, W) := Prod.ext (windows_around H) (windows_around W)
  have hcell : (i, j) ∈ cells (around.grid (3, 3) (H, W)) := by
    rw [hgrid]
    exact mem_cells.mpr ⟨hi, hj⟩
  have h0 : (correlate around 1 m w).at4 n 0 i j = _ := at4_correlate hm hw hn (by decide) hcell
  have h1 : (correlate around 1 m w).at4 n 1 i j = _ := at4_correlate hm hw hn (by decide) hcell
  unfold vectorAt
  rw [h0, h1, sum_range_one, sum_range_one]
  have hsweep : around.pad = (1, 1) ∧ around.stride = (1, 1) := ⟨rfl, rfl⟩
  rw [hsweep.1, hsweep.2]
  refine Prod.ext ?_ ?_ <;> simp [Prod.fst_sum, Prod.snd_sum]

theorem quarterTurn_zpow_neg_one (v : ℝ × ℝ) : (quarterTurn ^ (-1 : ℤ)) v = (v.2, -v.1) := by
  rw [zpow_neg_one]
  exact quarterTurn_symm_apply v

/-- The gradient map of turned images is the turned gradient map, its vectors turned backwards. -/
theorem gradientMap_turnedImage (hx : x.shape = [N, C, H, W]) :
    gradientMap (turnedImage x) = turnedVectors (-1) (turnedImage (gradientMap x)) := by
  have hkernels : (gradientKernels : Tensor ℝ).shape = [2, 1, 3, 3] := rfl
  have hback : (turned 3 gradientKernels : Tensor ℝ).shape = [2, 1, 3, 3] := hkernels
  have hm := shape_channelMean hx
  have hmap : (gradientMap x).shape = [N, 2, H, W] := shape_correlate_around hm hkernels
  have hmap' := shape_turnedImage hmap
  -- the kernels are those turned backwards, turned forwards again
  have hturned : gradientMap (turnedImage x) =
      turnedImage (correlate around 1 (channelMean x) (turned 3 gradientKernels)) := by
    have hround : turned 1 (turned 3 gradientKernels) = (gradientKernels : Tensor ℝ) := by
      have hfull : (3 + 1) % 4 = 0 := rfl
      rw [turned_turned hkernels, ← turned_mod hkernels, hfull, turned_zero hkernels]
    unfold gradientMap
    rw [channelMean_turnedImage hx, ← correlate_turned (p := 1) ⟨rfl, rfl⟩ hm hback, hround]
  have hshape := shape_correlate_around hm hback
  refine ext_vectorAt (by rw [hturned, shape_turnedImage hshape]) (shape_mapVectors _ hmap') fun n hn i hi j hj => ?_
  have hsource : W - 1 - i < W := by omega
  have hgradient : vectorAt (gradientMap x) n j (W - 1 - i) = _ :=
    vectorAt_correlate_around hm hkernels hn hj hsource
  rw [hturned, vectorAt_turnedImage hshape hn hi hj, vectorAt_correlate_around hm hback hn hj hsource,
    vectorAt_turnedVectors (-1) hmap', vectorAt_turnedImage hmap hn hi hj, hgradient, map_sum]
  refine sum_congr rfl fun t ht => ?_
  obtain ⟨hfirst, hsecond⟩ := gradientKernels_turned ht
  rw [map_smul, quarterTurn_zpow_neg_one, hfirst, hsecond]

end GradientMaps

/-! ### The output for turned images -/

section Layer

variable {e : Estimator ℝ} {g : Geometry} {groups : ℕ} {x map w : Tensor ℝ} {bias : Option (Tensor ℝ)}

/-- A batch has a gradient map exactly if its images have pixels. -/
theorem gradientMap?_eq_ok_iff {N C H W : ℕ} (hx : x.shape = [N, C, H, W]) :
    gradientMap? x = .ok map ↔ (0 < H ∧ 0 < W) ∧ gradientMap x = map := by
  obtain ⟨x0, -, x2, x3⟩ := Tensor.extents hx
  have hpixels : Correlates around 1 [N, 1, H, W] [2, 1, 3, 3] ↔ 0 < H ∧ 0 < W := by
    unfold Correlates around
    dsimp only
    omega
  unfold gradientMap?
  rw [x0, x2, x3]
  split_ifs with h
  · rw [Except.ok.injEq, and_iff_right (hpixels.mp h)]
  · exact ⟨nofun, fun hmap => absurd (hpixels.mpr hmap.1) h⟩

theorem gradientMap?_turnedImage {N C H W : ℕ} (hx : x.shape = [N, C, H, W]) (hmap : gradientMap? x = .ok map) :
    gradientMap? (turnedImage x) = .ok (turnedVectors (-1) (turnedImage map)) := by
  obtain ⟨hpixels, rfl⟩ := (gradientMap?_eq_ok_iff hx).mp hmap
  rw [gradientMap?_eq_ok_iff (shape_turnedImage hx)]
  exact ⟨hpixels.symm, gradientMap_turnedImage hx⟩

theorem Accepted.passTurns_back {sigma : Value} {globals : GlobalOptions}
    (h : Accepted e g groups x map w bias) (he : (Estimator.create (g.gaussian sigma) globals).Gives e)
    (hstride : g.stride = (1, 1)) (hpad : g.pad.1 = g.pad.2) :
    PassTurns e g groups x map (turned 2 w) w bias (-1) := by
  have hturns := h.passTurns (isEven_of_geometry hstride hpad) (h.isRound he) (-1)
  have hhalf : turnsOf (-1 - 1) = 2 := by decide
  rwa [hhalf] at hturns

/-- Steered by the gradient of the batch, the output for the turned batch is at every window with a
smoothed gradient that is not zero the turned output for the kernel turned by a half turn. -/
theorem kernel_turns_against_image {sigma : Value} {globals : GlobalOptions}
    (he : (Estimator.create (g.gaussian sigma) globals).Gives e) (h : Accepted e g groups x map w bias)
    (hmap : gradientMap? x = .ok map) (hstride : g.stride = (1, 1)) (hpad : g.pad.1 = g.pad.2) :
    gradientMap? (turnedImage x) = .ok (turnedVectors (-1) (turnedImage map)) ∧
      PassTurns e g groups x map (turned 2 w) w bias (-1) := by
  obtain ⟨_, _, _, _, _, _, hx, -, -, -⟩ := h.extents
  exact ⟨gradientMap?_turnedImage hx hmap, h.passTurns_back he hstride hpad⟩

end Layer

/-! ### An image that the output does not turn with -/

section Pulse

theorem gaussianWeight_pos {sigma : ℝ} (hs : sigma ≠ 0) (dh dw : ℝ) : 0 < gaussianWeight sigma dh dw := by
  have hspread : 0 < sigma * sigma := mul_self_pos.mpr hs
  have hpi : (0 : ℝ) < Scalar.pi := Real.pi_pos
  unfold gaussianWeight
  rw [two_real]
  exact div_pos (Real.exp_pos _) (by positivity)

theorem sum_rawTable_pos {sigma : ℝ} (hs : sigma ≠ 0) {rows cols : ℕ} (hr : 0 < rows) (hc : 0 < cols)
    (centre : ℝ × ℝ) : 0 < (rawTable rows cols centre sigma).sum := by
  have hpos : 0 < volume [rows, cols] := by simpa using ⟨hr, hc⟩
  rw [sum_eq_sum_flat]
  refine sum_pos (fun i hi => ?_) ⟨0, mem_range.mpr hpos⟩
  unfold rawTable
  rw [flat_ofFlat (by exact mem_range.mp hi)]
  exact gaussianWeight_pos hs _ _

theorem at2_gaussianTable_pos {rows cols a b : ℕ} {sigma : ℝ} (hs : sigma ≠ 0) (ha : a < rows) (hb : b < cols) :
    0 < (gaussianTable rows cols (middle rows, middle cols) sigma true).at2 a b := by
  rw [at2_gaussianTable ha hb]
  exact div_pos (gaussianWeight_pos hs _ _) (sum_rawTable_pos hs (Nat.zero_lt_of_lt ha) (Nat.zero_lt_of_lt hb) _)

theorem slotWeight_zero {r : ℕ} (hr : r < 4) : slotWeight (0 : ℝ) r = if r = 0 then 1 else 0 := by
  have hposition : quarterTurns (0 : ℝ) = 2 := by
    rw [quarterTurns_eq, zero_div, zero_add]
  rw [slotWeight_eq_weightAt, hposition, weightAt_eq (k := 2) (by decide) hr (by norm_num) (by norm_num)]
  interval_cases r <;> norm_num

theorem heading_level {c : ℝ} (hc : 0 < c) : heading (c, 0) = 0 := by
  have h := heading_of_polar hc (θ := 0) ⟨neg_lt_zero.mpr Real.pi_pos, Real.pi_pos.le⟩
  rwa [Real.cos_zero, Real.sin_zero, mul_one, mul_zero] at h

/-- Where a smoothed gradient points to the right, the response is that to the kernel itself. -/
theorem blended_level {s : Sweep} {groups N B P H W k : ℕ} {x w t : Tensor ℝ} {bias : Option (Tensor ℝ)}
    (ext : Extents s groups x w bias (interpolationWeights (angles t)) N B P H W k)
    (ht : t.shape = [N, 2, (s.grid (k, k) (H, W)).1, (s.grid (k, k) (H, W)).2]) {n o i j : ℕ} (hn : n < N)
    (ho : o < groups * P) (hp : (i, j) ∈ cells (s.grid (k, k) (H, W))) {c : ℝ} (hc : 0 < c)
    (hvector : vectorAt t n i j = (c, 0)) :
    (blended s groups x w (interpolationWeights (angles t))).at4 n o i j = (correlate s groups x w).at4 n o i j := by
  obtain ⟨hi, hj⟩ := mem_cells.mp hp
  have hweight : ∀ r < 4, (interpolationWeights (angles t : Tensor ℝ)).at4 n r i j = if r = 0 then 1 else 0 :=
    fun r hr => by rw [at4_weights ht hn hr hi hj, hvector, heading_level hc, slotWeight_zero hr]
  rw [ext.at4_blended hn ho hi hj, sum_eq_single_of_mem 0 (by decide)]
  · rw [hweight 0 (by decide), if_pos rfl, mul_one, turned_zero ext.kernel]
  · intro r hr hne
    rw [hweight r (mem_range.mp hr), if_neg hne, mul_zero]

/-- An image of one row, black on the left and white on the right. -/
def rowPulse : Tensor ℝ := ofImages 1 1 1 2 fun _ _ _ j => if j = 1 then 1 else 0

/-- A kernel that reads the pixel on the right. -/
def tapKernel : Tensor ℝ := ofImages 1 1 3 3 fun _ _ a b => if a = 1 ∧ b = 2 then 1 else 0

theorem padded_rowPulse (h w : ℕ) : rowPulse.padded (1, 1) 0 0 h w = if h = 1 ∧ w = 2 then 1 else 0 := by
  have hshape : rowPulse.shape = [1, 1, 1, 2] := rfl
  unfold padded
  by_cases hin : (1 ≤ h ∧ 1 ≤ w) ∧ h - 1 < 1 ∧ w - 1 < 2
  · obtain ⟨hborder, hh, hw⟩ := hin
    have hentry : rowPulse.at4 0 0 (h - 1) (w - 1) = if w - 1 = 1 then 1 else 0 :=
      at4_ofImages Nat.one_pos Nat.one_pos hh hw
    rw [if_pos hborder, hentry]
    congr 1
    exact propext ⟨fun _ => by omega, fun _ => by omega⟩
  · rw [if_neg (by omega : ¬(h = 1 ∧ w = 2))]
    split_ifs with hborder
    · exact at4_of_not hshape (by omega)
    · rfl

theorem channelMean_rowPulse : channelMean rowPulse = rowPulse := by
  have hshape : rowPulse.shape = [1, 1, 1, 2] := rfl
  refine ext_at4 (shape_channelMean hshape) hshape fun n hn c hc i hi j hj => ?_
  obtain rfl : c = 0 := by omega
  rw [at4_channelMean hshape hn hi hj]
  simp

/-- The gradient points to the right at the left pixel, and is zero at the right one. -/
theorem gradientMap_rowPulse : vectorAt (gradientMap rowPulse) 0 0 0 = (4⁻¹, 0) ∧
    vectorAt (gradientMap rowPulse) 0 0 1 = 0 := by
  have hshape : rowPulse.shape = [1, 1, 1, 2] := rfl
  have hvector : ∀ j < 2, vectorAt (gradientMap rowPulse) 0 0 j = ∑ t ∈ cells (3, 3),
      (if 0 + t.1 = 1 ∧ j + t.2 = 2 then (1 : ℝ) else 0) •
        ((gradientTap 0 t.1 t.2 : ℝ), (gradientTap 1 t.1 t.2 : ℝ)) := by
    intro j hj
    unfold gradientMap
    rw [channelMean_rowPulse, vectorAt_correlate_around hshape rfl Nat.one_pos Nat.one_pos hj]
    refine sum_congr rfl fun t ht => ?_
    rw [padded_rowPulse, at4_gradientKernels (by decide) ht, at4_gradientKernels (by decide) ht]
  rw [hvector 0 (by decide), hvector 1 (by decide)]
  constructor
  · simp [cells, sum_product, sum_range_succ, gradientTap, averaging, differencing]
    norm_num
  · simp [cells, sum_product, sum_range_succ, gradientTap, averaging, differencing]

theorem isEven_squareWindows : (squareWindows 3 1 (by decide)).sweep.IsEven 1 := ⟨rfl, rfl⟩

theorem grid_squareWindows : (squareWindows 3 1 (by decide)).sweep.grid (3, 3) (1, 2) = (1, 2) := by decide

theorem firstWindow_mem : ((0, 0) : ℕ × ℕ) ∈ cells ((squareWindows 3 1 (by decide)).sweep.grid (3, 3) (1, 2)) := by
  rw [grid_squareWindows]
  decide

theorem footprint_sampleEstimator : sampleEstimator.smoother.table.footprint = (3, 3) := by
  have hshape : sampleEstimator.smoother.table.shape = [3, 3] := shape_gaussianTable _ _ _ _ _
  unfold footprint extent
  rw [hshape]
  rfl

theorem shape_gradientMap_rowPulse : (gradientMap rowPulse).shape = [1, 2, 1, 2] :=
  shape_correlate_around (shape_channelMean rfl) rfl

theorem accepted_rowPulse {v : Tensor ℝ} (hv : v.shape = [1, 1, 3, 3]) :
    Accepted sampleEstimator (squareWindows 3 1 (by decide)) 1 rowPulse (gradientMap rowPulse) v none :=
  accepted_sampleEstimator rfl shape_gradientMap_rowPulse hv

/-- At the left pixel the smoothed gradient still points to the right. -/
theorem smoothed_rowPulse : ∃ c : ℝ, 0 < c ∧ vectorAt (windowAverage (squareWindows 3 1 (by decide)).sweep
    sampleEstimator.smoother.table (gradientMap rowPulse)) 0 0 0 = (c, 0) := by
  have hmap := shape_gradientMap_rowPulse
  have hdeviation : (footprintDeviation 3 3 : ℝ) ≠ 0 := by
    unfold footprintDeviation
    norm_num
  set table := sampleEstimator.smoother.table with htable
  have hcentre : 0 < table.at2 1 1 := at2_gaussianTable_pos hdeviation (by decide) (by decide)
  have hfoot : table.footprint = (3, 3) := footprint_sampleEstimator
  have hcell : ((0, 0) : ℕ × ℕ) ∈ cells ((squareWindows 3 1 (by decide)).sweep.grid table.footprint (1, 2)) := by
    rw [hfoot]
    exact firstWindow_mem
  obtain ⟨hleft, hright⟩ := gradientMap_rowPulse
  -- only the middle of the window lies on a gradient that is not zero
  have hpadded : ∀ u ∈ cells (3, 3), u ≠ (1, 1) →
      paddedVector (gradientMap rowPulse) (1, 1) 0 (0 * 1 + u.1) (0 * 1 + u.2) = 0 := by
    rintro ⟨a, b⟩ hu hne
    obtain ⟨ha, hb⟩ := mem_cells.mp hu
    dsimp only at ha hb
    unfold paddedVector padded
    dsimp only
    rw [Nat.zero_mul, Nat.zero_add, Nat.zero_add]
    split_ifs with hin
    · show vectorAt (gradientMap rowPulse) 0 (a - 1) (b - 1) = 0
      by_cases hrow : a = 1
      · have hb2 : b = 2 := by
          have : b ≠ 1 := fun hb1 => hne (by rw [hrow, hb1])
          omega
        rw [hrow, hb2]
        exact hright
      · exact vectorAt_of_not hmap (by omega)
    · rfl
  refine ⟨table.at2 1 1 * 4⁻¹, by positivity, ?_⟩
  have haverage :
      vectorAt (windowAverage (squareWindows 3 1 (by decide)).sweep table (gradientMap rowPulse)) 0 0 0 = _ :=
    vectorAt_windowAverage hmap Nat.one_pos hcell
  rw [haverage, hfoot, isEven_squareWindows.stride, isEven_squareWindows.pad]
  dsimp only
  rw [sum_eq_single_of_mem (1, 1) (by decide) fun u hu hne => by rw [hpadded u hu hne, smul_zero]]
  have hmiddle : paddedVector (gradientMap rowPulse) (1, 1) 0 (0 * 1 + 1) (0 * 1 + 1) = (4⁻¹, 0) := hleft
  rw [hmiddle]
  exact Prod.ext rfl (mul_zero _)

/-- At the left pixel a kernel responds with what it reads on the right. -/
theorem correlate_rowPulse {v : Tensor ℝ} (hv : v.shape = [1, 1, 3, 3]) :
    (correlate (squareWindows 3 1 (by decide)).sweep 1 rowPulse v).at4 0 0 0 0 = v.at4 0 0 1 2 := by
  have hresponse : (correlate (squareWindows 3 1 (by decide)).sweep 1 rowPulse v).at4 0 0 0 0 = _ :=
    at4_correlate (show rowPulse.shape = [1, 1, 1, 2] from rfl) hv Nat.one_pos Nat.one_pos firstWindow_mem
  have hpixel : ∀ t : ℕ × ℕ, rowPulse.padded (1, 1) 0 (0 / (1 * 1 / 1) * 1 + 0) (0 * 1 + t.1) (0 * 1 + t.2) =
      if t = (1, 2) then 1 else 0 := fun t => by
    refine (padded_rowPulse _ _).trans ?_
    rw [Nat.zero_mul, Nat.zero_add, Nat.zero_add]
    exact if_congr (Prod.ext_iff (x := t) (y := (1, 2))).symm rfl rfl
  rw [hresponse, sum_range_one, isEven_squareWindows.stride, isEven_squareWindows.pad]
  dsimp only
  rw [sum_eq_single_of_mem (1, 2) (by decide) fun t _ hne => by rw [hpixel, if_neg hne, zero_mul], hpixel,
    if_pos rfl, one_mul]

/-- The output at the left pixel is what the kernel reads on the right. -/
theorem output_rowPulse {v y : Tensor ℝ} {o : Orientation ℝ ℝ} {q : ForwardPass ℝ} (hv : v.shape = [1, 1, 3, 3])
    (h : forwardPass sampleEstimator (squareWindows 3 1 (by decide)).sweep 1 rowPulse (gradientMap rowPulse) v none =
      .ok (o, y, q)) : y.shape = [1, 1, 1, 2] ∧ o.smoothed.shape = [1, 2, 1, 2] ∧
        vectorAt o.smoothed 0 0 0 ≠ 0 ∧ y.at4 0 0 0 0 = v.at4 0 0 1 2 := by
  have hrow : rowPulse.shape = [1, 1, 1, 2] := rfl
  have hacc := accepted_rowPulse hv
  obtain ⟨o', q', horient⟩ := hacc.exists_orient
  obtain ⟨-, hpass⟩ := hacc.forwardPass_eq horient
  rw [h] at hpass
  obtain ⟨rfl, rfl, -⟩ : o = o' ∧ y = _ ∧ _ := by simpa using hpass
  obtain ⟨hsmooth, -, rfl, -⟩ := orient_eq_ok horient (extents shape_gradientMap_rowPulse).2.1
  rw [Smoother.smooth_eq hacc.accepts_map, Except.ok.injEq, map_narrow_real] at hsmooth
  have hsm : o.smoothed.shape = [1, 2, 1, 2] := by
    obtain ⟨m0, m1, -, -⟩ := extents shape_gradientMap_rowPulse
    rw [← hsmooth, shape_windowAverage, m0, m1, footprint_sampleEstimator, area_batch shape_gradientMap_rowPulse,
      grid_squareWindows]
  have ext : Extents (squareWindows 3 1 (by decide)).sweep 1 rowPulse v none
      (interpolationWeights (angles o.smoothed)) 1 1 1 1 2 3 := by
    refine ⟨hrow, hv, by simp, ?_, by decide, by decide⟩
    rw [(interpolationWeights_eq (shape_angles hsm)).2, grid_squareWindows]
  obtain ⟨c, hc, hvector⟩ := smoothed_rowPulse
  rw [hsmooth] at hvector
  refine ⟨by rw [ext.shape_steered, grid_squareWindows], hsm, ?_, ?_⟩
  · rw [hvector]
    exact fun hzero => hc.ne' (congrArg Prod.fst hzero)
  · show (blended _ _ _ _ _).at4 0 0 0 0 = _
    rw [blended_level ext (by rw [grid_squareWindows]; exact hsm) Nat.one_pos Nat.one_pos firstWindow_mem hc hvector,
      correlate_rowPulse hv]

theorem gradientMap?_rowPulse : gradientMap? rowPulse = .ok (gradientMap rowPulse) :=
  (gradientMap?_eq_ok_iff (N := 1) (C := 1) (H := 1) (W := 2) rfl).mpr ⟨by decide, rfl⟩

theorem kernel_turns_against_image_rowPulse :
    gradientMap? (turnedImage rowPulse) = .ok (turnedVectors (-1) (turnedImage (gradientMap rowPulse))) ∧
      PassTurns sampleEstimator (squareWindows 3 1 (by decide)) 1 rowPulse (gradientMap rowPulse)
        (turned 2 tapKernel) tapKernel none (-1) :=
  kernel_turns_against_image create_sampleEstimator (accepted_rowPulse rfl) gradientMap?_rowPulse rfl rfl

/-- Steered by its own gradient the output does not turn with the image, not even where the smoothed
gradient is not zero: for the image that is white on the right and the kernel that reads on the right the
turned output is one where the output for the turned image is zero. -/
theorem output_does_not_turn_with_image :
    ∃ (map map' y y' : Tensor ℝ) (o o' : Orientation ℝ ℝ) (q q' : ForwardPass ℝ),
      gradientMap? rowPulse = .ok map ∧ gradientMap? (turnedImage rowPulse) = .ok map' ∧
      forwardPass sampleEstimator (squareWindows 3 1 (by decide)).sweep 1 rowPulse map tapKernel none =
        .ok (o, y, q) ∧
      forwardPass sampleEstimator (squareWindows 3 1 (by decide)).sweep 1 (turnedImage rowPulse) map' tapKernel
        none = .ok (o', y', q') ∧
      vectorAt o'.smoothed 0 1 0 ≠ 0 ∧ (turnedImage y).at4 0 0 1 0 = 1 ∧ y'.at4 0 0 1 0 = 0 := by
  have hkernel : tapKernel.shape = [1, 1, 3, 3] := rfl
  have hhalf : (turned 2 tapKernel).shape = [1, 1, 3, 3] := hkernel
  have hacc := accepted_rowPulse hkernel
  have hmap' := gradientMap?_turnedImage (N := 1) (C := 1) (H := 1) (W := 2) rfl gradientMap?_rowPulse
  obtain ⟨o, o', z, y', q, q', hpass, hpass', hsmoothed, -, hat⟩ :=
    hacc.passTurns_back create_sampleEstimator rfl rfl
  obtain ⟨_, _, horient⟩ := hacc.exists_orient
  obtain ⟨-, hplain⟩ := hacc.forwardPass_eq horient
  obtain ⟨hy, -, -, htap⟩ := output_rowPulse hkernel hplain
  obtain ⟨hz, hsm, hvector, hback⟩ := output_rowPulse hhalf hpass
  have hnonzero : vectorAt o'.smoothed 0 1 0 ≠ 0 := by
    have hsource : vectorAt (turnedImage o.smoothed) 0 1 0 = vectorAt o.smoothed 0 0 0 :=
      vectorAt_turnedImage hsm Nat.one_pos (by decide) Nat.one_pos
    rw [hsmoothed, vectorAt_turnedVectors_ne_zero (shape_turnedImage hsm), hsource]
    exact hvector
  refine ⟨_, _, _, y', _, o', _, q', gradientMap?_rowPulse, hmap', hplain, hpass', hnonzero, ?_, ?_⟩
  · have hleft : (turnedImage _).at4 0 0 1 0 = _ := at4_turnedImage hy Nat.one_pos Nat.one_pos (by decide) Nat.one_pos
    rw [hleft]
    exact htap.trans (at4_ofImages Nat.one_pos Nat.one_pos (by decide) (by decide))
  · have hleft : (turnedImage z).at4 0 0 1 0 = _ := at4_turnedImage hz Nat.one_pos Nat.one_pos (by decide) Nat.one_pos
    have hentry : (turned 2 tapKernel).at4 0 0 1 2 = _ :=
      at4_turned hkernel 2 Nat.one_pos Nat.one_pos (p := (1, 2)) (by decide)
    rw [hat 0 1 0 hnonzero, hleft]
    refine hback.trans (hentry.trans ?_)
    exact (at4_ofImages (h := 1) (w := 0) Nat.one_pos Nat.one_pos (by decide) (by decide)).trans (if_neg (by decide))

end Pulse
end SteeredConv
