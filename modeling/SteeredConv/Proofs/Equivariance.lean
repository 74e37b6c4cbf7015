/-
# Turned images

A batch whose images are turned by a quarter turn has, under turned kernels, turned correlations, as
long as the window moves in steps of one and the border is as wide on all sides. A Gaussian table is the
same from all four sides, so smoothing turns along as well. If the vectors of the gradient map turn
together with the images, the steered kernel turns with them.

Key definitions: `turnedImage`, `PassTurns`.
Key theorems: `correlate_turned`, `windowAverage_turned`, `forwardPass_turned`, `output_turns_with_image`.
-/
import SteeredConv.Proofs.Direction

namespace SteeredConv

open Finset Tensor

/-! ### Turned images -/

section Images

variable {R : Type} [CommSemiring R] {t u : Tensor R} {N C H W : ℕ}

/-- A batch whose images are turned by a quarter turn counter-clockwise. -/
def turnedImage (t : Tensor R) : Tensor R :=
  ofImages (t.extent 0) (t.extent 1) (t.extent 3) (t.extent 2) fun n c h w => t.at4 n c w (t.extent 3 - 1 - h)

theorem shape_turnedImage (ht : t.shape = [N, C, H, W]) : (turnedImage t).shape = [N, C, W, H] := by
  obtain ⟨t0, t1, t2, t3⟩ := extents ht
  unfold turnedImage
  rw [t0, t1, t2, t3, shape_ofImages]

theorem at4_turnedImage (ht : t.shape = [N, C, H, W]) {n c h w : ℕ} (hn : n < N) (hc : c < C) (hh : h < W)
    (hw : w < H) : (turnedImage t).at4 n c h w = t.at4 n c w (W - 1 - h) := by
  obtain ⟨t0, t1, t2, t3⟩ := extents ht
  unfold turnedImage
  rw [t0, t1, t2, t3, at4_ofImages hn hc hh hw]

/-- A turned image inside a border is the image inside that border, turned. -/
theorem padded_turnedImage (ht : t.shape = [N, C, H, W]) {p n c h w : ℕ} (hh : h < W + 2 * p) :
    (turnedImage t).padded (p, p) n c h w = t.padded (p, p) n c w (W + 2 * p - 1 - h) := by
  have hturned := shape_turnedImage ht
  unfold padded
  dsimp only
  by_cases hin : n < N ∧ c < C ∧ (p ≤ h ∧ h - p < W) ∧ (p ≤ w ∧ w - p < H)
  · obtain ⟨hn, hc, ⟨hph, hhW⟩, hpw, hwH⟩ := hin
    have hcolumn : W + 2 * p - 1 - h - p = W - 1 - (h - p) := by omega
    rw [if_pos ⟨hph, hpw⟩, if_pos ⟨hpw, by omega⟩, at4_turnedImage ht hn hc hhW hwH, hcolumn]
  · -- both pixels lie outside their images
    have hleft : p ≤ h ∧ p ≤ w → (turnedImage t).at4 n c (h - p) (w - p) = 0 := fun hp =>
      at4_of_not hturned (by omega)
    have hright : p ≤ w ∧ p ≤ W + 2 * p - 1 - h → t.at4 n c (w - p) (W + 2 * p - 1 - h - p) = 0 := fun hp =>
      at4_of_not ht (by omega)
    split_ifs with h1 h2 h2
    · rw [hleft h1, hright h2]
    · exact hleft h1
    · exact (hright h2).symm
    · rfl

theorem turnedImage_zipWith (f : R → R → R) (ht : t.shape = [N, C, H, W]) (hu : u.shape = [N, C, H, W]) :
    turnedImage (zipWith f t u) = zipWith f (turnedImage t) (turnedImage u) := by
  have hz : (zipWith f t u).shape = [N, C, H, W] := ht
  have ht' := shape_turnedImage ht
  refine ext_at4 (shape_turnedImage hz) ht' fun n hn c hc i hi j hj => ?_
  rw [at4_turnedImage hz hn hc hi hj, at4_zipWith ht hu hn hc hj (by omega),
    at4_zipWith ht' (shape_turnedImage hu) hn hc hi hj, at4_turnedImage ht hn hc hi hj,
    at4_turnedImage hu hn hc hi hj]

theorem turnedImage_fourfold {f : ℕ → Tensor R} (hf : ∀ r < 4, (f r).shape = [N, C, H, W]) :
    turnedImage (fourfold f) = fourfold fun r => turnedImage (f r) := by
  have h0 := hf 0 (by decide)
  unfold fourfold
  rw [turnedImage_zipWith _ (by exact h0) (hf 3 (by decide)), turnedImage_zipWith _ (by exact h0) (hf 2 (by decide)),
    turnedImage_zipWith _ h0 (hf 1 (by decide))]

theorem turnedImage_weighted {q : Tensor R} {M : ℕ} (ht : t.shape = [N, C, H, W]) (hq : q.shape = [N, M, H, W])
    {r : ℕ} (hr : r < M) : turnedImage (weighted t q r) = weighted (turnedImage t) (turnedImage q) r := by
  have hw := shape_weighted ht q r
  have ht' := shape_turnedImage ht
  refine ext_at4 (shape_turnedImage hw) (shape_weighted ht' _ r) fun n hn c hc i hi j hj => ?_
  rw [at4_turnedImage hw hn hc hi hj, at4_weighted ht q r hn hc hj (by omega),
    at4_weighted ht' _ r hn hc hi hj, at4_turnedImage ht hn hc hi hj, at4_turnedImage hq hn hr hi hj]

theorem turnedImage_withBias (ht : t.shape = [N, C, H, W]) (bias : Option (Tensor R)) :
    turnedImage (withBias t bias) = withBias (turnedImage t) bias := by
  cases bias with
  | none => rfl
  | some b =>
    have hb := shape_withBias ht (some b)
    have ht' := shape_turnedImage ht
    obtain ⟨t0, t1, t2, t3⟩ := extents ht
    obtain ⟨u0, u1, u2, u3⟩ := extents ht'
    refine ext_at4 (shape_turnedImage hb) (shape_withBias ht' (some b)) fun n hn c hc i hi j hj => ?_
    rw [at4_turnedImage hb hn hc hi hj]
    unfold withBias
    rw [t0, t1, t2, t3, u0, u1, u2, u3, at4_ofImages hn hc hj (by omega), at4_ofImages hn hc hi hj,
      at4_turnedImage ht hn hc hi hj]

end Images

/-! ### Turned correlations -/

section Correlations

variable {R : Type} [CommSemiring R] {s : Sweep} {groups : ℕ} {x w : Tensor R} {N C H W O B k p : ℕ}

/-- A window moves in steps of one over images with a border that is as wide on all sides. -/
structure Sweep.IsEven (s : Sweep) (p : ℕ) : Prop where
  stride : s.stride = (1, 1)
  pad : s.pad = (p, p)

theorem windows_one (size kernel pad : ℕ) : windows size kernel 1 pad = size + 2 * pad + 1 - kernel := by
  unfold windows
  split_ifs <;> omega

theorem Sweep.IsEven.grid (h : s.IsEven p) (k H W : ℕ) :
    s.grid (k, k) (H, W) = (H + 2 * p + 1 - k, W + 2 * p + 1 - k) := by
  unfold Sweep.grid
  rw [h.stride, h.pad, windows_one, windows_one]

/-- The correlation of turned images with turned kernels is the turned correlation. -/
theorem correlate_turned (hs : s.IsEven p) (hx : x.shape = [N, C, H, W]) (hw : w.shape = [O, B, k, k]) :
    correlate s groups (turnedImage x) (turned 1 w) = turnedImage (correlate s groups x w) := by
  have hx' := shape_turnedImage hx
  have hw' : (turned 1 w).shape = [O, B, k, k] := hw
  have hy : (correlate s groups x w).shape = [N, O, H + 2 * p + 1 - k, W + 2 * p + 1 - k] := by
    rw [shape_cotangent (shape_correlate s groups x w) hx hw, hs.grid]
  have hy' : (correlate s groups (turnedImage x) (turned 1 w)).shape =
      [N, O, W + 2 * p + 1 - k, H + 2 * p + 1 - k] := by
    rw [shape_cotangent (shape_correlate s groups _ _) hx' hw', hs.grid]
  refine ext_at4 hy' (shape_turnedImage hy) fun n hn o ho i hi j hj => ?_
  have hcell : (i, j) ∈ cells (s.grid (k, k) (W, H)) := by
    rw [hs.grid]
    exact mem_cells.mpr ⟨hi, hj⟩
  have hcell' : (j, W + 2 * p + 1 - k - 1 - i) ∈ cells (s.grid (k, k) (H, W)) := by
    rw [hs.grid]
    exact mem_cells.mpr ⟨hj, by dsimp only; omega⟩
  have hleft : (correlate s groups (turnedImage x) (turned 1 w)).at4 n o i j = _ := at4_correlate hx' hw' hn ho hcell
  have hright : (correlate s groups x w).at4 n o j (W + 2 * p + 1 - k - 1 - i) = _ :=
    at4_correlate hx hw hn ho hcell'
  rw [at4_turnedImage hy hn ho hi hj, hleft, hright]
  refine sum_congr rfl fun c hc => ?_
  rw [mem_range] at hc
  rw [hs.stride, hs.pad]
  dsimp only
  -- the taps of the turned kernel are those of the kernel in turned order
  rw [← sum_turned (r := 1) (by decide) fun u _ => x.padded (p, p) n (o / (O / groups) * B + c) (j * 1 + u.1)
    ((W + 2 * p + 1 - k - 1 - i) * 1 + u.2) * w.at4 o c u.1 u.2]
  refine sum_congr rfl fun v hv => ?_
  obtain ⟨hv1, hv2⟩ := mem_cells.mp hv
  dsimp only at hv1 hv2
  have hsource : turnedSource k 1 v = (v.2, k - 1 - v.1) := rfl
  have hcolumn : W + 2 * p - 1 - (i * 1 + v.1) = (W + 2 * p + 1 - k - 1 - i) * 1 + (k - 1 - v.1) := by omega
  rw [padded_turnedImage hx (by omega), at4_turned hw 1 ho hc hv, hsource, hcolumn]

/-- Everything that steers a convolution, turned by a quarter turn, turns the output. -/
theorem steered_turned {P : ℕ} {q : Tensor R} {bias : Option (Tensor R)} (hs : s.IsEven p)
    (e : Extents s groups x w bias q N B P H W k) :
    steered s groups (turnedImage x) (turned 1 w) bias (turnedImage q) =
      turnedImage (steered s groups x w bias q) := by
  have hturns : ∀ r, turned r (turned 1 w) = turned 1 (turned r w) := fun r => by
    rw [turned_turned e.kernel, turned_turned e.kernel, Nat.add_comm]
  have hpart : ∀ r < 4, weighted (correlate s groups (turnedImage x) (turned r (turned 1 w))) (turnedImage q) r =
      turnedImage (weighted (correlate s groups x (turned r w)) q r) := fun r hr => by
    have hwr : (turned r w).shape = [groups * P, B, k, k] := e.kernel
    rw [hturns, correlate_turned hs e.batch hwr, turnedImage_weighted (e.response r) e.weights hr]
  unfold steered
  rw [turnedImage_withBias e.shape_blended]
  unfold blended
  rw [turnedImage_fourfold fun r _ => shape_weighted (e.response r) q r]
  exact congrArg (withBias · bias) (fourfold_congr hpart)

end Correlations

/-! ### Turned smoothing -/

section Smoothing

variable {s : Sweep} {table t : Tensor ℝ} {N C H W k p : ℕ}

/-- A square table that a quarter turn does not change. -/
structure IsRound (table : Tensor ℝ) (k : ℕ) : Prop where
  shape : table.shape = [k, k]
  turns : ∀ v ∈ cells (k, k), table.at2 (quarterSource k v).1 (quarterSource k v).2 = table.at2 v.1 v.2

theorem gaussianWeight_congr {sigma dh dw dh' dw' : ℝ} (h : dw * dw + dh * dh = dw' * dw' + dh' * dh') :
    gaussianWeight sigma dh dw = gaussianWeight sigma dh' dw' := by
  unfold gaussianWeight
  rw [h]

theorem mirror_sub_middle {n a : ℕ} (ha : a < n) : ((n - 1 - a : ℕ) : ℝ) - middle n = -((a : ℝ) - middle n) := by
  unfold middle
  rw [two_real, Nat.sub_sub, Nat.cast_sub (by omega)]
  push_cast
  ring

theorem at2_rawTable {sigma : ℝ} {rows cols a b : ℕ} (ha : a < rows) (hb : b < cols) :
    (rawTable rows cols (middle rows, middle cols) sigma).at2 a b =
      gaussianWeight sigma ((a : ℝ) - middle rows) ((b : ℝ) - middle cols) := by
  have hlt : a * cols + b < volume [rows, cols] := by simpa using block_lt ha hb
  unfold at2 rawTable
  show (ofFlat [rows, cols] _).flat (a * cols + b) = _
  rw [flat_ofFlat hlt, div_block hb, mod_block hb]

theorem at2_gaussianTable {sigma : ℝ} {rows cols a b : ℕ} (ha : a < rows) (hb : b < cols) :
    (gaussianTable rows cols (middle rows, middle cols) sigma true).at2 a b =
      gaussianWeight sigma ((a : ℝ) - middle rows) ((b : ℝ) - middle cols) /
        (rawTable rows cols (middle rows, middle cols) sigma).sum := by
  have hlt : a * cols + b < volume [rows, cols] := by simpa using block_lt ha hb
  rw [← at2_rawTable ha hb]
  exact flat_map (t := rawTable rows cols (middle rows, middle cols) sigma) hlt

theorem isRound_gaussianTable (k : ℕ) (sigma : ℝ) :
    IsRound (gaussianTable k k (middle k, middle k) sigma true) k := by
  refine ⟨shape_gaussianTable _ _ _ _ _, fun v hv => ?_⟩
  obtain ⟨ha, hb⟩ := mem_cells.mp hv
  dsimp only at ha hb
  unfold quarterSource
  dsimp only
  rw [at2_gaussianTable hb (by omega), at2_gaussianTable ha hb, mirror_sub_middle ha]
  congr 1
  exact gaussianWeight_congr (by ring)

theorem channelKernels_turned (h : IsRound table k) (C : ℕ) :
    turned 1 (channelKernels C table) = channelKernels C table := by
  obtain ⟨e0, e1⟩ : table.extent 0 = k ∧ table.extent 1 = k := by simp [extent, h.shape]
  have hkernels : (channelKernels C table).shape = [C, 1, k, k] := by rw [shape_channelKernels, e0, e1]
  have hfoot : table.footprint = (k, k) := by
    unfold footprint
    rw [e0, e1]
  refine ext_at4 (s := turned 1 _) hkernels hkernels fun o ho c hc a ha b hb => ?_
  obtain rfl : c = 0 := by omega
  have hv : (a, b) ∈ cells (k, k) := mem_cells.mpr ⟨ha, hb⟩
  have hsource : turnedSource k 1 (a, b) ∈ cells table.footprint := by
    rw [hfoot]
    exact turnedSource_mem hv
  have hturned : (turned 1 (channelKernels C table)).at4 o 0 a b = _ := at4_turned hkernels 1 ho Nat.one_pos hv
  have hplain : (channelKernels C table).at4 o 0 a b = _ :=
    at4_channelKernels (t := (a, b)) ho (by rw [hfoot]; exact hv)
  rw [hturned, hplain, at4_channelKernels ho hsource]
  exact h.turns (a, b) hv

/-- Turned images are smoothed to the turned averages. -/
theorem windowAverage_turned (hs : s.IsEven p) (h : IsRound table k) (ht : t.shape = [N, C, H, W]) (hC : 0 < C) :
    windowAverage s table (turnedImage t) = turnedImage (windowAverage s table t) := by
  obtain ⟨e0, e1⟩ : table.extent 0 = k ∧ table.extent 1 = k := by simp [extent, h.shape]
  have hkernels : (channelKernels C table).shape = [C, 1, k, k] := by rw [shape_channelKernels, e0, e1]
  rw [windowAverage_eq (shape_turnedImage ht) hC, windowAverage_eq ht hC, ← correlate_turned hs ht hkernels,
    channelKernels_turned h]

theorem vectorAt_turnedImage (ht : t.shape = [N, 2, H, W]) {n i j : ℕ} (hn : n < N) (hi : i < W) (hj : j < H) :
    vectorAt (turnedImage t) n i j = vectorAt t n j (W - 1 - i) := by
  unfold vectorAt
  rw [at4_turnedImage ht hn (by decide) hi hj, at4_turnedImage ht hn (by decide) hi hj]

theorem weights_turnedImage (ht : t.shape = [N, 2, H, W]) :
    interpolationWeights (angles (turnedImage t) : Tensor ℝ) =
      turnedImage (interpolationWeights (angles t : Tensor ℝ)) := by
  have ht' := shape_turnedImage ht
  have hq := (interpolationWeights_eq (shape_angles (γ := ℝ) ht)).2
  refine ext_at4 (interpolationWeights_eq (shape_angles ht')).2 (shape_turnedImage hq) fun n hn r hr i hi j hj => ?_
  rw [at4_turnedImage hq hn hr hi hj, at4_weights ht' hn hr hi hj, at4_weights ht hn hr hj (by omega),
    vectorAt_turnedImage ht hn hi hj]

end Smoothing

/-! ### Turned arguments of a layer -/

section Layer

variable {e : Estimator ℝ} {g : Geometry} {groups k p : ℕ} {x map w : Tensor ℝ} {bias : Option (Tensor ℝ)}

namespace Accepted

theorem extents (h : Accepted e g groups x map w bias) : ∃ N B P H W k, x.shape = [N, groups * B, H, W] ∧
    map.shape = [N, 2, H, W] ∧ w.shape = [groups * P, B, k, k] ∧ g.kernel = (k, k) := by
  obtain ⟨N, B, P, H, W, a, b, hx, hw, -, -⟩ := h.correlates.extents
  obtain rfl : a = b := by
    have := h.square
    rw [hw] at this
    exact this
  obtain ⟨x0, -, x2, x3⟩ := Tensor.extents hx
  exact ⟨N, B, P, H, W, a, hx, by rw [h.map, x0, x2, x3], hw, by rw [← h.footprint, area_batch hw]⟩

/-- Turned arguments are accepted. -/
theorem turned_arguments (h : Accepted e g groups x map w bias) (hs : g.sweep.IsEven p) :
    Accepted e g groups (turnedImage x) (turnedImage map) w bias := by
  obtain ⟨N, B, P, H, W, k, hx, hmap, hw, hk⟩ := h.extents
  have hx' := shape_turnedImage hx
  obtain ⟨x0, -, x2, x3⟩ := Tensor.extents hx'
  refine ⟨h.options, h.sound, ?_, h.square, h.footprint, by rw [shape_turnedImage hmap, x0, x2, x3], h.bias⟩
  have hc := h.correlates
  rw [hx, hw] at hc
  rw [hx', hw]
  obtain ⟨hG, s1, s2, a0, b0, hchannels, ho, hdiv, hpos, hpixels, hrows, hcolumns⟩ := hc
  rw [hs.pad] at hrows hcolumns
  dsimp only at hrows hcolumns
  refine ⟨hG, s1, s2, a0, b0, hchannels, ho, hdiv, hpos, hpixels.imp_right And.symm, ?_, ?_⟩
  · rw [hs.pad]
    exact hcolumns
  · rw [hs.pad]
    exact hrows

/-- The forward pass of turned arguments with turned kernels gives the turned results. -/
theorem forwardPass_turned (h : Accepted e g groups x map w bias) (hs : g.sweep.IsEven p)
    (hround : IsRound e.smoother.table g.kernel.1) : ∃ (o o' : Orientation ℝ ℝ) (y : Tensor ℝ) (q q' : ForwardPass ℝ),
      forwardPass e g.sweep groups x map w bias = .ok (o, y, q) ∧
      forwardPass e g.sweep groups (turnedImage x) (turnedImage map) (turned 1 w) bias =
        .ok (o', turnedImage y, q') ∧
      o'.smoothed = turnedImage o.smoothed ∧ ∃ N C I J, y.shape = [N, C, I, J] ∧ o.smoothed.shape = [N, 2, I, J] := by
  obtain ⟨N, B, P, H, W, k, hx, hmap, hw, hk⟩ := h.extents
  have hturned : Accepted e g groups (turnedImage x) (turnedImage map) (turned 1 w) bias :=
    (h.turned_arguments hs).congr rfl rfl (h.turned_arguments hs).bias
  rw [hk] at hround
  obtain ⟨o, q, horient⟩ := h.exists_orient
  obtain ⟨o', q', horient'⟩ := hturned.exists_orient
  obtain ⟨harranged, hpass⟩ := h.forwardPass_eq horient
  obtain ⟨-, hpass'⟩ := hturned.forwardPass_eq horient'
  obtain ⟨hsmooth, -, rfl, M, I, J, hsm⟩ := orient_eq_ok horient (Tensor.extents hmap).2.1
  obtain ⟨hsmooth', -, rfl, -⟩ := orient_eq_ok horient' (Tensor.extents (shape_turnedImage hmap)).2.1
  rw [Smoother.smooth_eq h.accepts_map, Except.ok.injEq, map_narrow_real] at hsmooth
  rw [Smoother.smooth_eq hturned.accepts_map, Except.ok.injEq, map_narrow_real,
    windowAverage_turned hs hround hmap two_pos, hsmooth] at hsmooth'
  obtain ⟨N', B', P', H', W', k', ext⟩ := harranged.extents
  have hweights := ext.weights
  rw [(interpolationWeights_eq (shape_angles hsm)).2] at hweights
  obtain ⟨rfl, rfl, rfl⟩ :
      M = N' ∧ I = (g.sweep.grid (k', k') (H', W')).1 ∧ J = (g.sweep.grid (k', k') (H', W')).2 := by
    simpa using hweights
  rw [← hsmooth', weights_turnedImage hsm, steered_turned hs ext] at hpass'
  exact ⟨o, o', _, _, _, hpass, hpass', hsmooth'.symm, _, _, _, _, ext.shape_steered, hsm⟩

end Accepted

/-- A forward pass turns with the image. The forward pass, and the one of the turned batch and of the
turned map with its vectors turned by `d` quarter turns, succeed; the smoothed maps are related as the
maps are, and at each window with a smoothed vector that is not zero the output is, in every channel, the
turned output. The two passes may have different kernels. -/
def PassTurns (e : Estimator ℝ) (g : Geometry) (groups : ℕ) (x map w w' : Tensor ℝ)
    (bias : Option (Tensor ℝ)) (d : ℤ) : Prop :=
  ∃ (o o' : Orientation ℝ ℝ) (y y' : Tensor ℝ) (q q' : ForwardPass ℝ),
    forwardPass e g.sweep groups x map w bias = .ok (o, y, q) ∧
    forwardPass e g.sweep groups (turnedImage x) (turnedVectors d (turnedImage map)) w' bias = .ok (o', y', q') ∧
    o'.smoothed = turnedVectors d (turnedImage o.smoothed) ∧ y'.shape = (turnedImage y).shape ∧
    ∀ n i j, vectorAt o'.smoothed n i j ≠ 0 → ∀ c, y'.at4 n c i j = (turnedImage y).at4 n c i j

/-- Quarter turns of the vectors, one of which the turned image makes up for, turn the kernel. -/
theorem Accepted.passTurns (h : Accepted e g groups x map w bias) (hs : g.sweep.IsEven p)
    (hround : IsRound e.smoother.table g.kernel.1) (d : ℤ) :
    PassTurns e g groups x map (turned (turnsOf (d - 1)) w) w bias d := by
  obtain ⟨N, B, P, H, W, k, hx, hmap, hw, -⟩ := h.extents
  have hback : Accepted e g groups x map (turned (turnsOf (d - 1)) w) bias := h.congr rfl rfl h.bias
  obtain ⟨o, o₁, y, q, q₁, hpass, hpass₁, hsmoothed, M, C, I, J, hy, hsm⟩ := hback.forwardPass_turned hs hround
  obtain ⟨_, _, horient⟩ := (h.turned_arguments hs).exists_orient
  obtain ⟨-, hplain⟩ := (h.turned_arguments hs).forwardPass_eq horient
  have hchannels : (turnedImage map).extent 1 = 2 := (Tensor.extents (shape_turnedImage hmap)).2.1
  obtain ⟨y₂, y', o₂, o', _, q', hpass₂, hpass', hvectors, hshape, hat⟩ := steersAlike_turned hplain hchannels d
  -- the turned kernel of one comparison is that of the other
  have hkernel : turned (turnsOf d) w = turned 1 (turned (turnsOf (d - 1)) w) := by
    have hturns : turnsOf d = (turnsOf (d - 1) + 1) % 4 := by
      unfold turnsOf rotations
      omega
    rw [turned_turned hw, hturns, turned_mod hw]
  rw [hkernel, hpass₁] at hpass₂
  obtain ⟨rfl, rfl, -⟩ : o₁ = o₂ ∧ turnedImage y = y₂ ∧ _ := by simpa using hpass₂
  rw [hsmoothed] at hvectors hat
  refine ⟨o, o', y, y', q, q', hpass, hpass', hvectors, hshape, fun n i j hne => hat n i j ?_⟩
  have hsm' := shape_turnedImage hsm
  have hsource : vectorAt (turnedImage o.smoothed) n i j ≠ 0 := by
    rw [hvectors] at hne
    exact (vectorAt_turnedVectors_ne_zero hsm').mp hne
  have hin : n < M ∧ i < J ∧ j < I := by
    by_contra hout
    exact hsource (vectorAt_of_not hsm' hout)
  rwa [sharedVector_of_lt hsm' hin.1 hin.2.1 hin.2.2]

theorem isRound_of_create {sigma : Value} {globals : GlobalOptions}
    (he : (Estimator.create (g.gaussian sigma) globals).Gives e) (hk : g.kernel = (k, k)) :
    IsRound e.smoother.table k := by
  obtain ⟨deviation, -, htable⟩ := Smoother.table_of_create (Estimator.smoother_of_create he)
  rw [htable, hk]
  exact isRound_gaussianTable k deviation

theorem Accepted.isRound {sigma : Value} {globals : GlobalOptions} (h : Accepted e g groups x map w bias)
    (he : (Estimator.create (g.gaussian sigma) globals).Gives e) : IsRound e.smoother.table g.kernel.1 := by
  obtain ⟨_, _, _, _, _, k, -, -, -, hk⟩ := h.extents
  rw [hk]
  exact isRound_of_create he hk

theorem isEven_of_geometry (hstride : g.stride = (1, 1)) (hpad : g.pad.1 = g.pad.2) : g.sweep.IsEven g.pad.1 :=
  ⟨hstride, Prod.ext rfl hpad.symm⟩

/-- Turning the batch and the gradient map, vectors included, turns the output at every window with a
smoothed vector that is not zero, for everything that a layer accepts with windows in steps of one and
the same border on all sides. -/
theorem output_turns_with_image {sigma : Value} {globals : GlobalOptions}
    (he : (Estimator.create (g.gaussian sigma) globals).Gives e) (h : Accepted e g groups x map w bias)
    (hstride : g.stride = (1, 1)) (hpad : g.pad.1 = g.pad.2) : PassTurns e g groups x map w w bias 1 := by
  obtain ⟨_, _, _, _, _, _, -, -, hw, -⟩ := h.extents
  have hturns := h.passTurns (isEven_of_geometry hstride hpad) (h.isRound he) 1
  have hnone : turnsOf (1 - 1) = 0 := by decide
  rwa [hnone, turned_zero hw] at hturns

/-- An estimator with windows of three by three pixels. -/
noncomputable def sampleEstimator : Estimator ℝ :=
  ⟨⟨.orientation, "torch", {}⟩, sampleSmoother (squareWindows 3 1 (Nat.succ_pos _))⟩

theorem create_sampleEstimator :
    (Estimator.create ((squareWindows 3 1 (by decide)).gaussian .null) {}).Gives sampleEstimator :=
  ⟨Journal.empty, by with_unfolding_all rfl⟩

/-- An image of one row and two columns is accepted with one kernel. -/
theorem accepted_sampleEstimator (hx : x.shape = [1, 1, 1, 2]) (hmap : map.shape = [1, 2, 1, 2])
    (hw : w.shape = [1, 1, 3, 3]) : Accepted sampleEstimator (squareWindows 3 1 (by decide)) 1 x map w none where
  options := ⟨.null, rfl⟩
  sound := (Smoother.sound_of_create (Estimator.smoother_of_create create_sampleEstimator)).2
  correlates := by
    rw [hx, hw]
    decide
  square := by
    rw [hw]
    rfl
  footprint := area_batch hw
  map := by
    obtain ⟨x0, -, x2, x3⟩ := Tensor.extents hx
    rw [hmap, x0, x2, x3]
  bias := by simp

theorem output_turns_with_image_sample :
    PassTurns sampleEstimator (squareWindows 3 1 (by decide)) 1 (fill [1, 1, 1, 2] 1) (fill [1, 2, 1, 2] 1)
      (fill [1, 1, 3, 3] 1) (fill [1, 1, 3, 3] 1) none 1 :=
  output_turns_with_image create_sampleEstimator
    (accepted_sampleEstimator (shape_fill _ _) (shape_fill _ _) (shape_fill _ _)) rfl rfl

end Layer
end SteeredConv
