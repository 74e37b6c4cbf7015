/-
# Uniform gradient maps

A gradient map with one vector at all pixels is smoothed to multiples of that vector: the multiple is the
weight of the taps that lie on the image, so it is positive as soon as one does, and the angle is that of
the vector. A window without such a tap has the angle zero, but it also reads nothing of the batch. So
the oriented convolution is the convolution with one kernel at every window, the four rotations blended
with the weights of the angle, whatever the border is.

Key definitions: `Value.Finite`, `blendedKernel`, `uniformMap`, `coverage`, `convolution`.
Key theorems: `deviation_pos`, `at4_correlate_blendedKernel`, `vectorAt_uniform`, `weights_uniform`,
`blended_uniform`, `uniform_map_is_convolution`.
-/
import SteeredConv.Proofs.ImageGradient
import SteeredConv.Proofs.SimilarityBounds

namespace SteeredConv

open Finset Tensor

/-! ### Positive weights -/

/-- A value that is a finite number, if it is a number at all; the others denote no real number. -/
def Value.Finite (v : Value) : Prop := ∀ n ∈ v.number?, n.quotient?.isSome = true

theorem Value.finite_null : Value.null.Finite := fun n hn => absurd hn (Option.not_mem_none n)

theorem Binary.toReal_pos {negative : Bool} {m : ℕ} {q : ℤ} (h : 0 < (if negative then -(m : ℤ) else m)) :
    0 < (Binary.finite negative m q).toReal := by
  cases negative with
  | true => exact absurd h (not_lt.mpr (Int.neg_nonpos_of_nonneg (Int.natCast_nonneg m)))
  | false =>
    have hm : (0 : ℝ) < m := by exact_mod_cast (show (0 : ℤ) < m from h)
    show (0 : ℝ) < 1 * m * (2 : ℝ) ^ q
    positivity

/-- A finite number that is not at most zero is positive. -/
theorem Number.toScalar_pos {n : Number} (hfinite : n.quotient?.isSome = true) (h : n.le (.whole 0) = false) :
    (0 : ℝ) < n.toScalar := by
  cases n with
  | whole n =>
    rw [le_whole, decide_eq_false_iff_not, not_le] at h
    show (0 : ℝ) < if n < 0 then -(n.natAbs : ℝ) else n.natAbs
    rw [if_neg h.le.not_gt]
    exact Nat.cast_pos.mpr (Int.natAbs_pos.mpr h.ne')
  | real x =>
    show 0 < (Binary.ofFloat x).toReal
    unfold quotient? at hfinite
    unfold le compare? compareWhole? at h
    dsimp only at hfinite h
    generalize Binary.ofFloat x = b at hfinite h ⊢
    cases b with
    | nan => cases hfinite
    | infinite => cases hfinite
    | finite negative m q =>
      refine Binary.toReal_pos ?_
      dsimp only at h
      generalize (if negative then -(m : ℤ) else m) = significand at h ⊢
      by_contra hle
      have hnot : ∀ a : ℤ, a ≤ 0 → compare 0 a = .gt ∨ compare 0 a = .eq := fun a ha =>
        ha.lt_or_eq.imp compare_gt_iff_gt.mpr fun heq => compare_eq_iff_eq.mpr heq.symm
      split_ifs at h
      · have hscaled : significand * Int.pow 2 q.toNat ≤ 0 :=
          mul_nonpos_of_nonpos_of_nonneg (not_lt.mp hle) (pow_nonneg (by decide) _)
        rcases hnot _ hscaled with hc | hc <;> rw [hc] at h <;> cases h
      · rw [zero_mul] at h
        rcases hnot _ (not_lt.mp hle) with hc | hc <;> rw [hc] at h <;> cases h

variable {g : Geometry}

/-- The deviation of a window is positive. -/
theorem deviation_pos {sigma : Value} {deviation : ℝ} (hfinite : sigma.Finite)
    (h : (g.gaussian sigma).deviation ℝ = .ok deviation) : 0 < deviation := by
  have hnull : (g.gaussian sigma).sigma.isNull = sigma.isNull := rfl
  have hkernel : (g.gaussian sigma).wholeKernel? = some (g.kernel.1, g.kernel.2) := rfl
  unfold GaussianOptions.deviation at h
  rw [hnull, hkernel] at h
  cases hsigma : sigma.isNull with
  | true =>
    rw [hsigma] at h
    dsimp only at h
    split_ifs at h
    obtain rfl := Except.ok.inj h
    have hpositive : 0 < g.kernel.1 + g.kernel.2 := Nat.add_pos_left g.kernel_pos.1 _
    unfold footprintDeviation
    positivity
  | false =>
    rw [hsigma] at h
    obtain ⟨sigma', hresolved, h⟩ := bind_eq_ok_iff.mp h
    unfold GaussianOptions.resolvedSigma at hresolved
    rw [hnull, hsigma] at hresolved
    obtain rfl : sigma = sigma' := Except.ok.inj hresolved
    obtain ⟨low, hlow, h⟩ := bind_eq_ok_iff.mp h
    cases low with
    | true => cases h
    | false =>
      obtain ⟨n, hn⟩ := number_of_atMost hlow
      rw [hn] at h
      obtain ⟨_, -, h⟩ := bind_eq_ok_iff.mp h
      obtain rfl := Except.ok.inj h
      refine Number.toScalar_pos (hfinite n hn) ?_
      unfold Value.atMost at hlow
      rw [hn] at hlow
      exact Except.ok.inj hlow

/-! ### One kernel from four -/

section Kernels

variable {s : Sweep} {groups N C H W O B k : ℕ} {x w : Tensor ℝ}

/-- The rotations of a kernel, added with the weights of an angle. -/
noncomputable def blendedKernel (angle : ℝ) (w : Tensor ℝ) : Tensor ℝ :=
  fourfold fun r => (turned r w).map (slotWeight angle r * ·)

theorem shape_blendedKernel (angle : ℝ) (w : Tensor ℝ) : (blendedKernel angle w).shape = w.shape := rfl

theorem at4_blendedKernel (hw : w.shape = [O, B, k, k]) (angle : ℝ) {o c a b : ℕ} (ho : o < O) (hc : c < B)
    (ha : a < k) (hb : b < k) : (blendedKernel angle w).at4 o c a b =
      ∑ r ∈ range 4, (turned r w).at4 o c a b * slotWeight angle r := by
  have hterm : ∀ r, ((turned r w).map (slotWeight angle r * ·)).at4 o c a b =
      (turned r w).at4 o c a b * slotWeight angle r := fun r => by rw [at4_map_of_zero (mul_zero _), mul_comm]
  unfold blendedKernel
  rw [at4_fourfold (f := fun r => (turned r w).map (slotWeight angle r * ·)) (fun _ _ => hw) ho hc ha hb,
    hterm, hterm, hterm, hterm]
  simp only [sum_range_succ, sum_range_zero, zero_add]

theorem blendedKernel_zero (hw : w.shape = [O, B, k, k]) : blendedKernel 0 w = w := by
  refine ext_at4 (s := blendedKernel 0 w) hw hw fun o ho c hc a ha b hb => ?_
  rw [at4_blendedKernel hw 0 ho hc ha hb, sum_eq_single_of_mem 0 (by decide)]
  · rw [slotWeight_zero (by decide), if_pos rfl, mul_one, turned_zero hw]
  · intro r hr hne
    rw [slotWeight_zero (mem_range.mp hr), if_neg hne, mul_zero]

/-- The response to the blended kernel is the blend of the responses. -/
theorem at4_correlate_blendedKernel (hx : x.shape = [N, C, H, W]) (hw : w.shape = [O, B, k, k]) (angle : ℝ) {n o : ℕ}
    (hn : n < N) (ho : o < O) {p : ℕ × ℕ} (hp : p ∈ cells (s.grid (k, k) (H, W))) :
    (correlate s groups x (blendedKernel angle w)).at4 n o p.1 p.2 =
      ∑ r ∈ range 4, (correlate s groups x (turned r w)).at4 n o p.1 p.2 * slotWeight angle r := by
  let read (c : ℕ) (u : ℕ × ℕ) : ℝ :=
    x.padded s.pad n (o / (O / groups) * B + c) (p.1 * s.stride.1 + u.1) (p.2 * s.stride.2 + u.2)
  calc (correlate s groups x (blendedKernel angle w)).at4 n o p.1 p.2
      = ∑ c ∈ range B, ∑ u ∈ cells (k, k), read c u * (blendedKernel angle w).at4 o c u.1 u.2 :=
        at4_correlate (w := blendedKernel angle w) hx hw hn ho hp
    _ = ∑ c ∈ range B, ∑ u ∈ cells (k, k), ∑ r ∈ range 4,
          read c u * (turned r w).at4 o c u.1 u.2 * slotWeight angle r := by
        refine sum_congr rfl fun c hc => sum_congr rfl fun u hu => ?_
        obtain ⟨ha, hb⟩ := mem_cells.mp hu
        rw [at4_blendedKernel hw angle ho (mem_range.mp hc) ha hb, mul_sum]
        exact sum_congr rfl fun r _ => (mul_assoc _ _ _).symm
    _ = ∑ r ∈ range 4, ∑ c ∈ range B, ∑ u ∈ cells (k, k),
          read c u * (turned r w).at4 o c u.1 u.2 * slotWeight angle r :=
        (sum_comm.trans (sum_congr rfl fun c _ => sum_comm)).symm
    _ = ∑ r ∈ range 4, (correlate s groups x (turned r w)).at4 n o p.1 p.2 * slotWeight angle r := by
        refine sum_congr rfl fun r _ => ?_
        rw [at4_correlate (w := turned r w) hx hw hn ho hp]
        simp only [sum_mul]
        rfl

theorem at4_correlate_of_outside (hx : x.shape = [N, C, H, W]) (hw : w.shape = [O, B, k, k]) {n o : ℕ} (hn : n < N)
    (ho : o < O) {p : ℕ × ℕ} (hp : p ∈ cells (s.grid (k, k) (H, W)))
    (hout : ∀ u ∈ cells (k, k), ∀ q ∈ cells (H, W), ¬s.Meets p u q) :
    (correlate s groups x w).at4 n o p.1 p.2 = 0 := by
  rw [at4_correlate hx hw hn ho hp]
  refine sum_eq_zero fun c _ => sum_eq_zero fun u hu => ?_
  rw [padded_eq_sum hx, sum_eq_zero fun q hq => if_neg (hout u hu q hq), zero_mul]

end Kernels

/-! ### One vector everywhere -/

section Uniform

variable {s : Sweep} {table : Tensor ℝ} {N H W k : ℕ} {v : ℝ × ℝ}

/-- A gradient map with one vector at all pixels. -/
def uniformMap (N H W : ℕ) (v : ℝ × ℝ) : Tensor ℝ := ofImages N 2 H W fun _ c _ _ => if c = 0 then v.1 else v.2

theorem shape_uniformMap (N H W : ℕ) (v : ℝ × ℝ) : (uniformMap N H W v).shape = [N, 2, H, W] := rfl

/-- The weight of the taps of a window that lie on the image. -/
def coverage (s : Sweep) (table : Tensor ℝ) (area p : ℕ × ℕ) : ℝ :=
  ∑ u ∈ cells table.footprint, ∑ q ∈ cells area, if s.Meets p u q then table.at2 u.1 u.2 else 0

/-- A tap reads the vector if it lies on the image. -/
theorem paddedVector_uniform {n : ℕ} (hn : n < N) (p u : ℕ × ℕ) :
    paddedVector (uniformMap N H W v) s.pad n (p.1 * s.stride.1 + u.1) (p.2 * s.stride.2 + u.2) =
      ∑ q ∈ cells (H, W), if s.Meets p u q then v else 0 := by
  have hentry : ∀ c < 2, ∀ q ∈ cells (H, W), (uniformMap N H W v).at4 n c q.1 q.2 = if c = 0 then v.1 else v.2 := by
    intro c hc q hq
    obtain ⟨h1, h2⟩ := mem_cells.mp hq
    exact at4_ofImages hn hc h1 h2
  unfold paddedVector
  rw [padded_eq_sum (shape_uniformMap N H W v), padded_eq_sum (shape_uniformMap N H W v)]
  refine Prod.ext ?_ ?_
  · rw [Prod.fst_sum]
    refine sum_congr rfl fun q hq => ?_
    rw [hentry 0 (by decide) q hq, apply_ite Prod.fst]
    rfl
  · rw [Prod.snd_sum]
    refine sum_congr rfl fun q hq => ?_
    rw [hentry 1 (by decide) q hq, apply_ite Prod.snd]
    rfl

/-- A smoothed vector of a uniform map is the multiple of its vector that the window covers. -/
theorem vectorAt_uniform {n : ℕ} (hn : n < N) {p : ℕ × ℕ} (hp : p ∈ cells (s.grid table.footprint (H, W))) :
    vectorAt (windowAverage s table (uniformMap N H W v)) n p.1 p.2 = coverage s table (H, W) p • v := by
  rw [vectorAt_windowAverage (shape_uniformMap N H W v) hn hp]
  unfold coverage
  rw [sum_smul]
  refine sum_congr rfl fun u _ => ?_
  rw [paddedVector_uniform hn, smul_sum, sum_smul]
  refine sum_congr rfl fun q _ => ?_
  rw [smul_ite, ite_smul, smul_zero, zero_smul]

/-- With positive weights a window with a tap on the image covers some of it. -/
theorem coverage_pos {area p u q : ℕ × ℕ} (hpos : ∀ u ∈ cells table.footprint, 0 < table.at2 u.1 u.2)
    (hu : u ∈ cells table.footprint) (hq : q ∈ cells area) (hmeets : s.Meets p u q) : 0 < coverage s table area p := by
  have hterm : ∀ u ∈ cells table.footprint, ∀ q : ℕ × ℕ, 0 ≤ if s.Meets p u q then table.at2 u.1 u.2 else 0 := by
    intro u hu q
    split_ifs
    · exact (hpos u hu).le
    · exact le_rfl
  refine sum_pos' (fun u hu => sum_nonneg fun q _ => hterm u hu q) ⟨u, hu, ?_⟩
  refine sum_pos' (fun q _ => hterm u hu q) ⟨q, hq, ?_⟩
  rw [if_pos hmeets]
  exact hpos u hu

theorem shape_smoothed_uniform (s : Sweep) (table : Tensor ℝ) (N H W : ℕ) (v : ℝ × ℝ) :
    (windowAverage s table (uniformMap N H W v)).shape =
      [N, 2, (s.grid table.footprint (H, W)).1, (s.grid table.footprint (H, W)).2] := by
  obtain ⟨m0, m1, -, -⟩ := extents (shape_uniformMap N H W v)
  rw [shape_windowAverage, area_batch (shape_uniformMap N H W v), m0, m1]

/-- A window with a tap on the image has the weights of the angle of the vector. -/
theorem weights_uniform (hpos : ∀ u ∈ cells table.footprint, 0 < table.at2 u.1 u.2) {n r : ℕ} (hn : n < N) (hr : r < 4)
    {p : ℕ × ℕ} (hp : p ∈ cells (s.grid table.footprint (H, W)))
    (hmeets : ∃ u ∈ cells table.footprint, ∃ q ∈ cells (H, W), s.Meets p u q) :
    (interpolationWeights (angles (windowAverage s table (uniformMap N H W v)) : Tensor ℝ)).at4 n r p.1 p.2 =
      slotWeight (heading v) r := by
  obtain ⟨u, hu, q, hq, hmeets⟩ := hmeets
  obtain ⟨hi, hj⟩ := mem_cells.mp hp
  rw [at4_weights (shape_smoothed_uniform s table N H W v) hn hr hi hj, vectorAt_uniform hn hp,
    heading_smul (coverage_pos hpos hu hq hmeets)]

/-- For a uniform map the four responses add up to that of the blended kernel. -/
theorem blended_uniform {groups B P : ℕ} {x w q : Tensor ℝ} {bias : Option (Tensor ℝ)}
    (ext : Extents s groups x w bias q N B P H W k) (hfoot : table.footprint = (k, k))
    (hpos : ∀ u ∈ cells table.footprint, 0 < table.at2 u.1 u.2)
    (hq : q = interpolationWeights (angles (windowAverage s table (uniformMap N H W v)))) :
    blended s groups x w q = correlate s groups x (blendedKernel (heading v) w) := by
  have hkernel : (blendedKernel (heading v) w).shape = [groups * P, B, k, k] :=
    (shape_blendedKernel _ _).trans ext.kernel
  have hright : (correlate s groups x (blendedKernel (heading v) w)).shape =
      [N, groups * P, (s.grid (k, k) (H, W)).1, (s.grid (k, k) (H, W)).2] := by
    rw [shape_correlate, ext.batch, hkernel]
    rfl
  refine ext_at4 ext.shape_blended hright fun n hn o ho i hi j hj => ?_
  have hp : (i, j) ∈ cells (s.grid (k, k) (H, W)) := mem_cells.mpr ⟨hi, hj⟩
  rw [ext.at4_blended hn ho hi hj]
  by_cases hmeets : ∃ u ∈ cells (k, k), ∃ q ∈ cells (H, W), s.Meets (i, j) u q
  · rw [at4_correlate_blendedKernel ext.batch ext.kernel (heading v) hn ho hp]
    rw [← hfoot] at hp hmeets
    refine sum_congr rfl fun r hr => ?_
    rw [hq, weights_uniform hpos hn (mem_range.mp hr) hp hmeets]
  · -- the angle there is another one, but no kernel responds
    push Not at hmeets
    rw [at4_correlate_of_outside ext.batch hkernel hn ho hp hmeets]
    refine sum_eq_zero fun r _ => ?_
    rw [at4_correlate_of_outside ext.batch (show (turned r w).shape = _ from ext.kernel) hn ho hp hmeets, zero_mul]

end Uniform

/-! ### One convolution -/

/-- The convolution of a batch with one kernel, and the bias added. -/
def convolution (s : Sweep) (groups : ℕ) (x w : Tensor ℝ) (bias : Option (Tensor ℝ)) : Except Fault (Tensor ℝ) := do
  let y ← correlate? s groups x w
  match bias with
  | none => return y
  | some b => fitting (combine? (· + ·) y (biasImage b))

section Layer

variable {e : Estimator ℝ} {groups : ℕ} {x w : Tensor ℝ} {bias : Option (Tensor ℝ)} {v : ℝ × ℝ} {sigma : Value}
  {globals : GlobalOptions}

theorem convolution_eq {s : Sweep} {N O I J : ℕ} (hc : Correlates s groups x.shape w.shape)
    (hshape : (correlate s groups x w).shape = [N, O, I, J]) (hb : ∀ b ∈ bias, b.shape = [O]) :
    convolution s groups x w bias = .ok (withBias (correlate s groups x w) bias) := by
  unfold convolution correlate?
  rw [if_pos hc, ok_bind]
  cases bias with
  | none => rfl
  | some b =>
    dsimp only
    rw [combine_bias hshape (hb b rfl)]
    rfl

/-- The table of an estimator that is built has positive entries. -/
theorem table_pos_of_create {k : ℕ} (he : (Estimator.create (g.gaussian sigma) globals).Gives e)
    (hfinite : sigma.Finite) (hk : g.kernel = (k, k)) : e.smoother.table.footprint = (k, k) ∧
      ∀ u ∈ cells e.smoother.table.footprint, 0 < e.smoother.table.at2 u.1 u.2 := by
  obtain ⟨deviation, hdeviation, htable⟩ := Smoother.table_of_create (Estimator.smoother_of_create he)
  rw [hk] at htable
  have hfoot : e.smoother.table.footprint = (k, k) := by
    have hshape := shape_gaussianTable k k (middle k, middle k) deviation true
    rw [htable]
    unfold footprint extent
    rw [hshape]
    rfl
  refine ⟨hfoot, fun u hu => ?_⟩
  rw [hfoot] at hu
  obtain ⟨ha, hb⟩ := mem_cells.mp hu
  rw [htable]
  exact at2_gaussianTable_pos (deviation_pos hfinite hdeviation).ne' ha hb

/-- A layer that is given one vector at all pixels is the convolution with the kernel that its angle blends,
for everything that it accepts; without a gradient this is the kernel itself. -/
theorem uniform_map_is_convolution (he : (Estimator.create (g.gaussian sigma) globals).Gives e)
    (hfinite : sigma.Finite)
    (h : Accepted e g groups x (uniformMap (x.extent 0) (x.extent 2) (x.extent 3) v) w bias) :
    ∃ (o : Orientation ℝ ℝ) (y : Tensor ℝ) (p : ForwardPass ℝ),
      forwardPass e g.sweep groups x (uniformMap (x.extent 0) (x.extent 2) (x.extent 3) v) w bias = .ok (o, y, p) ∧
      convolution g.sweep groups x (blendedKernel (heading v) w) bias = .ok y ∧
      (v = 0 → convolution g.sweep groups x w bias = .ok y) := by
  obtain ⟨o, q, horient⟩ := h.exists_orient
  obtain ⟨arranged, hpass⟩ := h.forwardPass_eq horient
  obtain ⟨N, B, P, H, W, k, ext⟩ := arranged.extents
  obtain ⟨x0, -, x2, x3⟩ := Tensor.extents ext.batch
  obtain ⟨hfoot, hpos⟩ := table_pos_of_create he hfinite (h.footprint.symm.trans (area_batch ext.kernel))
  obtain ⟨hsmooth, -, hq, -⟩ := orient_eq_ok horient rfl
  have hsmoothed := (Except.ok.inj ((Smoother.smooth_eq h.accepts_map).symm.trans hsmooth)).symm
  rw [map_narrow_real, x0, x2, x3] at hsmoothed
  rw [hsmoothed] at hq
  have hblended := blended_uniform ext hfoot hpos hq
  have hconvolution : convolution g.sweep groups x (blendedKernel (heading v) w) bias =
      .ok (steered g.sweep groups x w bias q) := by
    have hshape := ext.shape_blended
    unfold steered
    rw [hblended] at hshape ⊢
    exact convolution_eq arranged.correlates hshape ext.bias
  refine ⟨o, _, _, hpass, hconvolution, ?_⟩
  rintro rfl
  rwa [show heading (0 : ℝ × ℝ) = 0 from Complex.arg_zero, blendedKernel_zero ext.kernel] at hconvolution

/-- An estimator with windows of four by four pixels and a border that is wider than they are. -/
noncomputable def borderEstimator : Estimator ℝ :=
  ⟨⟨.orientation, "torch", {}⟩, sampleSmoother (squareWindows 4 5 (Nat.succ_pos _))⟩

theorem create_borderEstimator :
    (Estimator.create ((squareWindows 4 5 (Nat.succ_pos _)).gaussian .null) {}).Gives borderEstimator :=
  ⟨Journal.empty, by with_unfolding_all rfl⟩

/-- Vectors whose angle lies between two rotations, and windows that hold nothing but the border. -/
theorem uniform_map_is_convolution_sample : ∃ (o : Orientation ℝ ℝ) (y : Tensor ℝ) (p : ForwardPass ℝ),
    forwardPass borderEstimator (squareWindows 4 5 (Nat.succ_pos _)).sweep 1 (fill [2, 1, 1, 2] 1)
      (uniformMap 2 1 2 (-1, 1)) (fill [3, 1, 4, 4] 1) (some (fill [3] 1)) = .ok (o, y, p) ∧
    convolution (squareWindows 4 5 (Nat.succ_pos _)).sweep 1 (fill [2, 1, 1, 2] 1)
      (blendedKernel (heading (-1, 1)) (fill [3, 1, 4, 4] 1)) (some (fill [3] 1)) = .ok y := by
  have haccepted : Accepted borderEstimator (squareWindows 4 5 (Nat.succ_pos _)) 1 (fill [2, 1, 1, 2] 1)
      (uniformMap 2 1 2 (-1, 1)) (fill [3, 1, 4, 4] 1) (some (fill [3] 1)) :=
    { options := ⟨.null, rfl⟩
      sound := (Smoother.sound_of_create (Estimator.smoother_of_create create_borderEstimator)).2
      correlates := by
        rw [shape_fill, shape_fill]
        decide
      square := rfl
      footprint := rfl
      map := rfl
      bias := by simp [shape_fill, extent] }
  obtain ⟨o, y, p, hpass, hconvolution, -⟩ := uniform_map_is_convolution create_borderEstimator
    Value.finite_null haccepted
  exact ⟨o, y, p, hpass, hconvolution⟩

end Layer
end SteeredConv
