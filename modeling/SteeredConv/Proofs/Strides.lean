/-
# Windows in steps

A window that moves in steps gives what the window at every pixel gives, at every so many rows and columns:
for the averages of a smoother, the orientation of a map, the oriented convolution and the similarity of two
batches. What is brought back from the windows in steps is what is brought back from all windows when those
between the steps are given zeros.

Key definitions: `stops`, `Tensor.sampled`, `Tensor.scattered`, `Smoother.dense`, `ForwardPass.strided`,
`SampledEverywhere`.
Key theorems: `windows_eq_stops`, `correlate_sampled`, `correlateInput_scattered`, `correlateKernel_scattered`,
`combine?_sampled`, `Smoother.smooth_sampled`, `forwardPass_sampled`, `gradients_scattered`, `strided_is_sampled`.
-/
import SteeredConv.Proofs.Borders
import SteeredConv.Proofs.LayerShapes

namespace SteeredConv

open Finset Tensor

/-! ### Positions in steps -/

section Stops

variable {stride n i : ℕ}

/-- The number of multiples of `stride` below `n`. -/
def stops (stride n : ℕ) : ℕ := (n + stride - 1) / stride

theorem lt_stops_iff (hs : 0 < stride) : i < stops stride n ↔ i * stride < n := by
  unfold stops
  rw [Nat.lt_iff_add_one_le, Nat.le_div_iff_mul_le hs, Nat.add_mul]
  omega

theorem stops_one (hs : 0 < stride) : stops stride 1 = 1 := by
  refine eq_of_forall_lt_iff fun i => ?_
  rw [lt_stops_iff hs, Nat.lt_one_iff, Nat.lt_one_iff, Nat.mul_eq_zero]
  exact or_iff_left hs.ne'

/-- The windows in steps are the windows at every so many positions. -/
theorem windows_eq_stops (hs : 0 < stride) (size kernel pad : ℕ) :
    windows size kernel stride pad = stops stride (windows size kernel 1 pad) := by
  refine eq_of_forall_lt_iff fun i => ?_
  rw [lt_windows_iff hs, lt_stops_iff hs, lt_windows_iff Nat.one_pos, Nat.mul_one]

/-- The sweep with a window at every pixel. -/
def Sweep.dense (s : Sweep) : Sweep := ⟨(1, 1), s.pad⟩

theorem Sweep.grid_dense {s : Sweep} (hs : 0 < s.stride.1 ∧ 0 < s.stride.2) (kernel size : ℕ × ℕ) :
    s.grid kernel size =
      (stops s.stride.1 (s.dense.grid kernel size).1, stops s.stride.2 (s.dense.grid kernel size).2) :=
  Prod.ext (windows_eq_stops hs.1 _ _ _) (windows_eq_stops hs.2 _ _ _)

theorem correlates_dense_iff {s : Sweep} (hs : 0 < s.stride.1 ∧ 0 < s.stride.2) {groups : ℕ} {x w : List ℕ} :
    Correlates s groups x w ↔ Correlates s.dense groups x w := by
  unfold Correlates
  split
  · simp only [hs.1, hs.2, Sweep.dense, Nat.one_pos]
  · exact Iff.rfl

end Stops

/-! ### Sampling and scattering -/

section Sampling

variable {α : Type} [Zero α] {σ grid : ℕ × ℕ} {N C H W : ℕ}

/-- A batch at every `σ.1`-th row and every `σ.2`-th column. -/
def Tensor.sampled (σ : ℕ × ℕ) (t : Tensor α) : Tensor α :=
  ofImages (t.extent 0) (t.extent 1) (stops σ.1 (t.extent 2)) (stops σ.2 (t.extent 3)) fun n c i j =>
    t.at4 n c (i * σ.1) (j * σ.2)

/-- A batch spread over a grid: its entries at every `σ.1`-th row and every `σ.2`-th column, zeros elsewhere. -/
def Tensor.scattered (σ grid : ℕ × ℕ) (u : Tensor α) : Tensor α :=
  ofImages (u.extent 0) (u.extent 1) grid.1 grid.2 fun n c i j =>
    if i % σ.1 = 0 ∧ j % σ.2 = 0 then u.at4 n c (i / σ.1) (j / σ.2) else 0

theorem shape_sampled {t : Tensor α} (ht : t.shape = [N, C, H, W]) :
    (t.sampled σ).shape = [N, C, stops σ.1 H, stops σ.2 W] := by
  obtain ⟨t0, t1, t2, t3⟩ := extents ht
  unfold sampled
  rw [t0, t1, t2, t3, shape_ofImages]

theorem at4_sampled (hσ : 0 < σ.1 ∧ 0 < σ.2) (t : Tensor α) (n c i j : ℕ) :
    (t.sampled σ).at4 n c i j = t.at4 n c (i * σ.1) (j * σ.2) := by
  unfold sampled
  by_cases hin : n < t.extent 0 ∧ c < t.extent 1 ∧ i < stops σ.1 (t.extent 2) ∧ j < stops σ.2 (t.extent 3)
  · exact at4_ofImages hin.1 hin.2.1 hin.2.2.1 hin.2.2.2
  · rw [at4_of_not (shape_ofImages _ _ _ _ _) hin]
    rw [lt_stops_iff hσ.1, lt_stops_iff hσ.2] at hin
    exact (if_neg hin).symm

theorem sampled_ofImages (hσ : 0 < σ.1 ∧ 0 < σ.2) (f : ℕ → ℕ → ℕ → ℕ → α) : (ofImages N C H W f).sampled σ =
    ofImages N C (stops σ.1 H) (stops σ.2 W) fun n c i j => f n c (i * σ.1) (j * σ.2) := by
  obtain ⟨e0, e1, e2, e3⟩ := extents (shape_ofImages N C H W f)
  unfold sampled
  rw [e0, e1, e2, e3]
  exact ofImages_congr fun n hn c hc i hi j hj =>
    at4_ofImages hn hc ((lt_stops_iff hσ.1).mp hi) ((lt_stops_iff hσ.2).mp hj)

theorem shape_scattered {u : Tensor α} {I J : ℕ} (hu : u.shape = [N, C, I, J]) :
    (u.scattered σ grid).shape = [N, C, grid.1, grid.2] := by
  obtain ⟨u0, u1, -, -⟩ := extents hu
  unfold scattered
  rw [u0, u1, shape_ofImages]

/-- A row or column of the grid is used exactly if it is one of those that are counted. -/
theorem at4_scattered (hσ : 0 < σ.1 ∧ 0 < σ.2) {u : Tensor α} (hu : u.shape = [N, C, stops σ.1 H, stops σ.2 W])
    (n c i j : ℕ) : (u.scattered σ (H, W)).at4 n c i j =
      if i % σ.1 = 0 ∧ j % σ.2 = 0 then u.at4 n c (i / σ.1) (j / σ.2) else 0 := by
  obtain ⟨u0, u1, -, -⟩ := extents hu
  by_cases hin : n < N ∧ c < C ∧ i < H ∧ j < W
  · obtain ⟨hn, hc, hi, hj⟩ := hin
    unfold scattered
    rw [u0, u1]
    exact at4_ofImages hn hc hi hj
  · rw [at4_of_not (shape_scattered hu) hin]
    split_ifs with hstop
    · refine (at4_of_not hu fun hin' => hin ?_).symm
      rw [lt_stops_iff hσ.1, lt_stops_iff hσ.2, Nat.div_mul_cancel (Nat.dvd_of_mod_eq_zero hstop.1),
        Nat.div_mul_cancel (Nat.dvd_of_mod_eq_zero hstop.2)] at hin'
      exact hin'
    · rfl

theorem sampled_scattered (hσ : 0 < σ.1 ∧ 0 < σ.2) {u : Tensor α} (hu : u.shape = [N, C, stops σ.1 H, stops σ.2 W]) :
    (u.scattered σ (H, W)).sampled σ = u := by
  refine ext_at4 (shape_sampled (shape_scattered hu)) hu fun n _ c _ i _ j _ => ?_
  rw [at4_sampled hσ, at4_scattered hσ hu, if_pos ⟨Nat.mul_mod_left _ _, Nat.mul_mod_left _ _⟩,
    Nat.mul_div_cancel _ hσ.1, Nat.mul_div_cancel _ hσ.2]

theorem scattered_sampled (hσ : 0 < σ.1 ∧ 0 < σ.2) {v : Tensor α} (hv : v.shape = [N, C, H, W])
    (hzero : ∀ n < N, ∀ c < C, ∀ i < H, ∀ j < W, ¬(i % σ.1 = 0 ∧ j % σ.2 = 0) → v.at4 n c i j = 0) :
    (v.sampled σ).scattered σ (H, W) = v := by
  have hsampled := shape_sampled (σ := σ) hv
  refine ext_at4 (shape_scattered hsampled) hv fun n hn c hc i hi j hj => ?_
  rw [at4_scattered hσ hsampled]
  split_ifs with hstop
  · rw [at4_sampled hσ, Nat.div_mul_cancel (Nat.dvd_of_mod_eq_zero hstop.1),
      Nat.div_mul_cancel (Nat.dvd_of_mod_eq_zero hstop.2)]
  · exact (hzero n hn c hc i hi j hj hstop).symm

/-- A sum over a grid with zeros between the stops is a sum over the stops. -/
theorem sum_scattered {R : Type} [CommSemiring R] (hσ : 0 < σ.1 ∧ 0 < σ.2) {u : Tensor R}
    (hu : u.shape = [N, C, stops σ.1 H, stops σ.2 W]) (n c : ℕ) (f : ℕ → ℕ → R) :
    ∑ p ∈ cells (stops σ.1 H, stops σ.2 W), f (p.1 * σ.1) (p.2 * σ.2) * u.at4 n c p.1 p.2 =
      ∑ p ∈ cells (H, W), f p.1 p.2 * (u.scattered σ (H, W)).at4 n c p.1 p.2 := by
  refine sum_of_injOn (fun p => (p.1 * σ.1, p.2 * σ.2)) (fun p _ q _ hpq => ?_) (fun p hp => ?_) (fun p hp hout => ?_)
    fun p hp => ?_
  · obtain ⟨h1, h2⟩ := Prod.mk.inj hpq
    exact Prod.ext (Nat.eq_of_mul_eq_mul_right hσ.1 h1) (Nat.eq_of_mul_eq_mul_right hσ.2 h2)
  · obtain ⟨h1, h2⟩ := mem_cells.mp (mem_coe.mp hp)
    exact mem_coe.mpr (mem_cells.mpr ⟨(lt_stops_iff hσ.1).mp h1, (lt_stops_iff hσ.2).mp h2⟩)
  · rw [at4_scattered hσ hu, if_neg, mul_zero]
    rintro ⟨hrow, hcol⟩
    obtain ⟨h1, h2⟩ := mem_cells.mp hp
    have hcancel1 := Nat.div_mul_cancel (Nat.dvd_of_mod_eq_zero hrow)
    have hcancel2 := Nat.div_mul_cancel (Nat.dvd_of_mod_eq_zero hcol)
    refine hout ⟨(p.1 / σ.1, p.2 / σ.2), mem_coe.mpr (mem_cells.mpr ⟨?_, ?_⟩), Prod.ext hcancel1 hcancel2⟩
    · exact (lt_stops_iff hσ.1).mpr (hcancel1.trans_lt h1)
    · exact (lt_stops_iff hσ.2).mpr (hcancel2.trans_lt h2)
  · rw [at4_scattered hσ hu, if_pos ⟨Nat.mul_mod_left _ _, Nat.mul_mod_left _ _⟩, Nat.mul_div_cancel _ hσ.1,
      Nat.mul_div_cancel _ hσ.2]

theorem zipWith_sampled (hσ : 0 < σ.1 ∧ 0 < σ.2) {s t : Tensor α} (hs : s.shape = [N, C, H, W])
    (ht : t.shape = [N, C, H, W]) (f : α → α → α) :
    (zipWith f s t).sampled σ = zipWith f (s.sampled σ) (t.sampled σ) := by
  refine ext_at4 (shape_sampled (by exact hs)) (by exact shape_sampled hs) fun n hn c hc i hi j hj => ?_
  rw [at4_zipWith (shape_sampled hs) (shape_sampled ht) hn hc hi hj, at4_sampled hσ, at4_sampled hσ, at4_sampled hσ,
    at4_zipWith hs ht hn hc ((lt_stops_iff hσ.1).mp hi) ((lt_stops_iff hσ.2).mp hj)]

end Sampling

/-! ### Correlations in steps -/

section Correlations

variable {R : Type} [CommSemiring R] {s : Sweep} {groups : ℕ} {table x w g : Tensor R} {N C H W : ℕ}

theorem correlate_sampled (hs : 0 < s.stride.1 ∧ 0 < s.stride.2) (groups : ℕ) (x w : Tensor R) :
    correlate s groups x w = (correlate s.dense groups x w).sampled s.stride := by
  unfold correlate
  dsimp only
  rw [sampled_ofImages hs, s.grid_dense hs]
  simp only [Sweep.dense, Nat.mul_one]

theorem windowAverage_sampled (hs : 0 < s.stride.1 ∧ 0 < s.stride.2) (table x : Tensor R) :
    windowAverage s table x = (windowAverage s.dense table x).sampled s.stride := by
  unfold windowAverage
  dsimp only
  rw [sampled_ofImages hs, s.grid_dense hs]
  simp only [Sweep.dense, Nat.mul_one]

/-- What a tap collects from the windows in steps, it collects from all windows if zeros stand between. -/
theorem windowAt_scattered {σ : ℕ × ℕ} (hσ : 0 < σ.1 ∧ 0 < σ.2) (hg : g.shape = [N, C, stops σ.1 H, stops σ.2 W])
    (n o a b row col : ℕ) (y : R) :
    (match windowAt? σ.1 row a, windowAt? σ.2 col b with
      | some i, some j => g.at4 n o i j * y
      | _, _ => 0) =
      match windowAt? 1 row a, windowAt? 1 col b with
      | some i, some j => (g.scattered σ (H, W)).at4 n o i j * y
      | _, _ => 0 := by
  by_cases hin : a ≤ row ∧ b ≤ col
  · obtain ⟨hrow, hcol⟩ := hin
    unfold windowAt?
    simp only [hrow, hcol, true_and, Nat.mod_one, Nat.div_one, if_true]
    rw [at4_scattered hσ hg]
    by_cases hi : (row - a) % σ.1 = 0
    · by_cases hj : (col - b) % σ.2 = 0
      · simp only [hi, hj, if_true, and_self]
      · simp only [hi, hj, if_true, if_false, and_false, zero_mul]
    · simp only [hi, if_false, false_and, zero_mul]
  · -- along one axis the tap lies before the first window
    rcases not_and_or.mp hin with hrow | hcol
    · have hnone (step : ℕ) : windowAt? step row a = none := if_neg fun h => hrow h.1
      rw [hnone, hnone]
    · have hnone (step : ℕ) : windowAt? step col b = none := if_neg fun h => hcol h.1
      rw [hnone, hnone]
      cases windowAt? σ.1 row a <;> cases windowAt? 1 row a <;> rfl

theorem correlateInput_scattered (hs : 0 < s.stride.1 ∧ 0 < s.stride.2)
    (hg : g.shape = [N, C, stops s.stride.1 H, stops s.stride.2 W]) (groups : ℕ) (shape : List ℕ) (w : Tensor R) :
    correlateInput s groups shape w g = correlateInput s.dense groups shape w (g.scattered s.stride (H, W)) := by
  unfold correlateInput
  refine ofImages_congr fun n _ c _ h _ v _ => ?_
  rw [sumTo_eq_sum, sumTo_eq_sum]
  refine sum_congr rfl fun o _ => ?_
  rw [sumTaps_eq_sum, sumTaps_eq_sum]
  exact sum_congr rfl fun t _ => windowAt_scattered hs hg _ _ _ _ _ _ _

theorem windowSpread_scattered (hs : 0 < s.stride.1 ∧ 0 < s.stride.2)
    (hg : g.shape = [N, C, stops s.stride.1 H, stops s.stride.2 W]) (table : Tensor R) (shape : List ℕ) :
    windowSpread s table shape g = windowSpread s.dense table shape (g.scattered s.stride (H, W)) := by
  unfold windowSpread
  refine ofImages_congr fun n _ c _ h _ v _ => ?_
  rw [sumTaps_eq_sum, sumTaps_eq_sum]
  exact sum_congr rfl fun t _ => windowAt_scattered hs hg _ _ _ _ _ _ _

theorem correlateKernel_scattered (hs : 0 < s.stride.1 ∧ 0 < s.stride.2)
    (hg : g.shape = [N, C, stops s.stride.1 H, stops s.stride.2 W]) (groups : ℕ) (shape : List ℕ) (x : Tensor R) :
    correlateKernel s groups shape x g = correlateKernel s.dense groups shape x (g.scattered s.stride (H, W)) := by
  unfold correlateKernel
  refine ofImages_congr fun o _ c _ a _ b _ => ?_
  rw [sumTo_eq_sum, sumTo_eq_sum]
  refine sum_congr rfl fun n _ => ?_
  rw [sumTaps_eq_sum, sumTaps_eq_sum, area_batch hg, area_batch (shape_scattered hg)]
  have h := sum_scattered hs hg n o fun i j =>
    x.padded s.pad n (o / (shape.getD 0 0 / groups) * shape.getD 1 0 + c) (i + a) (j + b)
  simpa only [Sweep.dense, Nat.mul_one] using h

/-- The sums over the windows of each channel. -/
theorem biasGradient_scattered {σ : ℕ × ℕ} (hσ : 0 < σ.1 ∧ 0 < σ.2) (hg : g.shape = [N, C, stops σ.1 H, stops σ.2 W]) :
    biasGradient g = biasGradient (g.scattered σ (H, W)) := by
  have hg' : (g.scattered σ (H, W)).shape = [N, C, H, W] := shape_scattered hg
  obtain ⟨g0, g1, -, -⟩ := extents hg
  obtain ⟨e0, e1, -, -⟩ := extents hg'
  unfold biasGradient
  rw [if_neg (by simp [rank, hg]), if_neg (by simp [rank, hg']), g0, g1, e0, e1, area_batch hg, area_batch hg']
  refine congrArg (fun f => Except.ok (ofFlat [C] f)) (funext fun o => ?_)
  rw [sumTo_eq_sum, sumTo_eq_sum]
  refine sum_congr rfl fun n _ => ?_
  rw [sumTaps_eq_sum, sumTaps_eq_sum]
  have h := sum_scattered hσ hg n o fun _ _ => 1
  simpa only [one_mul] using h

end Correlations

/-! ### Smoothing in steps -/

/-- The options of a window at every pixel. -/
def GaussianOptions.dense (o : GaussianOptions) : GaussianOptions := { o with strideH := .int 1, strideW := .int 1 }

theorem dense_stride_pos : 0 < ((1, 1) : ℕ × ℕ).1 ∧ 0 < ((1, 1) : ℕ × ℕ).2 := by decide

/-- The geometry with a window at every pixel. -/
def Geometry.dense (g : Geometry) : Geometry := { g with stride := (1, 1), stride_pos := dense_stride_pos }

namespace Smoother

/-- A smoother with a window at every pixel. -/
def dense {ω : Type} (s : Smoother ω) : Smoother ω := { s with options := s.options.dense }

section Building

variable {ω : Type} {s : Smoother ω} {g : Geometry}

theorem geometry_dense (h : s.geometry = .ok g) : s.dense.geometry = .ok g.dense := by
  rw [geometry_eq_ok_iff] at h ⊢
  obtain ⟨h1, h2, -, -, h5, h6⟩ := h
  exact ⟨h1, h2, rfl, rfl, h5, h6⟩

theorem returns_dense [Scalar ω] {o : GaussianOptions} {globals : GlobalOptions}
    (h : (Smoother.create o globals).Gives s) : (Smoother.create o.dense globals).Returns s.dense := by
  obtain ⟨op, table, hop, hcheck, htable, rfl⟩ := parts_of_create h
  obtain ⟨-, -, hlow, hleft⟩ := check_eq_ok_iff.mp hcheck
  have hstep : (Value.int 1).atMost (.int 0) = .ok false := atMost_zero (Nat.succ_pos 0)
  have hcheck' : Smoother.check o.dense = .ok () := check_eq_ok_iff.mpr ⟨hstep, hstep, hlow, hleft⟩
  exact returns_create (Operator.check_of_create hop) hcheck' htable

/-- A window fits whatever its steps are. -/
theorem fits_dense (hs : s.geometry = .ok g) (shape : List ℕ) : s.dense.fits shape = s.fits shape := by
  have hint (n : ℤ) : (Value.int n).atMost (.int 0) = .ok (decide (n ≤ 0)) := by
    simp [Value.atMost, Value.number?]
  have hnone (size kernel pad : ℕ) {stride : ℕ} (hstride : 0 < stride) :
      decide (positions size kernel 1 pad ≤ 0) = decide (positions size kernel stride pad ≤ 0) := by
    rw [decide_eq_decide, ← not_lt, ← not_lt, positions_pos_iff Nat.one_pos, positions_pos_iff hstride]
  unfold fits
  split
  · rw [outputSize_of_geometry hs, outputSize_of_geometry (geometry_dense hs), ok_bind, ok_bind]
    dsimp only [Geometry.dense]
    rw [hint, hint, hint, hint, hnone _ _ _ g.stride_pos.1, hnone _ _ _ g.stride_pos.2]
    rfl
  · rfl

end Building

variable {R ω : Type} [CommSemiring R] [Stored R ω] {s : Smoother ω} {g : Geometry}

/-- Smoothing in steps is smoothing at every pixel, sampled. -/
theorem smooth_sampled (hs : s.geometry = .ok g) (x : Tensor R) :
    s.smooth x = Tensor.sampled g.stride <$> s.dense.smooth x := by
  unfold smooth accepts
  rw [fits_dense hs, hs, geometry_dense hs]
  cases s.fits x.shape with
  | error f => rfl
  | ok _ =>
    rw [ok_bind, ok_bind, ok_bind, ok_bind]
    show (if Correlates g.sweep (x.shape.getD 1 0) x.shape (kernelShape g (x.shape.getD 1 0)) then _ else _) >>= _ =
      Tensor.sampled g.stride <$> ((if Correlates g.sweep.dense (x.shape.getD 1 0) x.shape
        (kernelShape g (x.shape.getD 1 0)) then _ else _) >>= _)
    by_cases hc : Correlates g.sweep (x.shape.getD 1 0) x.shape (kernelShape g (x.shape.getD 1 0))
    · rw [if_pos hc, if_pos ((correlates_dense_iff g.stride_pos).mp hc)]
      exact congrArg Except.ok (windowAverage_sampled g.stride_pos _ x)
    · rw [if_neg hc, if_neg fun h => hc ((correlates_dense_iff g.stride_pos).mpr h)]
      rfl

theorem sound_dense (hs : s.geometry = .ok g) (hsound : s.Sound) : s.dense.Sound := fun g' hg' => by
  obtain rfl := Except.ok.inj ((geometry_dense hs).symm.trans hg')
  exact hsound g hs

/-- What is spread from windows in steps is what is spread from all windows, with zeros between the steps. -/
theorem adjoint_scattered (hs : s.geometry = .ok g) (hsound : s.Sound) {x z u : Tensor R}
    (hz : s.dense.smooth x = .ok z) (hu : u.shape = (z.sampled g.stride).shape) : ∃ v,
      s.adjoint x.shape u = .ok v ∧ s.dense.adjoint x.shape (u.scattered g.stride z.area) = .ok v := by
  obtain ⟨g', haccepts, hz⟩ := bind_eq_ok_iff.mp hz
  obtain rfl := Except.ok.inj hz
  obtain rfl := Except.ok.inj ((geometry_dense hs).symm.trans (accepts_eq_ok_iff.mp haccepts).2.1)
  obtain ⟨N, C, H, W, hx, -, hc⟩ := extents_of_accepts haccepts
  set z := windowAverage g.dense.sweep (s.dense.table.map (Stored.narrow : ω → R)) x
  have hshape : z.shape = correlationShape g.sweep.dense x.shape (kernelShape g (x.shape.getD 1 0)) :=
    shape_smooth (sound_dense hs hsound) haccepts
  have hz : z.shape = [N, C, (g.sweep.dense.grid g.kernel (H, W)).1, (g.sweep.dense.grid g.kernel (H, W)).2] := by
    rw [hshape, hx]
    rfl
  rw [shape_sampled hz] at hu
  have hstrided : s.accepts x.shape = .ok g := by
    rw [hx] at hc ⊢
    exact accepts_of_geometry hs ((correlates_dense_iff g.stride_pos).mpr hc)
  have hsize : u.shape = correlationShape g.sweep x.shape (kernelShape g (x.shape.getD 1 0)) := by
    rw [hx, hu]
    show _ = [N, C, (g.sweep.grid g.kernel (H, W)).1, (g.sweep.grid g.kernel (H, W)).2]
    rw [g.sweep.grid_dense g.stride_pos]
    rfl
  have hsize' : (u.scattered g.stride z.area).shape =
      correlationShape g.sweep.dense x.shape (kernelShape g (x.shape.getD 1 0)) := by
    rw [area_batch hz, shape_scattered hu, hx]
    rfl
  refine ⟨_, adjoint_eq hstrided hsize, (adjoint_eq haccepts hsize').trans (congrArg Except.ok ?_)⟩
  rw [area_batch hz]
  exact (windowSpread_scattered (s := g.sweep) g.stride_pos hu _ _).symm

end Smoother

/-! ### Batches side by side in steps -/

section Combining

variable {α : Type} [Zero α] {stride a b common i : ℕ} {σ : ℕ × ℕ}

theorem extents_of_common (h : commonExtent? a b = some common) : (a = common ∨ a = 1) ∧ (b = common ∨ b = 1) := by
  unfold commonExtent? at h
  split_ifs at h <;> cases h <;> omega

theorem commonExtent?_stops (hs : 0 < stride) (h : commonExtent? a b = some common) :
    commonExtent? (stops stride a) (stops stride b) = some (stops stride common) := by
  unfold commonExtent? at h
  split_ifs at h with hsame hone
  · obtain rfl := Option.some.inj h
    rcases hsame with rfl | rfl
    · exact if_pos (.inl rfl)
    · exact if_pos (.inr (stops_one hs))
  · obtain rfl := Option.some.inj h
    subst hone
    unfold commonExtent?
    rw [stops_one hs]
    by_cases hsame' : 1 = stops stride b ∨ stops stride b = 1
    · rw [if_pos hsame']
      exact congrArg some (hsame'.elim id Eq.symm)
    · rw [if_neg hsame', if_pos rfl]

theorem sharedIndex_stops (hs : 0 < stride) (ha : a = common ∨ a = 1) (hi : i < stops stride common) :
    sharedIndex (stops stride a) i * stride = sharedIndex a (i * stride) := by
  unfold sharedIndex
  rcases ha with rfl | rfl
  · by_cases hone : a = 1
    · rw [hone, stops_one hs, if_pos rfl, if_pos rfl, Nat.zero_mul]
    · rw [if_neg hone]
      split_ifs with hstops
      · obtain rfl : i = 0 := by omega
        rfl
      · rfl
  · rw [stops_one hs, if_pos rfl, if_pos rfl, Nat.zero_mul]

theorem shared_sampled (hσ : 0 < σ.1 ∧ 0 < σ.2) {t : Tensor α} {I J n c i j : ℕ} (h2 : t.extent 2 = I ∨ t.extent 2 = 1)
    (h3 : t.extent 3 = J ∨ t.extent 3 = 1) (hi : i < stops σ.1 I) (hj : j < stops σ.2 J) :
    (t.sampled σ).shared n c i j = t.shared n c (i * σ.1) (j * σ.2) := by
  obtain ⟨e0, e1, e2, e3⟩ := extents (show (t.sampled σ).shape = _ from shape_ofImages _ _ _ _ _)
  unfold shared
  rw [at4_sampled hσ, e0, e1, e2, e3, sharedIndex_stops hσ.1 h2 hi, sharedIndex_stops hσ.2 h3 hj]

/-- Combining samples is sampling what is combined. -/
theorem combine?_sampled {β γ : Type} [Zero β] [Zero γ] (hσ : 0 < σ.1 ∧ 0 < σ.2) {f : α → β → γ} {s : Tensor α}
    {t : Tensor β} {u : Tensor γ} (h : combine? f s t = some u) :
    combine? f (s.sampled σ) (t.sampled σ) = some (u.sampled σ) := by
  obtain ⟨N, C, I, J, hN, hC, hI, hJ, rfl⟩ := combine?_eq_some_iff.mp h
  obtain ⟨s2, t2⟩ := extents_of_common hI
  obtain ⟨s3, t3⟩ := extents_of_common hJ
  refine combine?_eq_some_iff.mpr ⟨N, C, stops σ.1 I, stops σ.2 J, hN, hC, commonExtent?_stops hσ.1 hI,
    commonExtent?_stops hσ.2 hJ, ?_⟩
  rw [sampled_ofImages hσ]
  refine ofImages_congr fun n _ c _ i hi j hj => ?_
  rw [shared_sampled hσ s2 s3 hi hj, shared_sampled hσ t2 t3 hi hj]

theorem channel_sampled (hσ : 0 < σ.1 ∧ 0 < σ.2) (t : Tensor α) (r : ℕ) :
    (t.sampled σ).channel r = (t.channel r).sampled σ := by
  unfold channel
  rw [sampled_ofImages hσ]
  simp only [at4_sampled hσ]
  rfl

theorem biasImage_sampled (hσ : 0 < σ.1 ∧ 0 < σ.2) (b : Tensor α) : (biasImage b).sampled σ = biasImage b := by
  unfold biasImage
  rw [sampled_ofImages hσ, stops_one hσ.1, stops_one hσ.2]

end Combining

/-! ### The oriented convolution in steps -/

section Convolution

variable {R : Type} [CommSemiring R] {s : Sweep} {groups : ℕ} {x w q y : Tensor R} {bias : Option (Tensor R)}

theorem Blends.sampled (hs : 0 < s.stride.1 ∧ 0 < s.stride.2) {N I J : ℕ} (h : Blends s.dense groups x w q N I J) :
    Blends s groups x w (q.sampled s.stride) N (stops s.stride.1 I) (stops s.stride.2 J) where
  correlates := (correlates_dense_iff hs).mpr h.correlates
  samples := h.samples
  rows := by
    rw [s.grid_dense hs]
    exact commonExtent?_stops hs.1 h.rows
  columns := by
    rw [s.grid_dense hs]
    exact commonExtent?_stops hs.2 h.columns

theorem blendAt_sampled (hs : 0 < s.stride.1 ∧ 0 < s.stride.2) {N I J n o i j : ℕ}
    (h : Blends s.dense groups x w q N I J) (hi : i < stops s.stride.1 I) (hj : j < stops s.stride.2 J) :
    blendAt s groups x w (q.sampled s.stride) n o i j =
      blendAt s.dense groups x w q n o (i * s.stride.1) (j * s.stride.2) := by
  obtain ⟨r2, q2⟩ := extents_of_common h.rows
  obtain ⟨r3, q3⟩ := extents_of_common h.columns
  unfold blendAt
  refine sum_congr rfl fun r _ => ?_
  rw [correlate_sampled hs, shared_sampled hs (by exact r2) (by exact r3) hi hj, shared_sampled hs q2 q3 hi hj]

/-- The convolution in steps is the convolution at every pixel, sampled. -/
theorem steer_sampled (hs : 0 < s.stride.1 ∧ 0 < s.stride.2) (hq : q.extent 1 = 4)
    (h : steer s.dense groups x w bias q = .ok y) :
    steer s groups x w bias (q.sampled s.stride) = .ok (y.sampled s.stride) := by
  obtain ⟨hsquare, x₁, t, hx₁, ht, hbias⟩ := steer_eq_ok_iff.mp h
  obtain ⟨N, I, J, hb, rfl⟩ := (steeredSum_eq_ok_iff hq).mp ht
  refine steer_eq_ok_iff.mpr ⟨hsquare, x₁, _, hx₁, (steeredSum_eq_ok_iff (by exact hq)).mpr
    ⟨N, _, _, hb.sampled hs, rfl⟩,
    ?_⟩
  have hsum : ofImages N (w.extent 0) (stops s.stride.1 I) (stops s.stride.2 J)
      (blendAt s groups x₁ w (q.sampled s.stride)) =
        (ofImages N (w.extent 0) I J (blendAt s.dense groups x₁ w q)).sampled s.stride := by
    rw [sampled_ofImages hs]
    exact ofImages_congr fun n _ o _ i hi j hj => blendAt_sampled hs hb hi hj
  rw [hsum]
  cases bias with
  | none => exact congrArg (Tensor.sampled s.stride) hbias
  | some b =>
    have hsampled := combine?_sampled hs hbias
    rwa [biasImage_sampled hs] at hsampled

end Convolution

section Pass

/-- The orientation of a map at every `σ.1`-th row and every `σ.2`-th column. -/
def Orientation.sampled {β γ : Type} [Zero β] [Zero γ] (σ : ℕ × ℕ) (o : Orientation β γ) : Orientation β γ :=
  ⟨o.smoothed.sampled σ, o.angle.sampled σ, o.sinCos.sampled σ⟩

/-- An estimator with a window at every pixel. -/
def Estimator.dense {ω : Type} (e : Estimator ω) : Estimator ω := { e with smoother := e.smoother.dense }

/-- A forward pass at every `σ.1`-th row and every `σ.2`-th column of one at every pixel. -/
def ForwardPass.strided {α : Type} [Zero α] (σ : ℕ × ℕ) (p : ForwardPass α) : ForwardPass α :=
  { p with interpolation := p.interpolation.sampled σ, sweep := ⟨σ, p.sweep.pad⟩ }

variable {σ : ℕ × ℕ} {e : Estimator ℝ} {g : Geometry} {s : Sweep} {groups : ℕ} {x map w : Tensor ℝ}
  {bias : Option (Tensor ℝ)}

theorem shape_of_orient {o : Orientation ℝ ℝ} {q : Tensor ℝ} (h : orient e map = .ok (o, q)) :
    q.shape = [q.extent 0, 4, q.extent 2, q.extent 3] := by
  obtain ⟨t, -, hr⟩ := orient_eq_ok_iff.mp h
  obtain ⟨-, rfl⟩ := Prod.mk.inj hr
  have hq := (interpolationWeights_eq (shape_angles_eq t)).2
  obtain ⟨q0, -, q2, q3⟩ := extents hq
  rw [q0, q2, q3]
  exact hq

theorem angles_sampled (hσ : 0 < σ.1 ∧ 0 < σ.2) (t : Tensor ℝ) :
    (angles (t.sampled σ) : Tensor ℝ) = (angles t).sampled σ := by
  unfold angles
  rw [sampled_ofImages hσ]
  simp only [at4_sampled hσ]
  rfl

theorem orientationOf_sampled (hσ : 0 < σ.1 ∧ 0 < σ.2) (t : Tensor ℝ) :
    (orientationOf (t.sampled σ) : Orientation ℝ ℝ) = (orientationOf t).sampled σ := by
  unfold orientationOf Orientation.sampled
  dsimp only
  rw [angles_sampled hσ]
  congr 1
  unfold sinesAndCosines
  rw [sampled_ofImages hσ]
  simp only [at4_sampled hσ]
  rfl

theorem interpolationWeights_sampled (hσ : 0 < σ.1 ∧ 0 < σ.2) {angle : Tensor ℝ} {N C I J : ℕ}
    (h : angle.shape = [N, C, I, J]) :
    interpolationWeights (angle.sampled σ) = (interpolationWeights angle).sampled σ := by
  have hsampled := shape_sampled (σ := σ) h
  refine ext_at4 (interpolationWeights_eq hsampled).2 (shape_sampled (interpolationWeights_eq h).2)
    fun n hn r hr i hi j hj => ?_
  rw [at4_blendWeights hsampled hn hr hi hj, at4_sampled hσ,
    at4_blendWeights h hn hr ((lt_stops_iff hσ.1).mp hi) ((lt_stops_iff hσ.2).mp hj)]
  simp only [at4_sampled hσ]

theorem orient_sampled (he : e.smoother.geometry = .ok g) {o : Orientation ℝ ℝ} {q : Tensor ℝ}
    (h : orient e.dense map = .ok (o, q)) : orient e map = .ok (o.sampled g.stride, q.sampled g.stride) := by
  obtain ⟨t, ht, hr⟩ := orient_eq_ok_iff.mp h
  obtain ⟨rfl, rfl⟩ := Prod.mk.inj hr
  refine orient_eq_ok_iff.mpr ⟨t.sampled g.stride, ?_, ?_⟩
  · rw [Smoother.smooth_sampled he, show e.smoother.dense.smooth map = .ok t from ht]
    rfl
  · rw [orientationOf_sampled g.stride_pos, angles_sampled g.stride_pos,
      interpolationWeights_sampled g.stride_pos (shape_angles_eq t)]

/-- The oriented convolution in steps is the one at every pixel, sampled. -/
theorem forwardPass_sampled (he : e.smoother.geometry = .ok g) (hs : s.stride = g.stride) {o : Orientation ℝ ℝ}
    {y : Tensor ℝ} {p : ForwardPass ℝ} (h : forwardPass e.dense s.dense groups x map w bias = .ok (o, y, p)) :
    forwardPass e s groups x map w bias =
      .ok (o.sampled g.stride, y.sampled g.stride, p.strided g.stride) := by
  obtain ⟨q, horient, hsteer, rfl⟩ := forwardPass_eq_ok_iff.mp h
  have hsampled := steer_sampled (by rw [hs]; exact g.stride_pos) (extents (shape_of_orient horient)).2.1 hsteer
  rw [hs] at hsampled
  refine forwardPass_eq_ok_iff.mpr ⟨_, orient_sampled he horient, hsampled, ?_⟩
  rw [← hs]
  rfl

end Pass

/-! ### The gradients in steps -/

section Gradients

variable {R : Type} [CommSemiring R] {s : Sweep} {groups : ℕ} {shape : List ℕ} {x w v : Tensor R} {N C I J : ℕ}

theorem correlationShape_sampled (hs : 0 < s.stride.1 ∧ 0 < s.stride.2) {w : List ℕ}
    (h : v.shape = correlationShape s.dense shape w) : (v.sampled s.stride).shape = correlationShape s shape w := by
  rw [shape_sampled h]
  show _ = [shape.getD 0 0, w.getD 0 0, (s.grid (w.getD 2 0, w.getD 3 0) (shape.getD 2 0, shape.getD 3 0)).1,
    (s.grid (w.getD 2 0, w.getD 3 0) (shape.getD 2 0, shape.getD 3 0)).2]
  rw [s.grid_dense hs]

/-- Numbers at the windows with zeros between the steps. -/
structure Tensor.Sparse (σ : ℕ × ℕ) (N C I J : ℕ) (v : Tensor R) : Prop where
  shape : v.shape = [N, C, I, J]
  zero : ∀ n < N, ∀ c < C, ∀ i < I, ∀ j < J, ¬(i % σ.1 = 0 ∧ j % σ.2 = 0) → v.at4 n c i j = 0

theorem correlateInput?_sampled (hs : 0 < s.stride.1 ∧ 0 < s.stride.2) (hv : v.Sparse s.stride N C I J) {z : Tensor R}
    (h : correlateInput? s.dense groups shape w v = .ok z) :
    correlateInput? s groups shape w (v.sampled s.stride) = .ok z := by
  unfold correlateInput? at h ⊢
  split_ifs at h with hc
  obtain rfl := Except.ok.inj h
  rw [if_pos ⟨(correlates_dense_iff hs).mpr hc.1, correlationShape_sampled hs hc.2⟩,
    correlateInput_scattered hs (shape_sampled hv.shape), scattered_sampled hs hv.shape hv.zero]

theorem correlateKernel?_sampled (hs : 0 < s.stride.1 ∧ 0 < s.stride.2) (hv : v.Sparse s.stride N C I J) {z : Tensor R}
    (h : correlateKernel? s.dense groups shape x v = .ok z) :
    correlateKernel? s groups shape x (v.sampled s.stride) = .ok z := by
  unfold correlateKernel? at h ⊢
  split_ifs at h with hc
  obtain rfl := Except.ok.inj h
  rw [if_pos ⟨(correlates_dense_iff hs).mpr hc.1, correlationShape_sampled hs hc.2⟩,
    correlateKernel_scattered hs (shape_sampled hv.shape), scattered_sampled hs hv.shape hv.zero]

variable {p : ForwardPass R} {u : Tensor R}

/-- The weights of a pass belong to the windows of an output of the given extents. -/
structure ForwardPass.Covers (p : ForwardPass R) (N I J : ℕ) : Prop where
  rotations : p.interpolation.shape = [p.interpolation.extent 0, 4, p.interpolation.extent 2, p.interpolation.extent 3]
  samples : commonExtent? N (p.interpolation.extent 0) = some N
  rows : commonExtent? I (p.interpolation.extent 2) = some I
  columns : commonExtent? J (p.interpolation.extent 3) = some J

/-- Numbers at the windows in steps are weighted like those that stand for them among zeros. -/
theorem share_scattered {σ : ℕ × ℕ} (hσ : 0 < σ.1 ∧ 0 < σ.2) (hp : p.Covers N I J)
    (hu : u.shape = [N, C, stops σ.1 I, stops σ.2 J]) (r : ℕ) : ∃ v : Tensor R, v.Sparse σ N C I J ∧
      p.share (u.scattered σ (I, J)) r = .ok v ∧ (p.strided σ).share u r = .ok (v.sampled σ) := by
  have hU : (u.scattered σ (I, J)).shape = [N, C, I, J] := shape_scattered hu
  obtain ⟨e0, e1, e2, e3⟩ := extents hU
  let v : Tensor R := ofImages N C I J fun n c i j =>
    (u.scattered σ (I, J)).shared n c i j * (p.interpolation.channel r).shared n c i j
  have hv : combine? (· * ·) (u.scattered σ (I, J)) (p.interpolation.channel r) = some v := by
    refine combine?_eq_some_iff.mpr ⟨N, C, I, J, ?_, ?_, ?_, ?_, rfl⟩
    · rw [e0]
      exact hp.samples
    · rw [e1]
      exact commonExtent?_one C
    · rw [e2]
      exact hp.rows
    · rw [e3]
      exact hp.columns
  refine ⟨v, ⟨shape_ofImages _ _ _ _ _, fun n hn c hc i hi j hj hstop => ?_⟩, ?_, ?_⟩
  · rw [at4_ofImages hn hc hi hj]
    unfold shared
    rw [e0, e1, e2, e3, sharedIndex_of_lt hi, sharedIndex_of_lt hj, at4_scattered hσ hu, if_neg hstop, zero_mul]
  · exact fitting_eq_ok_iff.mpr hv
  · have hsampled := combine?_sampled hσ hv
    rw [sampled_scattered hσ hu] at hsampled
    refine fitting_eq_ok_iff.mpr ?_
    show combine? (· * ·) u ((p.interpolation.sampled σ).channel r) = _
    rw [channel_sampled hσ]
    exact hsampled

omit [CommSemiring R] in
theorem ifAsked_mono {asked : Bool} {a b : Except Fault (Tensor R)} {z : Option (Tensor R)}
    (hab : ∀ t, a = .ok t → b = .ok t) (h : ifAsked asked a = .ok z) : ifAsked asked b = .ok z := by
  cases asked with
  | false => exact h
  | true =>
    cases a with
    | error e => cases h
    | ok t =>
      rw [hab t rfl]
      exact h

/-- What comes of one share for each rotation also comes of other shares, if these are the same as far as they
exist. -/
theorem shares_mono {α β : Type} {f f' : ℕ → Except Fault α} {k : α → α → α → α → Except Fault β} {z : β}
    (hf : ∀ r t, f r = .ok t → f' r = .ok t)
    (h : (f 0 >>= fun a => f 1 >>= fun b => f 2 >>= fun c => f 3 >>= k a b c) = .ok z) :
    (f' 0 >>= fun a => f' 1 >>= fun b => f' 2 >>= fun c => f' 3 >>= k a b c) = .ok z := by
  obtain ⟨a, ha, h⟩ := bind_eq_ok_iff.mp h
  obtain ⟨b, hb, h⟩ := bind_eq_ok_iff.mp h
  obtain ⟨c, hc, h⟩ := bind_eq_ok_iff.mp h
  obtain ⟨d, hd, h⟩ := bind_eq_ok_iff.mp h
  rw [hf 0 a ha, ok_bind, hf 1 b hb, ok_bind, hf 2 c hc, ok_bind, hf 3 d hd]
  exact h

/-- The gradients of a pass in steps are those of the pass at every pixel, for the same numbers with zeros
between the steps. -/
theorem gradients_scattered (hs : 0 < s.stride.1 ∧ 0 < s.stride.2) (hsweep : p.sweep = s.dense) (hp : p.Covers N I J)
    (hu : u.shape = [N, C, stops s.stride.1 I, stops s.stride.2 J]) {requested : Requested} {d : Gradients R}
    (h : p.gradients requested (u.scattered s.stride (I, J)) = .ok d) :
    (p.strided s.stride).gradients requested u = .ok d := by
  have hstrided : (p.strided s.stride).sweep = s := by
    show (⟨s.stride, p.sweep.pad⟩ : Sweep) = s
    rw [hsweep]
    rfl
  choose v hsparse hdense hshare using share_scattered hs hp hu
  have hinput (r : ℕ) (z : Tensor R) (h : p.inputShare (u.scattered s.stride (I, J)) r = .ok z) :
      (p.strided s.stride).inputShare u r = .ok z := by
    unfold ForwardPass.inputShare at h ⊢
    rw [hdense, ok_bind, hsweep] at h
    rw [hshare, ok_bind, hstrided]
    exact correlateInput?_sampled hs (hsparse r) h
  have hweight (r : ℕ) (z : Tensor R) (h : p.weightShare (u.scattered s.stride (I, J)) r = .ok z) :
      (p.strided s.stride).weightShare u r = .ok z := by
    unfold ForwardPass.weightShare at h ⊢
    rw [hdense, ok_bind, hsweep] at h
    rw [hshare, ok_bind, hstrided]
    exact correlateKernel?_sampled hs (hsparse r) h
  have hinputs (z : Tensor R) (h : p.inputGradient (u.scattered s.stride (I, J)) = .ok z) :
      (p.strided s.stride).inputGradient u = .ok z := shares_mono hinput h
  have hweights (z : Tensor R) (h : p.weightGradient (u.scattered s.stride (I, J)) = .ok z) :
      (p.strided s.stride).weightGradient u = .ok z := shares_mono hweight h
  rw [ForwardPass.gradients_eq_bind (shape_scattered hu) hdense] at h
  obtain ⟨input, hi, h⟩ := bind_eq_ok_iff.mp h
  obtain ⟨weight, hw, h⟩ := bind_eq_ok_iff.mp h
  obtain ⟨bias, hb, h⟩ := bind_eq_ok_iff.mp h
  rw [← biasGradient_scattered hs hu] at hb
  rw [ForwardPass.gradients_eq_bind hu hshare, ifAsked_mono hinputs hi, ok_bind, ifAsked_mono hweights hw, ok_bind, hb]
  exact h

end Gradients

section Covers

theorem commonExtent?_absorb {a b common : ℕ} (h : commonExtent? a b = some common) :
    commonExtent? common b = some common := by
  unfold commonExtent? at h ⊢
  split_ifs at h with hsame <;> cases h
  · exact if_pos hsame
  · exact if_pos (.inl rfl)

/-- The weights of a forward pass that succeeds belong to the windows of its output. -/
theorem covers_of_forwardPass {e : Estimator ℝ} {s : Sweep} {groups : ℕ} {x map w y : Tensor ℝ}
    {bias : Option (Tensor ℝ)} {o : Orientation ℝ ℝ} {p : ForwardPass ℝ}
    (h : forwardPass e s groups x map w bias = .ok (o, y, p)) :
    ∃ N C I J, y.shape = [N, C, I, J] ∧ p.Covers N I J := by
  obtain ⟨q, horient, hsteer, rfl⟩ := forwardPass_eq_ok_iff.mp h
  have hq := shape_of_orient horient
  obtain ⟨-, x₁, t, -, ht, hbias⟩ := steer_eq_ok_iff.mp hsteer
  obtain ⟨N, I, J, hb, rfl⟩ := (steeredSum_eq_ok_iff (extents hq).2.1).mp ht
  have hcovers : (⟨x, w, q, s, groups⟩ : ForwardPass ℝ).Covers N I J :=
    ⟨hq, commonExtent?_absorb hb.samples, commonExtent?_absorb hb.rows, commonExtent?_absorb hb.columns⟩
  cases bias with
  | none =>
    obtain rfl : _ = y := hbias
    exact ⟨N, _, I, J, shape_ofImages _ _ _ _ _, hcovers⟩
  | some b =>
    obtain ⟨C, -, rfl⟩ := combine_biasImage_eq_some_iff.mp hbias
    exact ⟨N, C, I, J, rfl, hcovers⟩

end Covers

/-! ### The similarity in steps -/

section Similarity

variable {σ : ℕ × ℕ} {N C I J : ℕ}

theorem map_sampled (hσ : 0 < σ.1 ∧ 0 < σ.2) {t : Tensor ℝ} (ht : t.shape = [N, C, I, J]) (f : ℝ → ℝ) :
    (t.map f).sampled σ = (t.sampled σ).map f := by
  have hentry {t : Tensor ℝ} {N C I J n c i j : ℕ} (ht : t.shape = [N, C, I, J]) (hn : n < N) (hc : c < C) (hi : i < I)
      (hj : j < J) : (t.map f).at4 n c i j = f (t.at4 n c i j) := by
    have hlt : ((n * C + c) * I + i) * J + j < t.size := by
      rw [size, ht]
      exact position_lt hn hc hi hj
    rw [at4_eq_flat (by exact ht) hn hc hi hj, flat_map hlt, at4_eq_flat ht hn hc hi hj]
  refine ext_at4 (shape_sampled (by exact ht)) (by exact shape_sampled ht) fun n hn c hc i hi j hj => ?_
  rw [hentry (shape_sampled ht) hn hc hi hj, at4_sampled hσ, at4_sampled hσ,
    hentry ht hn hc ((lt_stops_iff hσ.1).mp hi) ((lt_stops_iff hσ.2).mp hj)]

/-- Averages at every `σ.1`-th row and every `σ.2`-th column. -/
def WindowAverages.sampled (σ : ℕ × ℕ) (v : WindowAverages ℝ) : WindowAverages ℝ :=
  ⟨v.meanA.sampled σ, v.meanB.sampled σ, v.varianceA.sampled σ, v.varianceB.sampled σ, v.covariance.sampled σ⟩

theorem centred_sampled (hσ : 0 < σ.1 ∧ 0 < σ.2) {t first second : Tensor ℝ} (ht : t.shape = [N, C, I, J])
    (hf : first.shape = [N, C, I, J]) (hs : second.shape = [N, C, I, J]) :
    (centred t first second).sampled σ = centred (t.sampled σ) (first.sampled σ) (second.sampled σ) := by
  unfold centred products
  rw [zipWith_sampled hσ ht (by exact hf), zipWith_sampled hσ hf hs]

/-- The similarity is computed window by window. -/
theorem map_factors_sampled (hσ : 0 < σ.1 ∧ 0 < σ.2) {v : WindowAverages ℝ} (hA : v.meanA.shape = [N, C, I, J])
    (hB : v.meanB.shape = [N, C, I, J]) (hAA : v.varianceA.shape = [N, C, I, J])
    (hBB : v.varianceB.shape = [N, C, I, J]) (hAB : v.covariance.shape = [N, C, I, J]) (c1 c2 : ℝ) :
    ((v.sampled σ).factors c1 c2).map = (v.factors c1 c2).map.sampled σ := by
  let f := v.factors c1 c2
  have hlumNum : f.lumNum.sampled σ = ((v.sampled σ).factors c1 c2).lumNum := zipWith_sampled hσ hA hB _
  have hlumDen : f.lumDen.sampled σ = ((v.sampled σ).factors c1 c2).lumDen := zipWith_sampled hσ hA hB _
  have hcsNum : f.csNum.sampled σ = ((v.sampled σ).factors c1 c2).csNum := map_sampled hσ hAB _
  have hcsDen : f.csDen.sampled σ = ((v.sampled σ).factors c1 c2).csDen := zipWith_sampled hσ hAA hBB _
  have hluminance : f.luminance.sampled σ = zipWith (· / ·) (f.lumNum.sampled σ) (f.lumDen.sampled σ) :=
    zipWith_sampled hσ (s := f.lumNum) (t := f.lumDen) hA hA _
  have hcontrast : f.contrastStructure.sampled σ = zipWith (· / ·) (f.csNum.sampled σ) (f.csDen.sampled σ) :=
    zipWith_sampled hσ (s := f.csNum) (t := f.csDen) hAB hAA _
  have hmap : f.map.sampled σ = zipWith (· * ·) (f.luminance.sampled σ) (f.contrastStructure.sampled σ) :=
    zipWith_sampled hσ (s := f.luminance) (t := f.contrastStructure) hA hAB _
  rw [hmap, hluminance, hcontrast, hlumNum, hlumDen, hcsNum, hcsDen]
  rfl

variable {s : Smoother ℝ} {g : Geometry}

/-- The similarity of two batches in steps is their similarity at every pixel, sampled. -/
theorem similarityMap_sampled (hs : s.geometry = .ok g) (c1 c2 : ℝ) (a b : Tensor ℝ) :
    similarityMap s c1 c2 a b = Tensor.sampled g.stride <$> similarityMap s.dense c1 c2 a b := by
  have hshape {x z : Tensor ℝ} (hz : s.dense.smooth x = .ok z) (hx : x.shape = a.shape) :
      z.shape = (windowAverage g.dense.sweep s.table a).shape := by
    obtain ⟨g', haccepts, hz⟩ := bind_eq_ok_iff.mp hz
    obtain rfl := Except.ok.inj ((Smoother.geometry_dense hs).symm.trans (Smoother.accepts_eq_ok_iff.mp haccepts).2.1)
    obtain rfl := Except.ok.inj hz
    simp only [shape_windowAverage, extent, area, hx]
    rfl
  unfold similarityMap windowAverages
  by_cases hab : a.shape = b.shape
  · rw [if_neg (not_not.mpr hab), if_neg (not_not.mpr hab)]
    simp only [Smoother.smooth_sampled hs]
    rcases hA : s.dense.smooth a with _ | meanA
    · rfl
    rcases hB : s.dense.smooth b with _ | meanB
    · rfl
    rcases hAA : s.dense.smooth (products a a) with _ | squareA
    · rfl
    rcases hBB : s.dense.smooth (products b b) with _ | squareB
    · rfl
    rcases hAB : s.dense.smooth (products a b) with _ | cross
    · rfl
    have hA := hshape hA rfl
    have hB := hshape hB hab.symm
    have hAA := hshape hAA rfl
    have hBB := hshape hBB hab.symm
    have hAB := hshape hAB rfl
    rw [shape_windowAverage] at hA hB hAA hBB hAB
    refine congrArg Except.ok ?_
    have hmap := map_factors_sampled g.stride_pos (v := ⟨meanA, meanB, centred squareA meanA meanA,
      centred squareB meanB meanB, centred cross meanA meanB⟩) hA hB hAA hBB hAB c1 c2
    unfold WindowAverages.sampled at hmap
    rw [centred_sampled g.stride_pos hAA hA hA, centred_sampled g.stride_pos hBB hB hB,
      centred_sampled g.stride_pos hAB hA hB] at hmap
    exact hmap
  · rw [if_pos hab, if_pos hab]
    rfl

end Similarity

/-! ### All operations of one window -/

/-- What the windows of a smoother give in steps is what they give at every pixel, at the rows and columns of the
steps: the averages, the outputs of the oriented convolution and the similarity of two batches. What they bring
back is what is brought back at every pixel from the same numbers, with zeros between the steps: the adjoint of
the averages and the gradients of the oriented convolution, which exist at every pixel for aligned arguments. -/
structure SampledEverywhere (s : Smoother ℝ) (g : Geometry) : Prop where
  smooth : ∀ x : Tensor ℝ, s.smooth x = Tensor.sampled g.stride <$> s.dense.smooth x
  spread : ∀ x z u : Tensor ℝ, s.dense.smooth x = .ok z → u.shape = (z.sampled g.stride).shape →
    ∃ v, s.adjoint x.shape u = .ok v ∧ s.dense.adjoint x.shape (u.scattered g.stride z.area) = .ok v
  similarity : ∀ (c1 c2 : ℝ) (a b : Tensor ℝ),
    similarityMap s c1 c2 a b = Tensor.sampled g.stride <$> similarityMap s.dense c1 c2 a b
  convolution : ∀ (op : Operator) (pad : ℕ × ℕ) (groups : ℕ) (x map w : Tensor ℝ) (bias : Option (Tensor ℝ))
    (o : Orientation ℝ ℝ) (y : Tensor ℝ) (p : ForwardPass ℝ),
    forwardPass ⟨op, s.dense⟩ ⟨(1, 1), pad⟩ groups x map w bias = .ok (o, y, p) →
      forwardPass ⟨op, s⟩ ⟨g.stride, pad⟩ groups x map w bias =
        .ok (o.sampled g.stride, y.sampled g.stride, p.strided g.stride) ∧
      ∀ (requested : Requested) (u : Tensor ℝ) (d : Gradients ℝ), u.shape = (y.sampled g.stride).shape →
        p.gradients requested (u.scattered g.stride y.area) = .ok d →
          (p.strided g.stride).gradients requested u = .ok d
  complete : ∀ (op : Operator) (pad : ℕ × ℕ) (groups : ℕ) (x map w : Tensor ℝ) (bias : Option (Tensor ℝ)),
    Aligned ⟨op, s.dense⟩ ⟨(1, 1), pad⟩ groups x map w bias →
      ∃ (o : Orientation ℝ ℝ) (y : Tensor ℝ) (p : ForwardPass ℝ),
        forwardPass ⟨op, s.dense⟩ ⟨(1, 1), pad⟩ groups x map w bias = .ok (o, y, p) ∧
        ∀ (requested : Requested) (u : Tensor ℝ), u.shape = (y.sampled g.stride).shape →
          ∃ d, p.gradients requested (u.scattered g.stride y.area) = .ok d
  layer : ∀ (op : Operator) (groups : ℕ) (x map w : Tensor ℝ) (bias : Option (Tensor ℝ)),
    Accepted ⟨op, s⟩ g groups x map w bias → Aligned ⟨op, s.dense⟩ ⟨(1, 1), g.pad⟩ groups x map w bias

/-- What a layer accepts, the layer with steps of one accepts. -/
theorem Accepted.dense {e : Estimator ℝ} {g : Geometry} {groups : ℕ} {x map w : Tensor ℝ} {bias : Option (Tensor ℝ)}
    (h : Accepted e g groups x map w bias) : Accepted e.dense g.dense groups x map w bias where
  options := by
    obtain ⟨sigma, hsigma⟩ := h.options
    refine ⟨sigma, ?_⟩
    show e.smoother.options.dense = _
    rw [hsigma]
    rfl
  sound := by
    obtain ⟨sigma, hsigma⟩ := h.options
    exact Smoother.sound_dense (Smoother.geometry_gaussian hsigma) h.sound
  correlates := (correlates_dense_iff g.stride_pos).mp h.correlates
  square := h.square
  footprint := h.footprint
  map := h.map
  bias := h.bias

/-- The windows in steps of every geometry, and the windows at every pixel are those that are built from the
options with steps of one. -/
theorem strided_is_sampled {s : Smoother ℝ} {g : Geometry} (hs : s.geometry = .ok g) (hsound : s.Sound) :
    SampledEverywhere s g ∧ s.dense.geometry = .ok g.dense ∧
      ∀ (o : GaussianOptions) (globals : GlobalOptions), (Smoother.create o globals).Gives s →
        (Smoother.create o.dense globals).Returns s.dense := by
  refine ⟨⟨Smoother.smooth_sampled hs, fun x z u => Smoother.adjoint_scattered hs hsound, similarityMap_sampled hs,
    ?_, ?_, fun op groups x map w bias h => h.dense.aligned⟩, Smoother.geometry_dense hs,
    fun _ _ => Smoother.returns_dense⟩
  · intro op pad groups x map w bias o y p h
    let sweep : Sweep := ⟨g.stride, pad⟩
    obtain ⟨N, C, I, J, hy, hcovers⟩ := covers_of_forwardPass h
    obtain ⟨q, -, -, rfl⟩ := forwardPass_eq_ok_iff.mp h
    refine ⟨forwardPass_sampled (e := ⟨op, s⟩) (s := sweep) hs rfl h, fun requested u d hu hd => ?_⟩
    rw [shape_sampled hy] at hu
    rw [area_batch hy] at hd
    exact gradients_scattered (s := sweep) g.stride_pos rfl hcovers hu hd
  · intro op pad groups x map w bias h
    obtain ⟨o, q, -, harranged, hpass⟩ := h.exists_pass
    obtain ⟨N, B, P, H, W, k, ext⟩ := harranged.extents
    refine ⟨o, _, _, hpass, fun requested u hu => ⟨_, gradients_eq harranged ?_ requested⟩⟩
    rw [shape_sampled ext.shape_steered] at hu
    rw [area_batch ext.shape_steered, shape_scattered hu, ext.shape_steered]

/-- Windows of two by two pixels, two rows apart, over an image of four rows. -/
theorem strided_is_sampled_even : (evenSmoother sampleGeometry).geometry = .ok sampleGeometry ∧
    ∃ z : Tensor ℝ, (evenSmoother sampleGeometry).dense.smooth (fill [1, 1, 4, 2] (3 : ℝ)) = .ok z ∧
      (evenSmoother sampleGeometry).smooth (fill [1, 1, 4, 2] (3 : ℝ)) = .ok (z.sampled (2, 1)) := by
  have hs : (evenSmoother sampleGeometry).geometry = .ok sampleGeometry := Smoother.geometry_gaussian rfl
  obtain ⟨hsampled, hdense, -⟩ := strided_is_sampled hs (sound_evenSmoother sampleGeometry)
  have hz := Smoother.smooth_eq (x := fill [1, 1, 4, 2] (3 : ℝ))
    (show (evenSmoother sampleGeometry).dense.accepts [1, 1, 4, 2] = .ok sampleGeometry.dense from
      Smoother.accepts_of_geometry hdense (by decide))
  refine ⟨hs, _, hz, ?_⟩
  rw [hsampled.smooth, hz]
  rfl

end SteeredConv
