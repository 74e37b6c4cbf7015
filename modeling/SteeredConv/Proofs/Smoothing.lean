/-
# Smoothing and its adjoint

Averaging every channel over the windows of a table is the correlation with one kernel
for each channel, so spreading is its adjoint for every table, stride and border. A
smoother that is built has a table of the size of its windows.

Key definitions: `channelKernels`, `Geometry.windowOptions`, `Smoother.Sound`.
Key theorems: `inner_windowAverage`, `Smoother.parts_of_create`, `Smoother.sound_of_create`,
`Smoother.smooth_eq`, `Smoother.adjoint_eq`.
-/
import SteeredConv.Gaussian.Smoother
import SteeredConv.Proofs.Adjoint
import SteeredConv.Proofs.Outcome

namespace SteeredConv

open Finset Tensor

/-! ### Averages as correlations -/

section Windows

variable {R : Type} [CommSemiring R]

def channelKernels (channels : ℕ) (table : Tensor R) : Tensor R :=
  ofImages channels 1 (table.extent 0) (table.extent 1) fun _ _ a b => table.at2 a b

variable {s : Sweep} {table x g : Tensor R} {N C H W : ℕ}

theorem shape_channelKernels (C : ℕ) (table : Tensor R) :
    (channelKernels C table).shape = [C, 1, table.extent 0, table.extent 1] := rfl

theorem at4_channelKernels {C c : ℕ} (hc : c < C) {t : ℕ × ℕ} (ht : t ∈ cells table.footprint) :
    (channelKernels C table).at4 c 0 t.1 t.2 = table.at2 t.1 t.2 := by
  obtain ⟨h1, h2⟩ := mem_cells.mp ht
  unfold channelKernels
  exact at4_ofImages hc Nat.one_pos h1 h2

theorem size_windowAverage_congr {y : Tensor R} (h : y.shape = x.shape) :
    (windowAverage s table y).size = (windowAverage s table x).size := by
  simp only [size, shape_windowAverage, extent, area, h]

theorem at4_windowAverage (hx : x.shape = [N, C, H, W]) {n c : ℕ} (hn : n < N) (hc : c < C) {p : ℕ × ℕ}
    (hp : p ∈ cells (s.grid table.footprint (H, W))) : (windowAverage s table x).at4 n c p.1 p.2 =
      ∑ t ∈ cells table.footprint,
        x.padded s.pad n c (p.1 * s.stride.1 + t.1) (p.2 * s.stride.2 + t.2) * table.at2 t.1 t.2 := by
  obtain ⟨x0, x1, -, -⟩ := extents hx
  rw [mem_cells] at hp
  unfold windowAverage
  rw [x0, x1, area_batch hx, at4_ofImages hn hc hp.1 hp.2]
  exact sumTaps_eq_sum _ _

theorem at4_windowAverage_eq_sum (hx : x.shape = [N, C, H, W]) {n c : ℕ} (hn : n < N) (hc : c < C) {p : ℕ × ℕ}
    (hp : p ∈ cells (s.grid table.footprint (H, W))) : (windowAverage s table x).at4 n c p.1 p.2 =
      ∑ t ∈ cells table.footprint, ∑ q ∈ cells (H, W),
        if s.Meets p t q then table.at2 t.1 t.2 * x.at4 n c q.1 q.2 else 0 := by
  rw [at4_windowAverage hx hn hc hp]
  refine sum_congr rfl fun t _ => ?_
  rw [padded_eq_sum hx, mul_comm, mul_sum]
  refine sum_congr rfl fun q _ => ?_
  rw [mul_ite, mul_zero]

theorem windowAverage_eq (hx : x.shape = [N, C, H, W]) (hC : 0 < C) :
    windowAverage s table x = correlate s C x (channelKernels C table) := by
  obtain ⟨x0, x1, -, -⟩ := extents hx
  obtain ⟨w0, w1, -, -⟩ := extents (shape_channelKernels C table)
  have hw : (channelKernels C table).area = table.footprint := area_batch (shape_channelKernels C table)
  unfold windowAverage correlate
  rw [x0, x1, w0, w1, hw, Nat.div_self hC]
  refine ofImages_congr fun n hn c hc i hi j hj => ?_
  rw [sumTo_succ, sumTo_zero, zero_add, sumTaps_eq_sum, sumTaps_eq_sum]
  refine sum_congr rfl fun t ht => ?_
  rw [at4_channelKernels hc ht, Nat.div_one, Nat.mul_one, Nat.add_zero]

theorem windowSpread_eq (hC : 0 < C) : windowSpread s table [N, C, H, W] g =
    correlateInput s C [N, C, H, W] (channelKernels C table) g := by
  obtain ⟨w0, w1, -, -⟩ := extents (shape_channelKernels C table)
  have hw : (channelKernels C table).area = table.footprint := area_batch (shape_channelKernels C table)
  unfold windowSpread correlateInput
  rw [w0, w1, hw, Nat.div_self hC]
  refine ofImages_congr fun n hn c hc h hh v hv => ?_
  rw [sumTo_succ, sumTo_zero, zero_add, sumTaps_eq_sum, sumTaps_eq_sum]
  refine sum_congr rfl fun t ht => ?_
  rcases windowAt? s.stride.1 (h + s.pad.1) t.1 with _ | i
  · rfl
  rcases windowAt? s.stride.2 (v + s.pad.2) t.2 with _ | j
  · rfl
  dsimp only
  rw [Nat.div_one, Nat.mul_one, Nat.add_zero, Nat.mod_one, at4_channelKernels (by exact hc) ht]

/-- Spreading is the adjoint of averaging. -/
theorem inner_windowAverage (hx : x.shape = [N, C, H, W]) (hC : 0 < C)
    (hs : 0 < s.stride.1 ∧ 0 < s.stride.2) (hg : g.shape = (windowAverage s table x).shape) :
    (windowAverage s table x).inner g = x.inner (windowSpread s table x.shape g) := by
  have hx' : x.shape = [N, C * 1, H, W] := by rw [hx, Nat.mul_one]
  have hw : (channelKernels C table).shape = [C * 1, 1, table.extent 0, table.extent 1] := by
    rw [shape_channelKernels, Nat.mul_one]
  rw [windowAverage_eq hx hC] at hg ⊢
  rw [inner_correlate_input hx' hw hC hs hg, hx, windowSpread_eq hC]

end Windows

/-! ### Smoothers -/

/-- The options of a window with this geometry, whose weights are divided by their sum or not. -/
def Geometry.windowOptions (g : Geometry) (sigma normalize : Value) : GaussianOptions :=
  { g.gaussian sigma with normalize := normalize }

namespace Smoother

variable {ω β : Type}

/-- The table has the size of the windows. -/
def Sound (s : Smoother ω) : Prop := ∀ g, s.geometry = .ok g → s.table.shape = [g.kernel.1, g.kernel.2]

variable {s : Smoother ω} {shape : List ℕ} {g : Geometry}

theorem Sound.footprint (hs : s.Sound) (hg : s.geometry = .ok g) : s.table.footprint = g.kernel := by
  unfold Tensor.footprint extent
  rw [hs g hg]
  rfl

theorem accepts_eq_ok_iff : s.accepts shape = .ok g ↔ s.fits shape = .ok () ∧ s.geometry = .ok g ∧
    Correlates g.sweep (shape.getD 1 0) shape (kernelShape g (shape.getD 1 0)) := by
  unfold accepts
  constructor
  · intro h
    obtain ⟨_, hfits, h⟩ := bind_eq_ok_iff.mp h
    obtain ⟨g', hg, h⟩ := bind_eq_ok_iff.mp h
    dsimp only at h
    split at h
    · rename_i hc
      obtain rfl : g' = g := Except.ok.inj h
      exact ⟨hfits, hg, hc⟩
    · cases h
  · rintro ⟨hfits, hg, hc⟩
    rw [hfits, ok_bind, hg, ok_bind, if_pos hc]
    rfl

theorem extents_of_accepts (h : s.accepts shape = .ok g) :
    ∃ N C H W, shape = [N, C, H, W] ∧ 0 < C ∧ Correlates g.sweep C shape (kernelShape g C) := by
  obtain ⟨-, -, hc⟩ := accepts_eq_ok_iff.mp h
  obtain ⟨N, B, P, H, W, a, b, hx, hw, hG, -⟩ := hc.extents
  rw [hx] at hG hc ⊢
  exact ⟨N, _, H, W, rfl, hG, hc⟩

variable [Zero β] [Add β] [Mul β] [Stored β ω]

/-- An accepted batch is averaged. -/
theorem smooth_eq {x : Tensor β} (h : s.accepts x.shape = .ok g) :
    s.smooth x = .ok (windowAverage g.sweep (s.table.map Stored.narrow) x) := by
  unfold smooth
  rw [h]
  rfl

/-- A batch of the size of the averages of an accepted batch is spread over its pixels. -/
theorem adjoint_eq {y : Tensor β} (h : s.accepts shape = .ok g)
    (hy : y.shape = correlationShape g.sweep shape (kernelShape g (shape.getD 1 0))) :
    s.adjoint shape y = .ok (windowSpread g.sweep (s.table.map Stored.narrow) shape y) := by
  obtain ⟨-, hg, hc⟩ := accepts_eq_ok_iff.mp h
  have hchannels : y.extent 1 = shape.getD 1 0 := by
    unfold extent
    rw [hy]
    rfl
  have hrank : ¬y.shape.length < 2 := by
    rw [hy]
    show ¬4 < 2
    omega
  unfold adjoint
  rw [if_neg hrank, hg]
  dsimp only [bind, Except.bind]
  rw [hchannels, if_pos ⟨hc, hy⟩]
  rfl

theorem table_of_accepts (hs : s.Sound) (h : s.accepts shape = .ok g) : s.table.shape = [g.kernel.1, g.kernel.2] :=
  hs g (accepts_eq_ok_iff.mp h).2.1

theorem shape_smooth {x : Tensor β} (hs : s.Sound) (h : s.accepts x.shape = .ok g) :
    (windowAverage g.sweep (s.table.map (Stored.narrow : ω → β)) x).shape =
      correlationShape g.sweep x.shape (kernelShape g (x.shape.getD 1 0)) := by
  have ht : (s.table.map (Stored.narrow : ω → β)).footprint = g.kernel :=
    hs.footprint (accepts_eq_ok_iff.mp h).2.1
  rw [shape_windowAverage, ht]
  rfl

/-! ### Building a smoother -/

theorem count_eq_ok_iff {v : Value} {n : ℤ} : v.count = .ok n ↔ v = .int n := by
  cases v <;> simp [Value.count]

theorem axisOf_int {α : Type} [Scalar α] {n : ℤ} {r : ℕ × α}
    (h : GaussianOptions.axisOf α (.int n) = .ok r) :
    r.1 = n.toNat := by
  unfold GaussianOptions.axisOf at h
  cases h
  rfl

theorem ofPairs_eq_ok_iff {owner : OptionSet} {kernel stride pad : ℤ × ℤ} :
    Geometry.ofPairs owner kernel stride pad = .ok g ↔
      kernel = Geometry.ints g.kernel ∧ stride = Geometry.ints g.stride ∧ pad = Geometry.ints g.pad := by
  obtain ⟨kernel₀, stride₀, pad₀, hk₀, hs₀⟩ := g
  unfold Geometry.ofPairs Geometry.ints
  constructor
  · intro h
    split_ifs at h
    simp only [Except.ok.injEq, Geometry.mk.injEq] at h
    obtain ⟨rfl, rfl, rfl⟩ := h
    simp only [Prod.ext_iff]
    omega
  · rintro ⟨rfl, rfl, rfl⟩
    rw [dif_pos (by dsimp only; omega), dif_pos (by dsimp only; omega), if_pos (by dsimp only; omega)]
    rfl

theorem kernel_of_ofPairs {owner : OptionSet} {kernel stride pad : ℤ × ℤ}
    (h : Geometry.ofPairs owner kernel stride pad = .ok g) :
    g.kernel = (kernel.1.toNat, kernel.2.toNat) := by
  obtain ⟨rfl, -, -⟩ := ofPairs_eq_ok_iff.mp h
  rfl

/-- A smoother has the geometry that its options are. -/
theorem geometry_eq_ok_iff : s.geometry = .ok g ↔
    s.options.kernelH = .int g.kernel.1 ∧ s.options.kernelW = .int g.kernel.2 ∧
    s.options.strideH = .int g.stride.1 ∧ s.options.strideW = .int g.stride.2 ∧
    s.options.padH = .int g.pad.1 ∧ s.options.padW = .int g.pad.2 := by
  unfold geometry
  simp only [bind_eq_ok_iff, count_eq_ok_iff, ofPairs_eq_ok_iff, Geometry.ints]
  constructor
  · rintro ⟨k1, h1, k2, h2, s1, h3, s2, h4, p1, h5, p2, h6, hk, hs, hp⟩
    simp only [Prod.mk.injEq] at hk hs hp
    obtain ⟨⟨rfl, rfl⟩, ⟨rfl, rfl⟩, rfl, rfl⟩ := And.intro hk (And.intro hs hp)
    exact ⟨h1, h2, h3, h4, h5, h6⟩
  · rintro ⟨h1, h2, h3, h4, h5, h6⟩
    exact ⟨_, h1, _, h2, _, h3, _, h4, _, h5, _, h6, rfl, rfl, rfl⟩

/-- The table of options that are whole numbers has their size. -/
theorem shape_table {α : Type} [Scalar α] {o : GaussianOptions} {t : Tensor α} {rows cols : ℤ}
    (hr : o.kernelH = .int rows) (hc : o.kernelW = .int cols) (h : o.table α = .ok t) :
    t.shape = [rows.toNat, cols.toNat] := by
  unfold GaussianOptions.table at h
  obtain ⟨flat, -, h⟩ := bind_eq_ok_iff.mp h
  dsimp only at h
  split at h
  · cases h
  · obtain ⟨narrow, -, h⟩ := bind_eq_ok_iff.mp h
    split at h
    · cases h
    · obtain ⟨sigma, -, h⟩ := bind_eq_ok_iff.mp h
      obtain ⟨r, hr', h⟩ := bind_eq_ok_iff.mp h
      obtain ⟨c, hc', h⟩ := bind_eq_ok_iff.mp h
      cases h
      rw [hr] at hr'
      rw [hc] at hc'
      rw [shape_gaussianTable, axisOf_int hr', axisOf_int hc']

/-- What a smoother is built from: an operator, options that are accepted, and their table. -/
theorem parts_of_create {α : Type} [Scalar α] {o : GaussianOptions} {options : GlobalOptions} {s : Smoother α}
    (h : (Smoother.create o options).Gives s) : ∃ op table, (Operator.create .smoother options).Gives op ∧
      Smoother.check o = .ok () ∧ o.table α = .ok table ∧ s = ⟨op, o, table⟩ := by
  obtain ⟨op, hop, h⟩ := Action.gives_bind h
  obtain ⟨⟨⟩, hcheck, h⟩ := Action.gives_bind h
  obtain ⟨table, htable, h⟩ := Action.gives_bind h
  exact ⟨op, table, hop, Action.gives_liftM hcheck, Action.gives_liftM htable, (Action.gives_pure h).symm⟩

/-- A smoother that is built keeps its options and has a table of the size of its windows. -/
theorem sound_of_create {α : Type} [Scalar α] {o : GaussianOptions} {options : GlobalOptions}
    {s : Smoother α} (h : (Smoother.create o options).Gives s) : s.options = o ∧ s.Sound := by
  obtain ⟨_, table, -, -, htable, rfl⟩ := parts_of_create h
  refine ⟨rfl, fun g hg => ?_⟩
  unfold geometry at hg
  obtain ⟨rows, hr, hg⟩ := bind_eq_ok_iff.mp hg
  obtain ⟨cols, hc, hg⟩ := bind_eq_ok_iff.mp hg
  obtain ⟨_, -, hg⟩ := bind_eq_ok_iff.mp hg
  obtain ⟨_, -, hg⟩ := bind_eq_ok_iff.mp hg
  obtain ⟨_, -, hg⟩ := bind_eq_ok_iff.mp hg
  obtain ⟨_, -, hg⟩ := bind_eq_ok_iff.mp hg
  rw [kernel_of_ofPairs hg]
  exact shape_table (count_eq_ok_iff.mp hr) (count_eq_ok_iff.mp hc) htable

/-! ### Windows of a given geometry -/

theorem atMost_zero {n : ℕ} (hn : 0 < n) : (Value.int n).atMost (.int 0) = .ok false := by
  simp only [Value.atMost, Value.number?, Number.le_whole, Except.ok.injEq, decide_eq_false_iff_not]
  omega

/-- The table of a window is that of its footprint, around the middle. -/
theorem table_windowOptions {α : Type} [Scalar α] (g : Geometry) (sigma normalize : Value) :
    (g.windowOptions sigma normalize).table α =
      (fun deviation => gaussianTable g.kernel.1 g.kernel.2 (middle g.kernel.1, middle g.kernel.2) deviation
        normalize.isTrue) <$> (g.gaussian sigma).deviation α := by
  unfold GaussianOptions.table
  show ((Value.int g.kernel.1).atMost (.int 0) >>= _) = _
  rw [atMost_zero g.kernel_pos.1, ok_bind]
  show ((Value.int g.kernel.2).atMost (.int 0) >>= _) = _
  rw [atMost_zero g.kernel_pos.2, ok_bind]
  show ((g.gaussian sigma).deviation α >>= _) = _
  cases (g.gaussian sigma).deviation α <;> rfl

theorem table_gaussian {α : Type} [Scalar α] (g : Geometry) (sigma : Value) : (g.gaussian sigma).table α =
    (fun deviation => gaussianTable g.kernel.1 g.kernel.2 (middle g.kernel.1, middle g.kernel.2) deviation true) <$>
      (g.gaussian sigma).deviation α :=
  table_windowOptions g sigma (.bool true)

theorem table_of_create {α : Type} [Scalar α] {sigma : Value} {options : GlobalOptions} {s : Smoother α}
    (h : (Smoother.create (g.gaussian sigma) options).Gives s) : ∃ deviation,
      (g.gaussian sigma).deviation α = .ok deviation ∧
        s.table = gaussianTable g.kernel.1 g.kernel.2 (middle g.kernel.1, middle g.kernel.2) deviation true := by
  obtain ⟨_, table, -, -, htable, rfl⟩ := parts_of_create h
  rw [table_gaussian, map_eq_pure_bind] at htable
  obtain ⟨deviation, hdeviation, htable⟩ := bind_eq_ok_iff.mp htable
  exact ⟨deviation, hdeviation, (Except.ok.inj htable).symm⟩

theorem geometry_gaussian {sigma : Value} (h : s.options = g.gaussian sigma) : s.geometry = .ok g := by
  rw [geometry_eq_ok_iff, h]
  exact ⟨rfl, rfl, rfl, rfl, rfl, rfl⟩

theorem positionsOf_int (size kernel pad : ℤ) {stride : ℕ} (hs : 0 < stride) :
    positionsOf (.int size) (.int kernel) (.int stride) (.int pad) =
      .ok (.int (Int.fdiv (size + 2 * pad - kernel) stride + 1)) := by
  have : (stride : ℤ) ≠ 0 := by omega
  simp only [positionsOf, Value.number?, Number.combine, Number.floorDiv, ok_bind, if_neg this]
  rfl

theorem outputSize_of_geometry (h : s.geometry = .ok g) (height width : ℕ) :
    s.outputSize (.int height) (.int width) = .ok (.int (positions height g.kernel.1 g.stride.1 g.pad.1),
      .int (positions width g.kernel.2 g.stride.2 g.pad.2)) := by
  obtain ⟨h1, h2, h3, h4, h5, h6⟩ := geometry_eq_ok_iff.mp h
  unfold outputSize
  dsimp only
  rw [h1, h2, h3, h4, h5, h6, positionsOf_int _ _ _ g.stride_pos.1, ok_bind, positionsOf_int _ _ _ g.stride_pos.2,
    ok_bind]
  rfl

theorem fits_of_geometry (h : s.geometry = .ok g) {n c height width : ℕ}
    (hh : g.kernel.1 ≤ height + 2 * g.pad.1) (hw : g.kernel.2 ≤ width + 2 * g.pad.2) :
    s.fits [n, c, height, width] = .ok () := by
  unfold fits
  dsimp only
  rw [outputSize_of_geometry h, ok_bind, positions_eq hh, positions_eq hw]
  dsimp only
  rw [atMost_zero (Nat.succ_pos _), ok_bind]
  rw [if_neg Bool.false_ne_true, atMost_zero (Nat.succ_pos _), ok_bind]
  rfl

theorem accepts_of_geometry (h : s.geometry = .ok g) {n c height width : ℕ}
    (hc : Correlates g.sweep c [n, c, height, width] (kernelShape g c)) :
    s.accepts [n, c, height, width] = .ok g := by
  have hfit : g.kernel.1 ≤ height + 2 * g.pad.1 ∧ g.kernel.2 ≤ width + 2 * g.pad.2 := by
    obtain ⟨-, -, -, -, -, -, -, -, -, -, hfit⟩ := hc
    exact hfit
  rw [accepts_eq_ok_iff]
  exact ⟨fits_of_geometry h hfit.1 hfit.2, h, hc⟩

theorem accepts_gaussian {sigma : Value} (h : s.options = g.gaussian sigma) {n c height width : ℕ}
    (hc : Correlates g.sweep c [n, c, height, width] (kernelShape g c)) :
    s.accepts [n, c, height, width] = .ok g :=
  accepts_of_geometry (geometry_gaussian h) hc

end Smoother

theorem Estimator.smoother_of_create {α : Type} [Scalar α] {o : GaussianOptions} {options : GlobalOptions}
    {e : Estimator α} (h : (Estimator.create o options).Gives e) : (Smoother.create o options).Gives e.smoother := by
  obtain ⟨_, -, h⟩ := Action.gives_bind h
  obtain ⟨s, hs, h⟩ := Action.gives_bind h
  obtain rfl := Action.gives_pure h
  exact hs

end SteeredConv
