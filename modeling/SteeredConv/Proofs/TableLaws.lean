/-
# The shape of Gaussian tables

A normalized table has positive entries of sum one. An entry depends on how far it is from the middle of
the footprint and on nothing else, and never grows with that distance, so mirroring an axis changes nothing,
and neither do transposing and turning where the footprint is square. Exponents are raised to minus fifty
where they are less. As long as the corners of the footprint lie within ten deviations of the middle, as
they do for the deviation that belongs to a footprint, none is, and the table is the product of a row and a
column.

Key definitions: `offCentre`, `cellExponent`, `cellMass`, `WithinDeviations`, `IsGaussian`.
Key theorems: `at2_eq_cellMass`, `isGaussian_gaussianTable`, `withinDeviations_footprint`,
`GaussianOptions.table_of_whole`, `gaussian_tables_lawful`.
-/
import SteeredConv.Proofs.UniformMaps

namespace SteeredConv

open Finset Tensor

/-! ### The mass of a cell -/

section Masses

variable {rows cols : ℕ} {sigma : ℝ} {p q : ℕ × ℕ}

/-- The square of the distance of a cell from the middle of the footprint. -/
noncomputable def offCentre (rows cols : ℕ) (p : ℕ × ℕ) : ℝ :=
  (p.1 - ((rows : ℝ) - 1) / two) ^ 2 + (p.2 - ((cols : ℝ) - 1) / two) ^ 2

/-- The exponent of the Gaussian weight of a cell, as it is. -/
noncomputable def cellExponent (rows cols : ℕ) (sigma : ℝ) (p : ℕ × ℕ) : ℝ :=
  -offCentre rows cols p / (two * sigma ^ 2)

/-- The Gaussian weight of a cell up to a factor that all cells share. -/
noncomputable def cellMass (rows cols : ℕ) (sigma : ℝ) (p : ℕ × ℕ) : ℝ :=
  Real.exp (atLeast (-((50 : ℕ) : ℝ)) (cellExponent rows cols sigma p))

theorem offCentre_eq (rows cols : ℕ) (p : ℕ × ℕ) :
    offCentre rows cols p = (p.1 - ((rows : ℝ) - 1) / 2) ^ 2 + (p.2 - ((cols : ℝ) - 1) / 2) ^ 2 := by
  unfold offCentre
  rw [two_real]

theorem cellExponent_eq (rows cols : ℕ) (sigma : ℝ) (p : ℕ × ℕ) :
    cellExponent rows cols sigma p = -offCentre rows cols p / (2 * sigma ^ 2) := by
  unfold cellExponent
  rw [two_real]

theorem cellMass_eq (rows cols : ℕ) (sigma : ℝ) (p : ℕ × ℕ) :
    cellMass rows cols sigma p = Real.exp (atLeast (-50) (cellExponent rows cols sigma p)) := by
  unfold cellMass
  norm_num

theorem cellMass_pos (rows cols : ℕ) (sigma : ℝ) (p : ℕ × ℕ) : 0 < cellMass rows cols sigma p := Real.exp_pos _

theorem cellMass_congr (h : offCentre rows cols p = offCentre rows cols q) :
    cellMass rows cols sigma p = cellMass rows cols sigma q := by
  unfold cellMass cellExponent
  rw [h]

theorem cellMass_le (h : offCentre rows cols p ≤ offCentre rows cols q) :
    cellMass rows cols sigma q ≤ cellMass rows cols sigma p := by
  have hexponent : cellExponent rows cols sigma q ≤ cellExponent rows cols sigma p :=
    div_le_div_of_nonneg_right (neg_le_neg h) (by rw [two_real]; positivity)
  rw [cellMass_eq, cellMass_eq, atLeast_eq_max, atLeast_eq_max]
  exact Real.exp_le_exp.mpr (max_le_max le_rfl hexponent)

theorem middle_eq (n : ℕ) : (middle n : ℝ) = ((n : ℝ) - 1) / 2 := by
  unfold middle
  rw [two_real]

theorem gaussianWeight_cell (rows cols : ℕ) (sigma : ℝ) (p : ℕ × ℕ) :
    gaussianWeight sigma (p.1 - middle rows) (p.2 - middle cols) =
      cellMass rows cols sigma p / (2 * Real.pi * (sigma * sigma)) := by
  have hclamp : (-((50 : ℕ) : ℝ)) = -50 := by norm_num
  have hexponent : -((p.2 - middle cols) * (p.2 - middle cols) + (p.1 - middle rows) * (p.1 - middle rows)) /
      (2 * (sigma * sigma)) = cellExponent rows cols sigma p := by
    rw [cellExponent_eq, offCentre_eq, middle_eq, middle_eq]
    ring
  unfold gaussianWeight
  dsimp only
  rw [two_real, hclamp, hexponent, cellMass_eq]
  rfl

/-- An entry of a normalized table is the share of its cell in the mass of all cells. -/
theorem at2_eq_cellMass (hs : sigma ≠ 0) (hp : p ∈ cells (rows, cols)) :
    (gaussianTable rows cols (middle rows, middle cols) sigma true).at2 p.1 p.2 =
      cellMass rows cols sigma p / ∑ q ∈ cells (rows, cols), cellMass rows cols sigma q := by
  have hfactor : 2 * Real.pi * (sigma * sigma) ≠ 0 := by
    have := Real.pi_ne_zero
    positivity
  have hraw : ∀ q ∈ cells (rows, cols), (rawTable rows cols (middle rows, middle cols) sigma).at2 q.1 q.2 =
      cellMass rows cols sigma q / (2 * Real.pi * (sigma * sigma)) := fun q hq => by
    obtain ⟨ha, hb⟩ := mem_cells.mp hq
    rw [at2_rawTable ha hb, gaussianWeight_cell]
  have hshape : (rawTable rows cols (middle rows, middle cols) sigma).shape = [rows, cols] := rfl
  obtain ⟨ha, hb⟩ := mem_cells.mp hp
  rw [at2_gaussianTable ha hb, sum_eq_sum_at2 hshape, sum_congr rfl hraw, ← sum_div, gaussianWeight_cell,
    div_div_div_cancel_right₀ hfactor]

theorem sum_cellMass_pos (sigma : ℝ) (hr : 0 < rows) (hc : 0 < cols) :
    0 < ∑ q ∈ cells (rows, cols), cellMass rows cols sigma q :=
  sum_pos (fun q _ => cellMass_pos rows cols sigma q) ⟨(0, 0), mem_cells.mpr ⟨hr, hc⟩⟩

end Masses

/-! ### Footprints within ten deviations -/

section Deviations

variable {rows cols : ℕ} {sigma : ℝ} {p q : ℕ × ℕ}

/-- The corners of a footprint lie within ten deviations of its middle. -/
def WithinDeviations (rows cols : ℕ) (sigma : ℝ) : Prop :=
  ((rows : ℝ) - 1) ^ 2 + ((cols : ℝ) - 1) ^ 2 ≤ ((400 : ℕ) : ℝ) * sigma ^ 2

theorem withinDeviations_iff :
    WithinDeviations rows cols sigma ↔ ((rows : ℝ) - 1) ^ 2 + ((cols : ℝ) - 1) ^ 2 ≤ 400 * sigma ^ 2 := by
  unfold WithinDeviations
  norm_num

theorem sq_sub_middle_le {n a : ℕ} (ha : a < n) : ((a : ℝ) - ((n : ℝ) - 1) / 2) ^ 2 ≤ ((n : ℝ) - 1) ^ 2 / 4 := by
  have hlast : (a : ℝ) + 1 ≤ n := by exact_mod_cast ha
  have hfirst : (0 : ℝ) ≤ a := Nat.cast_nonneg a
  nlinarith

/-- Within ten deviations of the middle no exponent is raised. -/
theorem WithinDeviations.atLeast_eq (h : WithinDeviations rows cols sigma) (hs : 0 < sigma)
    (hp : p ∈ cells (rows, cols)) :
    atLeast (-50) (cellExponent rows cols sigma p) = cellExponent rows cols sigma p := by
  obtain ⟨ha, hb⟩ := mem_cells.mp hp
  have hrow := sq_sub_middle_le ha
  have hcolumn := sq_sub_middle_le hb
  rw [withinDeviations_iff] at h
  rw [atLeast_eq_max, cellExponent_eq, offCentre_eq]
  refine max_eq_right ?_
  rw [le_div_iff₀ (by positivity)]
  linarith

/-- Where no exponent is raised masses are products. -/
theorem WithinDeviations.cellMass_mul (h : WithinDeviations rows cols sigma) (hs : 0 < sigma)
    (hp : p ∈ cells (rows, cols)) (hq : q ∈ cells (rows, cols)) :
    cellMass rows cols sigma p * cellMass rows cols sigma q =
      cellMass rows cols sigma (p.1, q.2) * cellMass rows cols sigma (q.1, p.2) := by
  obtain ⟨ha, hb⟩ := mem_cells.mp hp
  obtain ⟨ha', hb'⟩ := mem_cells.mp hq
  have hcross := h.atLeast_eq hs (p := (p.1, q.2)) (mem_cells.mpr ⟨ha, hb'⟩)
  have hcross' := h.atLeast_eq hs (p := (q.1, p.2)) (mem_cells.mpr ⟨ha', hb⟩)
  have hsum : cellExponent rows cols sigma p + cellExponent rows cols sigma q =
      cellExponent rows cols sigma (p.1, q.2) + cellExponent rows cols sigma (q.1, p.2) := by
    unfold cellExponent offCentre
    ring
  rw [cellMass_eq, cellMass_eq, cellMass_eq, cellMass_eq, h.atLeast_eq hs hp, h.atLeast_eq hs hq, hcross, hcross',
    ← Real.exp_add, ← Real.exp_add, hsum]

/-- The corners of every footprint lie within ten of the deviations that belong to it. -/
theorem withinDeviations_footprint (hr : 0 < rows) (hc : 0 < cols) :
    WithinDeviations rows cols (footprintDeviation rows cols) := by
  have hrows : (1 : ℝ) ≤ rows := by exact_mod_cast hr
  have hcols : (1 : ℝ) ≤ cols := by exact_mod_cast hc
  rw [withinDeviations_iff]
  unfold footprintDeviation
  push_cast
  nlinarith

end Deviations

/-! ### Tables -/

section Tables

variable {rows cols : ℕ} {sigma : ℝ}

/-- A table of a footprint as the Gaussian weights of a deviation make it. -/
structure IsGaussian (rows cols : ℕ) (sigma : ℝ) (table : Tensor ℝ) : Prop where
  shape : table.shape = [rows, cols]
  entry : ∀ p ∈ cells (rows, cols), table.at2 p.1 p.2 =
    cellMass rows cols sigma p / ∑ q ∈ cells (rows, cols), cellMass rows cols sigma q
  positive : ∀ p ∈ cells (rows, cols), 0 < table.at2 p.1 p.2
  total : ∑ p ∈ cells (rows, cols), table.at2 p.1 p.2 = 1
  mirrored : ∀ p ∈ cells (rows, cols), table.at2 (rows - 1 - p.1) p.2 = table.at2 p.1 p.2 ∧
    table.at2 p.1 (cols - 1 - p.2) = table.at2 p.1 p.2
  transposed : rows = cols → ∀ p ∈ cells (rows, cols), table.at2 p.2 p.1 = table.at2 p.1 p.2
  turned : rows = cols → ∀ r : ℤ, rotate table r = (fun _ => table) <$> requireTurnCount r
  ordered : ∀ p ∈ cells (rows, cols), ∀ q ∈ cells (rows, cols), offCentre rows cols p ≤ offCentre rows cols q →
    table.at2 q.1 q.2 ≤ table.at2 p.1 p.2
  unclamped : WithinDeviations rows cols sigma → ∀ p ∈ cells (rows, cols),
    atLeast (-50) (cellExponent rows cols sigma p) = cellExponent rows cols sigma p
  separable : WithinDeviations rows cols sigma → ∀ p ∈ cells (rows, cols), ∀ q ∈ cells (rows, cols),
    table.at2 p.1 p.2 * table.at2 q.1 q.2 = table.at2 p.1 q.2 * table.at2 q.1 p.2

/-- Turning a round table changes nothing. -/
theorem IsRound.rotate_eq {table : Tensor ℝ} {k : ℕ} (h : IsRound table k) (r : ℤ) :
    rotate table r = (fun _ => table) <$> requireTurnCount r := by
  have hshape : table.shape = [] ++ [k, k] := h.shape
  have hcolumns : table.extent 1 = k := by simp [extent, h.shape]
  have hplane : ∀ p, table.plane k 0 p = table.at2 p.1 p.2 := fun p => by
    unfold plane at2
    rw [hcolumns, Nat.zero_mul, Nat.zero_add]
  have hturned : ∀ n : ℕ, ∀ p ∈ cells (k, k),
      table.at2 (turnedSource k n p).1 (turnedSource k n p).2 = table.at2 p.1 p.2 := by
    intro n
    induction n with
    | zero => exact fun p _ => rfl
    | succ n ih => exact fun p hp => (ih _ (turnedSource_mem (r := 1) hp)).trans (h.turns p hp)
  have hsame : SteeredConv.turned (turnsOf r) table = table :=
    ext_plane (t := SteeredConv.turned _ table) hshape hshape fun b hb p hp => by
      obtain rfl : b = 0 := Nat.lt_one_iff.mp hb
      rw [plane_turned hshape _ hb hp, hplane, hplane, hturned _ p hp]
  rw [rotate_of_square hshape, hsame]
  unfold requireTurnCount
  split_ifs <;> rfl

theorem offCentre_mirror_row {p : ℕ × ℕ} (hp : p ∈ cells (rows, cols)) :
    offCentre rows cols (rows - 1 - p.1, p.2) = offCentre rows cols p := by
  have hrow := mirror_sub_middle (mem_cells.mp hp).1
  rw [middle_eq] at hrow
  rw [offCentre_eq, offCentre_eq, hrow, neg_sq]

theorem offCentre_mirror_column {p : ℕ × ℕ} (hp : p ∈ cells (rows, cols)) :
    offCentre rows cols (p.1, cols - 1 - p.2) = offCentre rows cols p := by
  have hcolumn := mirror_sub_middle (mem_cells.mp hp).2
  rw [middle_eq] at hcolumn
  rw [offCentre_eq, offCentre_eq, hcolumn, neg_sq]

/-- The normalized table of a footprint has all these properties, whatever the deviation is. -/
theorem isGaussian_gaussianTable (hr : 0 < rows) (hc : 0 < cols) (hs : 0 < sigma) :
    IsGaussian rows cols sigma (gaussianTable rows cols (middle rows, middle cols) sigma true) := by
  have hshape := shape_gaussianTable rows cols (middle rows, middle cols) sigma true
  have hsum := sum_cellMass_pos sigma hr hc
  have hentry {p : ℕ × ℕ} (hp : p ∈ cells (rows, cols)) :
      (gaussianTable rows cols (middle rows, middle cols) sigma true).at2 p.1 p.2 =
        cellMass rows cols sigma p / ∑ q ∈ cells (rows, cols), cellMass rows cols sigma q :=
    at2_eq_cellMass hs.ne' hp
  have hcongr {p q : ℕ × ℕ} (hp : p ∈ cells (rows, cols)) (hq : q ∈ cells (rows, cols))
      (h : offCentre rows cols p = offCentre rows cols q) :
      (gaussianTable rows cols (middle rows, middle cols) sigma true).at2 p.1 p.2 =
        (gaussianTable rows cols (middle rows, middle cols) sigma true).at2 q.1 q.2 := by
    rw [hentry hp, hentry hq, cellMass_congr h]
  refine ⟨hshape, fun p hp => hentry hp, fun p hp => ?_, ?_, fun p hp => ?_, ?_, ?_, fun p hp q hq h => ?_,
    fun h p hp => h.atLeast_eq hs hp, fun h p hp q hq => ?_⟩
  · rw [hentry hp]
    exact div_pos (cellMass_pos _ _ _ _) hsum
  · rw [sum_congr rfl fun p hp => hentry hp, ← sum_div]
    exact div_self hsum.ne'
  · obtain ⟨ha, hb⟩ := mem_cells.mp hp
    dsimp only at ha hb
    have hrow : (rows - 1 - p.1, p.2) ∈ cells (rows, cols) := mem_cells.mpr ⟨by dsimp only; omega, hb⟩
    have hcolumn : (p.1, cols - 1 - p.2) ∈ cells (rows, cols) := mem_cells.mpr ⟨ha, by dsimp only; omega⟩
    exact ⟨hcongr hrow hp (offCentre_mirror_row hp), hcongr hcolumn hp (offCentre_mirror_column hp)⟩
  · rintro rfl p hp
    refine hcongr (p := (p.2, p.1)) (mem_cells.mpr (mem_cells.mp hp).symm) hp ?_
    exact add_comm _ _
  · rintro rfl
    exact (isRound_gaussianTable rows sigma).rotate_eq
  · rw [hentry hp, hentry hq]
    exact div_le_div_of_nonneg_right (cellMass_le h) hsum.le
  · obtain ⟨ha, hb⟩ := mem_cells.mp hp
    obtain ⟨ha', hb'⟩ := mem_cells.mp hq
    have hcross := hentry (p := (p.1, q.2)) (mem_cells.mpr ⟨ha, hb'⟩)
    have hcross' := hentry (p := (q.1, p.2)) (mem_cells.mpr ⟨ha', hb⟩)
    rw [hentry hp, hentry hq, hcross, hcross', div_mul_div_comm, div_mul_div_comm, h.cellMass_mul hs hp hq]

end Tables

/-! ### Tables of options -/

section Options

variable {o : GaussianOptions} {g : Geometry}

/-- Of options whose footprint is whole, the deviation depends on the footprint and what is given alone. -/
theorem GaussianOptions.deviation_of_whole {ω : Type} [Scalar ω] (hh : o.kernelH.number? = some (.whole g.kernel.1))
    (hw : o.kernelW.number? = some (.whole g.kernel.2)) : o.deviation ω = (g.gaussian o.sigma).deviation ω := by
  have hkernel : o.wholeKernel? = some (g.kernel.1, g.kernel.2) := by
    unfold wholeKernel?
    rw [hh, hw]
    rfl
  have hkernel' : (g.gaussian o.sigma).wholeKernel? = some (g.kernel.1, g.kernel.2) := rfl
  have hnull : (g.gaussian o.sigma).sigma.isNull = o.sigma.isNull := rfl
  unfold deviation
  rw [hkernel, hkernel', hnull]
  cases hsigma : o.sigma.isNull with
  | true => rfl
  | false =>
    have hresolved : o.resolvedSigma = .ok o.sigma := by
      unfold resolvedSigma
      rw [hsigma]
      rfl
    have hresolved' : (g.gaussian o.sigma).resolvedSigma = .ok o.sigma := by
      unfold resolvedSigma
      rw [hnull, hsigma]
      rfl
    dsimp only
    rw [hresolved, hresolved']

/-- Of options whose footprint is whole, the table is that of the deviation, around the middle. -/
theorem GaussianOptions.table_of_whole {ω : Type} [Scalar ω] (hh : o.kernelH.number? = some (.whole g.kernel.1))
    (hw : o.kernelW.number? = some (.whole g.kernel.2)) : o.table ω =
      (fun deviation => gaussianTable g.kernel.1 g.kernel.2 (middle g.kernel.1, middle g.kernel.2) deviation
        o.normalize.isTrue) <$> o.deviation ω := by
  have hpositive {v : Value} {n : ℕ} (hv : v.number? = some (.whole n)) (hn : 0 < n) :
      v.atMost (.int 0) = .ok false := by
    have hle := Smoother.atMost_zero hn
    unfold Value.atMost at hle ⊢
    rw [hv]
    exact hle
  have haxis {v : Value} {n : ℕ} (hv : v.number? = some (.whole n)) : axisOf ω v = .ok (n, middle n) := by
    unfold axisOf
    rw [hv]
    rfl
  unfold table
  rw [hpositive hh g.kernel_pos.1, ok_bind, hpositive hw g.kernel_pos.2, haxis hh, haxis hw]
  show (o.deviation ω >>= _) = _
  cases o.deviation ω <;> rfl

/-- The table of options for a footprint is the normalized one of their deviation, if they have one. That is
the given number or what belongs to the footprint, unless it is beyond the range of floating-point numbers. -/
structure GaussianOptions.Tabled (o : GaussianOptions) (rows cols : ℕ) : Prop where
  table : o.table ℝ =
    (fun sigma => gaussianTable rows cols (middle rows, middle cols) sigma true) <$> o.deviation ℝ
  positive : o.sigma.Finite → ∀ sigma, o.deviation ℝ = .ok sigma → 0 < sigma
  given : ∀ n : Number, o.sigma.number? = some n → n.le (.whole 0) = false → n.checkSquare = .ok () →
    o.deviation ℝ = .ok n.toScalar
  default : o.sigma.isNull = true → rows + cols < 12 * Nat.pow (Nat.pow 2 256) 2 →
    o.deviation ℝ = .ok (footprintDeviation rows cols)

theorem GaussianOptions.tabled_of_whole (hh : o.kernelH.number? = some (.whole g.kernel.1))
    (hw : o.kernelW.number? = some (.whole g.kernel.2)) (hnormalize : o.normalize.isTrue = true) :
    o.Tabled g.kernel.1 g.kernel.2 := by
  have hdeviation : o.deviation ℝ = (g.gaussian o.sigma).deviation ℝ := deviation_of_whole hh hw
  refine ⟨?_, fun hfinite sigma h => ?_, fun n hn hpos hsquare => ?_, fun hnull hrange => ?_⟩
  · rw [table_of_whole hh hw, hnormalize]
  · rw [hdeviation] at h
    exact deviation_pos hfinite h
  · have hsigma : requireSigma .gaussian o.sigma = .ok () := by
      refine requireSigma_eq_ok_iff.mpr (.inr ?_)
      unfold Value.atMost
      rw [hn]
      exact congrArg Except.ok hpos
    rw [hdeviation, deviation_eq g hsigma, hn]
    dsimp only
    rw [hsquare]
    rfl
  · have hnone : o.sigma.number? = none := by
      cases hsigma : o.sigma <;> rw [hsigma] at hnull <;> first | rfl | cases hnull
    have hsigma : requireSigma .gaussian o.sigma = .ok () := requireSigma_eq_ok_iff.mpr (.inl hnull)
    rw [hdeviation, deviation_eq g hsigma, hnone]
    exact if_pos hrange

/-- Normalized tables, for every footprint and every deviation: positive entries of sum one, the same from
all sides and never greater farther from the middle, and separable within ten deviations, as they are for
the deviation that belongs to the footprint. They are the tables of all options for the footprint. -/
theorem gaussian_tables_lawful {rows cols : ℕ} (hr : 0 < rows) (hc : 0 < cols) :
    (∀ sigma : ℝ, 0 < sigma →
      IsGaussian rows cols sigma (gaussianTable rows cols (middle rows, middle cols) sigma true)) ∧
    WithinDeviations rows cols (footprintDeviation rows cols) ∧
    ∀ o : GaussianOptions, o.kernelH.number? = some (.whole rows) → o.kernelW.number? = some (.whole cols) →
      o.normalize.isTrue = true → o.Tabled rows cols := by
  let footprint : Geometry := ⟨(rows, cols), (1, 1), (0, 0), ⟨hr, hc⟩, ⟨Nat.one_pos, Nat.one_pos⟩⟩
  exact ⟨fun _ hs => isGaussian_gaussianTable hr hc hs, withinDeviations_footprint hr hc,
    fun _ hh hw hnormalize => GaussianOptions.tabled_of_whole (g := footprint) hh hw hnormalize⟩

/-- A footprint of two rows and three columns, for a deviation so small that the exponents of its corners
are raised, and for the options that name its sizes alone. -/
theorem gaussian_tables_lawful_sample :
    IsGaussian 2 3 (1 / 16) (gaussianTable 2 3 (middle 2, middle 3) (1 / 16) true) ∧
    WithinDeviations 2 3 (footprintDeviation 2 3) ∧
    GaussianOptions.Tabled { kernelH := .int 2, kernelW := .int 3 } 2 3 := by
  have hr : 0 < 2 := by decide
  have hc : 0 < 3 := by decide
  obtain ⟨htable, hdefault, hoptions⟩ := gaussian_tables_lawful hr hc
  exact ⟨htable (1 / 16) (by norm_num), hdefault, hoptions _ rfl rfl rfl⟩

end Options
end SteeredConv
