/-
# What a layer does with shapes

A layer that has been set up refuses a batch and its map by their shapes alone. What it
accepts it also computes, with one result for every window of the map, whatever the
numbers are: no law of arithmetic is used, so that this holds of numbers that are
rounded as well. What can still go wrong is an angle that is no number, which has no
sector, and a number of groups that is a truth value.

Key definitions: `windowPositions`, `IsNumber`, `ConvLayer.Misfits`, `ConvLayer.HasAngles`,
`ConvLayer.Covers`, `ConvLayer.SizesAgree`.
Key theorems: `steer_shape`, `ConvLayer.sizeFor_of_misfits`, `ConvLayer.compute_cases`,
`ConvLayer.forward_after_reshape`.
-/
import SteeredConv.Proofs.ExactFloat
import SteeredConv.Proofs.LayerSetup
import SteeredConv.Proofs.Responses

namespace SteeredConv

open Tensor

/-! ### Windows along an axis -/

section Positions

variable {size kernel stride pad : ℕ}

/-- The positions at which a window ends inside the padded image. -/
def windowPositions (size kernel stride pad : ℕ) : Set ℕ := {i | i * stride + kernel ≤ size + 2 * pad}

theorem ncard_windowPositions (hs : 0 < stride) :
    (windowPositions size kernel stride pad).ncard = windows size kernel stride pad := by
  have h : windowPositions size kernel stride pad = ↑(Finset.range (windows size kernel stride pad)) := by
    ext i
    simp [windowPositions, lt_windows_iff hs]
  rw [h, Set.ncard_coe_finset, Finset.card_range]

/-- The number of positions that is computed is not positive exactly if the window does not fit. -/
theorem positions_pos_iff (hs : 0 < stride) :
    0 < positions size kernel stride pad ↔ kernel ≤ size + 2 * pad := by
  have hstride : (0 : ℤ) < stride := by omega
  unfold positions
  rw [Int.fdiv_eq_ediv_of_nonneg _ hstride.le]
  constructor
  · intro h
    have hroom := (Int.ediv_nonneg_iff_of_pos (a := (size : ℤ) + 2 * pad - kernel) hstride).mp (by omega)
    omega
  · intro h
    have hroom := (Int.ediv_nonneg_iff_of_pos (a := (size : ℤ) + 2 * pad - kernel) hstride).mpr (by omega)
    omega

theorem positions_eq_windows (h : kernel ≤ size + 2 * pad) :
    positions size kernel stride pad = (windows size kernel stride pad : ℕ) := by
  rw [positions_eq h]
  unfold windows
  rw [if_pos h]

end Positions

/-! ### Shapes of a convolution -/

section Responses

variable {α : Type} [Zero α] [Add α] [Mul α] {s : Sweep} {groups : ℕ} {x w q : Tensor α}
  {bias : Option (Tensor α)} {N B P H W k : ℕ}

/-- Arranged arrays have a response to every rotation. -/
theorem Extents.exists_response (e : Extents s groups x w bias q N B P H W k)
    (hc : Correlates s groups x.shape w.shape) (r : ℕ) : ∃ t, weightedResponse s groups x w q r = .ok t ∧
      t.shape = [N, groups * P, (s.grid (k, k) (H, W)).1, (s.grid (k, k) (H, W)).2] := by
  have hresponse : (correlate s groups x (turned r w)).shape =
      [N, groups * P, (s.grid (k, k) (H, W)).1, (s.grid (k, k) (H, W)).2] := by
    have hw : (turned r w).shape = [groups * P, B, k, k] := e.kernel
    obtain ⟨x0, -, -, -⟩ := extents e.batch
    obtain ⟨w0, -, -, -⟩ := extents hw
    unfold correlate
    rw [x0, w0, area_batch hw, area_batch e.batch, shape_ofImages]
  obtain ⟨r0, r1, r2, r3⟩ := extents hresponse
  obtain ⟨q0, q1, q2, q3⟩ := extents e.weights
  have hsame : ∀ a, commonExtent? a a = some a := fun a => if_pos (Or.inl rfl)
  unfold weightedResponse correlate?
  rw [if_pos (by exact hc), ok_bind]
  refine ⟨_, fitting_eq_ok_iff.mpr (combine?_eq_some_iff.mpr ⟨_, _, _, _, ?_, ?_, ?_, ?_, rfl⟩),
    shape_ofImages _ _ _ _ _⟩
  · rw [r0]
    show commonExtent? N (q.extent 0) = _
    rw [q0, hsame]
  · rw [r1]
    exact commonExtent?_one _
  · rw [r2]
    show commonExtent? _ (q.extent 2) = _
    rw [q2, hsame]
  · rw [r3]
    show commonExtent? _ (q.extent 3) = _
    rw [q3, hsame]

/-- Arranged arrays are convolved, with one result for every kernel and window. -/
theorem steer_shape (h : Arranged s groups x w bias q) :
    ∃ y, steer s groups x w bias q = .ok y ∧ y.shape = correlationShape s x.shape w.shape := by
  obtain ⟨N, B, P, H, W, k, e⟩ := h.extents
  obtain ⟨p₀, h₀, hshape⟩ := e.exists_response h.correlates 0
  obtain ⟨p₁, h₁, -⟩ := e.exists_response h.correlates 1
  obtain ⟨p₂, h₂, -⟩ := e.exists_response h.correlates 2
  obtain ⟨p₃, h₃, -⟩ := e.exists_response h.correlates 3
  have hsum : steeredSum s groups x w q =
      .ok (zipWith (· + ·) (zipWith (· + ·) (zipWith (· + ·) p₀ p₁) p₂) p₃) := by
    unfold steeredSum
    rw [h₀, h₁, h₂, h₃]
    rfl
  have hcorrelation : correlationShape s x.shape w.shape =
      [N, groups * P, (s.grid (k, k) (H, W)).1, (s.grid (k, k) (H, W)).2] := by
    rw [e.batch, e.kernel]
    rfl
  unfold steer requireSquare
  rw [if_pos h.square, toImages?_batch e.batch, fitting_some, ok_bind, ok_bind, hsum, ok_bind, hcorrelation]
  cases hb : bias with
  | none => exact ⟨_, rfl, hshape⟩
  | some b =>
    -- the bias is as long as the batch has channels
    have hsize : b.size = groups * P := by
      rw [size, e.bias b hb]
      simp
    obtain ⟨y0, y1, y2, y3⟩ := extents hshape
    refine ⟨_, fitting_eq_ok_iff.mpr (combine_biasImage_eq_some_iff.mpr ⟨groups * P, ?_, rfl⟩), ?_⟩
    · show commonExtent? (p₀.extent 1) b.size = _
      rw [y1, hsize]
      exact if_pos (Or.inl rfl)
    · show (ofImages (p₀.extent 0) _ (p₀.extent 2) (p₀.extent 3) _).shape = _
      rw [shape_ofImages, y0, y2, y3]

end Responses

/-! ### Angles that are numbers -/

section Angles

variable {α : Type} [Scalar α]

/-- Being an angle whose position among the sectors is a number: only what is no number differs from
itself. -/
def IsNumber (angle : α) : Prop := (quarterTurns angle == quarterTurns angle) = true

variable {angle : Tensor α} {N I J : ℕ}

theorem shape_interpolationWeights (h : angle.shape = [N, 1, I, J]) :
    (interpolationWeights angle).shape = [N, 4, I, J] := by
  show angle.extent 0 :: rotations :: angle.shape.drop 2 = _
  rw [(extents h).1, h]
  rfl

theorem any_entries_iff {p : α → Bool} {t : Tensor α} :
    t.entries.any p = true ↔ ∃ i < t.size, p (t.flat i) = true := by
  have hflat : ∀ (i : ℕ) (h : i < t.entries.size), t.flat i = t.entries[i] := fun i h => by
    simp [flat, Array.getD, h]
  have hsize : t.entries.size = t.size := t.size_entries
  rw [Array.any_eq_true]
  constructor
  · rintro ⟨i, hi, h⟩
    exact ⟨i, hsize ▸ hi, by rwa [hflat i hi]⟩
  · rintro ⟨i, hi, h⟩
    have hi' : i < t.entries.size := hsize ▸ hi
    exact ⟨i, hi', by rwa [← hflat i hi']⟩

/-- The angles of a batch have weights exactly if all of them are numbers. -/
theorem interpolationWeights?_of_numbers (h : angle.shape = [N, 1, I, J])
    (hnumbers : ∀ i < angle.size, IsNumber (angle.flat i)) :
    interpolationWeights? angle = .ok (interpolationWeights angle) := by
  have hrank : angle.rank = 4 := congrArg List.length h
  have hany : ¬(angle.entries.any fun a => !(quarterTurns a == quarterTurns a)) = true := by
    rw [any_entries_iff]
    rintro ⟨i, hi, hne⟩
    have := hnumbers i hi
    unfold IsNumber at this
    simp [this] at hne
  unfold interpolationWeights?
  rw [if_neg (by simp [hrank, hany]), if_neg (by omega)]

theorem interpolationWeights?_of_not (h : ¬∀ i < angle.size, IsNumber (angle.flat i)) :
    interpolationWeights? angle = .error .outOfRange := by
  push Not at h
  obtain ⟨i, hi, hnot⟩ := h
  have hany : (angle.entries.any fun a => !(quarterTurns a == quarterTurns a)) = true := by
    rw [any_entries_iff]
    exact ⟨i, hi, by simpa [IsNumber] using hnot⟩
  unfold interpolationWeights?
  rw [if_pos (Or.inr hany)]

end Angles

/-! ### Shapes that are refused -/

theorem same_int_iff {v : Value} {n m : ℤ} (h : v.number? = some (.whole n)) :
    v.same (.int m) = true ↔ n = m := by
  cases v <;> simp only [Value.number?, Option.some.injEq, Number.whole.injEq, reduceCtorEq] at h
  all_goals
    subst h
    simp [Value.same, Value.number?, Number.compare?]

namespace ConvLayer

section Refusals

variable {α ω : Type} {l : ConvLayer α ω} {groups B P : ℕ} {input map : List ℕ}

/-- Why the shapes of a batch and its map are refused: one of them has not four extents, the channels are
not those of the layer or not the two of a map, samples, rows or columns differ, or the window does not
fit. -/
def Misfits (l : ConvLayer α ω) (input map : List ℕ) : Prop :=
  input.length ≠ 4 ∨ map.length ≠ 4 ∨ l.inChannels.number? ≠ some (.whole (input.getD 1 0 : ℕ)) ∨
    map.getD 1 0 ≠ 2 ∨ map.getD 0 0 ≠ input.getD 0 0 ∨ map.getD 2 0 ≠ input.getD 2 0 ∨
    map.getD 3 0 ≠ input.getD 3 0 ∨ input.getD 2 0 + 2 * l.geometry.pad.1 < l.geometry.kernel.1 ∨
    input.getD 3 0 + 2 * l.geometry.pad.2 < l.geometry.kernel.2

/-- The size of the output for images of the given size: one entry for every window. -/
def gridOf (l : ConvLayer α ω) (H W : ℕ) : ℕ × ℕ := l.geometry.sweep.grid l.geometry.kernel (H, W)

/-- Shapes that nothing is wrong with are those of a batch and its map, and they have a size. -/
theorem sizeFor_of_not_misfits (hl : l.Fitted groups B P) (h : ¬l.Misfits input map) :
    ∃ N H W, input = [N, groups * B, H, W] ∧ map = [N, 2, H, W] ∧
      l.geometry.kernel.1 ≤ H + 2 * l.geometry.pad.1 ∧ l.geometry.kernel.2 ≤ W + 2 * l.geometry.pad.2 ∧
        l.sizeFor input map = .ok (l.gridOf H W) := by
  unfold Misfits at h
  push Not at h
  obtain ⟨hinput, hmap, hc, hc', hn, hh, hw, hfit, hfit'⟩ := h
  obtain ⟨n, c, H, W, rfl⟩ := List.length_eq_four.mp hinput
  obtain ⟨n', c', H', W', rfl⟩ := List.length_eq_four.mp hmap
  simp only [List.getD_cons_zero, List.getD_cons_succ] at hc hc' hn hh hw hfit hfit'
  subst hc' hn hh hw
  obtain rfl : groups * B = c := by
    rw [hl.channels, Option.some.injEq, Number.whole.injEq] at hc
    exact_mod_cast hc
  have hsame : l.inChannels.same (.int (groups * B : ℕ)) = true := (same_int_iff hl.channels).mpr rfl
  refine ⟨n', H', W', rfl, rfl, hfit, hfit', ?_⟩
  unfold sizeFor Geometry.outputSize
  dsimp only
  rw [hsame, positions_eq_windows hfit, positions_eq_windows hfit', if_neg (by simp), if_neg (by simp),
    if_neg (by simp), if_neg]
  · rfl
  · have hrows : 0 < windows H' l.geometry.kernel.1 l.geometry.stride.1 l.geometry.pad.1 := windows_pos_iff.mpr hfit
    have hcolumns : 0 < windows W' l.geometry.kernel.2 l.geometry.stride.2 l.geometry.pad.2 := windows_pos_iff.mpr hfit'
    omega

/-- Shapes that something is wrong with are refused. -/
theorem sizeFor_of_misfits (hl : l.Fitted groups B P) (h : l.Misfits input map) :
    ∃ f, l.sizeFor input map = .error (.shape f) := by
  unfold sizeFor
  split
  · rename_i n c H W n' c' H' W'
    dsimp only
    split_ifs with hc hc' hsize hfit
    · exact ⟨_, rfl⟩
    · exact ⟨_, rfl⟩
    · exact ⟨_, rfl⟩
    · exact ⟨_, rfl⟩
    · exfalso
      have hsame : l.inChannels.number? = some (.whole c) := by
        rw [Bool.not_eq_false, same_int_iff hl.channels] at hc
        rw [hl.channels, hc]
      have hrows : 0 < positions H l.geometry.kernel.1 l.geometry.stride.1 l.geometry.pad.1 := by
        unfold Geometry.outputSize at hfit
        dsimp only at hfit
        omega
      have hcolumns : 0 < positions W l.geometry.kernel.2 l.geometry.stride.2 l.geometry.pad.2 := by
        unfold Geometry.outputSize at hfit
        dsimp only at hfit
        omega
      rw [positions_pos_iff l.geometry.stride_pos.1] at hrows
      rw [positions_pos_iff l.geometry.stride_pos.2] at hcolumns
      simp only [Misfits, List.length_cons, List.length_nil, List.getD_cons_zero, List.getD_cons_succ, hsame,
        ne_eq, not_true_eq_false, false_or] at h
      omega
  · exact ⟨_, rfl⟩

/-- Asking two tensors for their sizes. -/
theorem result_reshape (a b : AnyTensor) (l : ConvLayer α ω) (j : Journal) :
    ((reshape a.operand b.operand).outcome l j).1.1 = l.sizeFor a.shape b.shape := by
  have hshapes : shapesOf a.operand b.operand = .ok (a.shape, b.shape) := by
    unfold shapesOf
    by_cases h : a.shape.length = 4
    · show (if a.shape.length = 4 then _ else _) = _
      rw [if_pos h]
      rfl
    · show (if a.shape.length = 4 then _ else _) = _
      rw [if_neg h]
      rfl
  unfold reshape
  rw [outcome_loggedChange, Update.outcome_liftM_bind hshapes, outcome_settle]
  cases l.sizeFor a.shape b.shape <;> rfl

theorem groups_eq (hl : l.Fitted groups B P) {n : ℤ} (h : l.options.group = .int n) : l.groups = .ok groups := by
  have hn : n = groups := by
    have hgroup := hl.group
    rw [h] at hgroup
    simpa [Value.number?] using hgroup
  unfold ConvLayer.groups
  rw [h, hn]
  rfl

theorem groups_of_not (h : ¬∃ n, l.options.group = .int n) : l.groups = .error (.wrongType "") := by
  unfold ConvLayer.groups
  cases hgroup : l.options.group
  case int n => exact absurd ⟨n, hgroup⟩ h
  all_goals rfl

/-- The sizes that are computed for a map agree: its smoother accepts it and gives the same size, which
counts the windows along both axes. -/
structure SizesAgree (l : ConvLayer α ω) (N H W : ℕ) (size : ℕ × ℕ) : Prop where
  fits : l.estimator.smoother.fits [N, 2, H, W] = .ok ()
  outputSize : l.estimator.smoother.outputSize (.int H) (.int W) = .ok (.int size.1, .int size.2)
  rows : size.1 = (windowPositions H l.geometry.kernel.1 l.geometry.stride.1 l.geometry.pad.1).ncard
  columns : size.2 = (windowPositions W l.geometry.kernel.2 l.geometry.stride.2 l.geometry.pad.2).ncard

theorem sizesAgree {N H W : ℕ} (hl : l.Fitted groups B P)
    (hh : l.geometry.kernel.1 ≤ H + 2 * l.geometry.pad.1) (hw : l.geometry.kernel.2 ≤ W + 2 * l.geometry.pad.2) :
    l.SizesAgree N H W (l.gridOf H W) := by
  obtain ⟨sigma, hoptions⟩ := hl.sound.options
  refine ⟨Smoother.fits_of_geometry (Smoother.geometry_gaussian hoptions) hh hw, ?_, ?_, ?_⟩
  · rw [Smoother.outputSize_of_geometry (Smoother.geometry_gaussian hoptions), positions_eq_windows hh,
      positions_eq_windows hw]
    rfl
  · exact (ncard_windowPositions l.geometry.stride_pos.1).symm
  · exact (ncard_windowPositions l.geometry.stride_pos.2).symm

end Refusals

/-! ### Shapes that are accepted -/

section Answers

variable {α ω : Type} [Scalar α] [Stored α ω] [Directed α α] {l : ConvLayer α ω} {groups B P N H W : ℕ}
  {x map : Tensor α}

/-- Every angle that the layer finds for a map is a number. -/
def HasAngles (l : ConvLayer α ω) (map : Tensor α) : Prop :=
  ∀ o : Orientation α α, l.estimator.estimate map = .ok o → ∀ i < o.angle.size, IsNumber (o.angle.flat i)

/-- The results of a pass have one entry for each sample, channel and window. -/
structure Covers (l : ConvLayer α ω) (N : ℕ) (size : ℕ × ℕ) (r : Orientation α α × Tensor α × ForwardPass α) :
    Prop where
  output : ∃ O : ℕ, l.options.numOutput = .int O ∧ r.2.1.shape = [N, O, size.1, size.2]
  sinCos : r.1.sinCos.shape = [N, 2, size.1, size.2]
  smoothed : r.1.smoothed.shape = [N, 2, size.1, size.2]
  interpolation : r.2.2.interpolation.shape = [N, 4, size.1, size.2]

def smoothedMap (l : ConvLayer α ω) (map : Tensor α) : Tensor α :=
  windowAverage l.geometry.sweep (l.estimator.smoother.table.map Stored.narrow) map

/-- A map that the windows fit has an orientation at every window. -/
theorem estimate_eq (hl : l.Fitted groups B P) (hmap : map.shape = [N, 2, H, W]) (hpixels : 0 < H ∧ 0 < W)
    (hh : l.geometry.kernel.1 ≤ H + 2 * l.geometry.pad.1) (hw : l.geometry.kernel.2 ≤ W + 2 * l.geometry.pad.2) :
    (l.smoothedMap map).shape = [N, 2, (l.gridOf H W).1, (l.gridOf H W).2] ∧
      l.estimator.estimate map = .ok (orientationOf (l.smoothedMap map) : Orientation α α) := by
  obtain ⟨sigma, hoptions⟩ := hl.sound.options
  have hc : Correlates l.geometry.sweep 2 [N, 2, H, W] (Smoother.kernelShape l.geometry 2) := by
    have hk := l.geometry.kernel_pos
    have hs := l.geometry.stride_pos
    show 0 < 2 ∧ 0 < l.geometry.stride.1 ∧ _
    exact ⟨by omega, hs.1, hs.2, hk.1, hk.2, by omega, by omega, by omega, by omega, .inr hpixels, hh, hw⟩
  have haccepts : l.estimator.smoother.accepts map.shape = .ok l.geometry := by
    rw [hmap]
    exact Smoother.accepts_gaussian hoptions hc
  constructor
  · unfold smoothedMap
    rw [Smoother.shape_smooth hl.sound.smoother haccepts, hmap]
    rfl
  · unfold Estimator.estimate
    rw [Smoother.smooth_eq haccepts]
    rfl

theorem hasAngles_iff {o : Orientation α α} (h : l.estimator.estimate map = .ok o) :
    l.HasAngles map ↔ ∀ i < o.angle.size, IsNumber (o.angle.flat i) := by
  constructor
  · intro hangles
    exact hangles o h
  · intro hnumbers o' ho
    obtain rfl := Except.ok.inj (h.symm.trans ho)
    exact hnumbers

/-- The weights of the rotations for a map, as numbers of the batch. -/
def weightsOf (l : ConvLayer α ω) (map : Tensor α) : Tensor α :=
  (interpolationWeights (angles (l.smoothedMap map) : Tensor α)).map fun x => Stored.narrow (Stored.widen x)

/-- The orientation of a map that the windows fit has weights exactly if all angles are numbers. -/
theorem orient_cases (hl : l.Fitted groups B P) (hmap : map.shape = [N, 2, H, W]) (hpixels : 0 < H ∧ 0 < W)
    (hh : l.geometry.kernel.1 ≤ H + 2 * l.geometry.pad.1) (hw : l.geometry.kernel.2 ≤ W + 2 * l.geometry.pad.2) :
    (l.HasAngles map → orient l.estimator map =
        (.ok (orientationOf (l.smoothedMap map), l.weightsOf map) : Except Fault (Orientation α α × Tensor α))) ∧
      (¬l.HasAngles map →
        orient l.estimator map = (.error .outOfRange : Except Fault (Orientation α α × Tensor α))) := by
  obtain ⟨hsmoothed, hestimate⟩ := estimate_eq hl hmap hpixels hh hw
  have hangle : (angles (l.smoothedMap map) : Tensor α).shape = _ := shape_angles hsmoothed
  have hiff : l.HasAngles map ↔ ∀ i < (angles (l.smoothedMap map) : Tensor α).size,
      IsNumber ((angles (l.smoothedMap map) : Tensor α).flat i) := hasAngles_iff hestimate
  unfold orient
  rw [hestimate, ok_bind]
  constructor
  · intro h
    show (interpolationWeights? (angles (l.smoothedMap map)) >>= _) = _
    rw [interpolationWeights?_of_numbers hangle (hiff.mp h)]
    rfl
  · intro h
    show (interpolationWeights? (angles (l.smoothedMap map)) >>= _) = _
    rw [interpolationWeights?_of_not (hiff.not.mp h)]
    rfl

omit [Scalar α] [Stored α ω] [Directed α α] in
/-- A batch that the windows fit, the parameters of the layer and weights for every window go together. -/
theorem Fitted.arranged (hl : l.Fitted groups B P) {weights : Tensor α} (hx : x.shape = [N, groups * B, H, W])
    (hweights : weights.shape = [N, 4, (l.gridOf H W).1, (l.gridOf H W).2]) (hpixels : 0 < H ∧ 0 < W)
    (hh : l.geometry.kernel.1 ≤ H + 2 * l.geometry.pad.1) (hw : l.geometry.kernel.2 ≤ W + 2 * l.geometry.pad.2) :
    Arranged l.geometry.sweep groups x l.weight.value (l.bias.map Parameter.value) weights := by
  have hgrid : (l.geometry.sweep.grid l.weight.value.area x.area) = l.gridOf H W := by
    rw [area_batch hl.kernel, area_batch hx]
    rfl
  refine ⟨?_, ?_, ?_, ?_⟩
  · have hk := l.geometry.kernel_pos
    have hs := l.geometry.stride_pos
    rw [hx, hl.kernel]
    show 0 < groups ∧ 0 < l.geometry.stride.1 ∧ _
    exact ⟨hl.groups_pos, hs.1, hs.2, hk.1, hk.2, Nat.mul_comm _ _, Nat.mul_pos hl.groups_pos hl.outputs_pos,
      Nat.mul_mod_right _ _, Nat.mul_pos hl.groups_pos hl.inputs_pos, .inr hpixels, hh, hw⟩
  · rw [hl.kernel]
    exact hl.sound.square
  · intro b hb
    obtain ⟨p, hp, rfl⟩ := Option.mem_map.mp hb
    exact hl.sound.bias p hp
  · rw [hgrid, (extents hx).1]
    exact hweights

/-- What a layer computes for a batch and its map: results for every window, unless some angle is no
number or the number of groups is a truth value. -/
theorem compute_cases (hl : l.Fitted groups B P) (hx : x.shape = [N, groups * B, H, W])
    (hmap : map.shape = [N, 2, H, W]) (hpixels : 0 < H ∧ 0 < W)
    (hh : l.geometry.kernel.1 ≤ H + 2 * l.geometry.pad.1) (hw : l.geometry.kernel.2 ≤ W + 2 * l.geometry.pad.2) :
    (l.HasAngles map → (∃ n, l.options.group = .int n) →
        ∃ r, l.compute x map = .ok r ∧ l.Covers N (l.gridOf H W) r) ∧
      (l.HasAngles map → (¬∃ n, l.options.group = .int n) →
        l.compute x map = (.error (.wrongType "") : Except Fault (Orientation α α × Tensor α × ForwardPass α))) ∧
      (¬l.HasAngles map →
        l.compute x map = (.error .outOfRange : Except Fault (Orientation α α × Tensor α × ForwardPass α))) := by
  obtain ⟨hsmoothed, -⟩ := estimate_eq hl hmap hpixels hh hw
  obtain ⟨horient, hrefuse⟩ := orient_cases hl hmap hpixels hh hw
  have hangle : (angles (l.smoothedMap map) : Tensor α).shape = _ := shape_angles hsmoothed
  have hweights : (l.weightsOf map).shape = [N, 4, (l.gridOf H W).1, (l.gridOf H W).2] :=
    shape_interpolationWeights hangle
  refine ⟨fun h hgroup => ?_, fun h hgroup => ?_, fun h => ?_⟩
  · obtain ⟨n, hn⟩ := hgroup
    obtain ⟨y, hy, hshape⟩ := steer_shape (hl.arranged hx hweights hpixels hh hw)
    refine ⟨(orientationOf (l.smoothedMap map), y, ⟨x, l.weight.value, l.weightsOf map, l.geometry.sweep, groups⟩),
      ?_, ⟨⟨groups * P, hl.outputs, ?_⟩, shape_sinesAndCosines (C := 1) hangle, hsmoothed, hweights⟩⟩
    · unfold compute respond
      rw [horient h, ok_bind]
      dsimp only
      rw [groups_eq hl hn, ok_bind, hy]
      rfl
    · show y.shape = _
      rw [hshape, hx, hl.kernel]
      rfl
  · unfold compute respond
    rw [horient h, ok_bind]
    dsimp only
    rw [groups_of_not hgroup]
    rfl
  · unfold compute
    rw [hrefuse h]
    rfl

theorem hasAngles_real (l : ConvLayer ℝ ℝ) (map : Tensor ℝ) : l.HasAngles map :=
  fun _ _ _ _ => beq_self_eq_true _

/-- A pass after a check of the shapes: both refuse the same shapes with the same fault. What is accepted
has one size, which the check returns, the smoother gives and counts the windows, and the pass returns
results of that size, unless some angle is no number or the number of groups is a truth value. -/
theorem forward_after_reshape [Scalar ω] (hl : l.Ready) (hx : 0 < x.size) {a b : AnyTensor}
    (ha : a.shape = x.shape) (hb : b.shape = map.shape) (j j' : Journal) :
    (l.Misfits x.shape map.shape → ∃ f, ((reshape a.operand b.operand).outcome l j).1.1 = .error (.shape f) ∧
        ((forward x map).outcome l j').1.1 =
          (.error (.shape f) : Except Fault (Orientation α α × Tensor α × ForwardPass α))) ∧
      (¬l.Misfits x.shape map.shape → ∃ N H W size, map.shape = [N, 2, H, W] ∧
        ((reshape a.operand b.operand).outcome l j).1.1 = .ok size ∧ l.SizesAgree N H W size ∧
        (l.HasAngles map → (∃ n, l.options.group = .int n) →
          ∃ r, ((forward x map).outcome l j').1.1 = .ok r ∧ l.Covers N size r) ∧
        (l.HasAngles map → (¬∃ n, l.options.group = .int n) → ((forward x map).outcome l j').1.1 =
          (.error (.wrongType "") : Except Fault (Orientation α α × Tensor α × ForwardPass α))) ∧
        (¬l.HasAngles map → ((forward x map).outcome l j').1.1 =
          (.error .outOfRange : Except Fault (Orientation α α × Tensor α × ForwardPass α)))) := by
  obtain ⟨groups, B, P, hfitted⟩ := fitted_of_ready hl
  rw [result_reshape, ha, hb]
  constructor
  · intro hmisfits
    obtain ⟨f, hf⟩ := sizeFor_of_misfits hfitted hmisfits
    refine ⟨f, hf, ?_⟩
    rw [outcome_forward, hf]
  · intro hgood
    obtain ⟨N, H, W, hinput, hmap, hh, hw, hsize⟩ := sizeFor_of_not_misfits hfitted hgood
    have hpixels : 0 < H ∧ 0 < W := by
      rw [size_batch hinput] at hx
      exact ⟨Nat.pos_of_ne_zero fun h => by simp [h] at hx, Nat.pos_of_ne_zero fun h => by simp [h] at hx⟩
    have hpass : ((forward x map).outcome l j').1.1 =
        (l.compute x map : Except Fault (Orientation α α × Tensor α × ForwardPass α)) := by
      rw [outcome_forward, hsize]
    refine ⟨N, H, W, l.gridOf H W, hmap, hsize, sizesAgree hfitted hh hw, ?_⟩
    rw [hpass]
    exact compute_cases hfitted hinput hmap hpixels hh hw

end Answers

/-! ### A layer with one kernel of one entry -/

section Single

/-- Options of a layer with one kernel of one entry and no bias. -/
def single : OrientedConvOptions where
  numOutput := .int 1
  kernelSize := .int 1
  biasTerm := .bool false
  weightFiller := .filler { type := .text "constant", value := .int 1 }

variable (α ω : Type) [Scalar ω] [Stored α ω]

/-- The layer of these options for one channel. -/
def ofSingle : ConvLayer α ω where
  options := single
  globals := {}
  inChannels := .int 1
  geometry := squareWindows 1 0 (Nat.succ_pos _)
  estimator := ⟨⟨.orientation, "torch", {}⟩, ⟨⟨.smoother, "torch", {}⟩,
    (squareWindows 1 0 (Nat.succ_pos _)).gaussian .null,
    gaussianTable 1 1 (middle 1, middle 1) (footprintDeviation 1 1) true⟩⟩
  weight := .fresh (ofFlat [1, 1, 1, 1] fun _ => Stored.narrow (Number.whole 1).toScalar)
  bias := none
  lastShape := none

variable {α ω} in
/-- The kernel is filled with ones if its numbers admit that. -/
theorem filled_single [Draws α ω] (h : Stored.admits α (Number.whole 1).toScalar = true) :
    filledBy single.weightFiller [1, 1, 1, 1] =
      .ok (ofFlat [1, 1, 1, 1] fun _ => (Stored.narrow (Number.whole 1).toScalar : α)) := by
  have hentries : ({ type := .text "constant", value := .int 1 } : FillerOptions).entries [1, 1, 1, 1] =
      .ok fun _ => (Stored.narrow (Number.whole 1).toScalar : α) := by
    with_unfolding_all
      show (if !Stored.admits α (Number.whole 1).toScalar then _ else _) = _
    rw [h]
    rfl
  unfold filledBy single
  dsimp only
  rw [hentries]
  rfl

theorem build_single [Draws α ω] (h : Stored.admits α (Number.whole 1).toScalar = true) :
    (build single {} (.int 1)).Gives (ofSingle α ω) := by
  have hallocate : (allocate single {} (squareWindows 1 0 (Nat.succ_pos _)) (.int 1)).Returns
      ⟨(ofSingle α ω).estimator, (ofSingle α ω).weight.value, none⟩ :=
    Action.returns_bind (fun _ => by with_unfolding_all rfl)
      (Action.returns_bind (b := [1, 1, 1, 1]) (Action.returns_liftM rfl)
        (Action.returns_bind (Action.returns_liftM (filled_single h))
          (Action.returns_bind (Action.returns_pure none) (Action.returns_pure _))))
  have haccept : (accept single (.int 1)).Returns (squareWindows 1 0 (Nat.succ_pos _)) :=
    fun _ => by with_unfolding_all rfl
  have hannounce : (announce single (squareWindows 1 0 (Nat.succ_pos _)) (.int 1)).Returns () := Action.returns_record _
  exact ⟨Journal.empty, Action.returns_reporting (Action.returns_bind haccept (Action.returns_bind hallocate
    (Action.returns_bind hannounce (Action.returns_pure (ofSingle α ω))))) _⟩

theorem ready_single [Zero α] (h : Stored.admits α (Number.whole 1).toScalar = true) : (ofSingle α ω).Ready :=
  have := Draws.middling α ω
  .built (build_single α ω h)

theorem not_misfits_single : ¬(ofSingle α ω).Misfits [1, 1, 1, 1] [1, 2, 1, 1] := by
  unfold Misfits ofSingle squareWindows
  simp [Value.number?]

/-- A pass over real numbers. -/
theorem forward_after_reshape_sample :
    ∃ (size : ℕ × ℕ) (r : Orientation ℝ ℝ × Tensor ℝ × ForwardPass ℝ), (ofSingle ℝ ℝ).SizesAgree 1 1 1 size ∧
      ((forward (fill [1, 1, 1, 1] 0) (fill [1, 2, 1, 1] 0)).outcome (ofSingle ℝ ℝ) Journal.empty).1.1 = .ok r ∧
      (ofSingle ℝ ℝ).Covers 1 size r := by
  have hone : 0 < (fill [1, 1, 1, 1] (0 : ℝ)).size := Nat.one_pos
  have ha : (AnyTensor.uint8 (fill [1, 1, 1, 1] 0)).shape = (fill [1, 1, 1, 1] (0 : ℝ)).shape := rfl
  have hb : (AnyTensor.uint8 (fill [1, 2, 1, 1] 0)).shape = (fill [1, 2, 1, 1] (0 : ℝ)).shape := rfl
  obtain ⟨N, H, W, size, hmap, -, hsizes, hpass, -⟩ :=
    (forward_after_reshape (ready_single ℝ ℝ rfl) hone ha hb Journal.empty Journal.empty).2 (not_misfits_single ℝ ℝ)
  obtain ⟨rfl, rfl, rfl⟩ : 1 = N ∧ 1 = H ∧ 1 = W := by
    have hshape : [1, 2, 1, 1] = [N, 2, H, W] := hmap
    simpa using hshape
  obtain ⟨r, hr, hcovers⟩ := hpass (hasAngles_real _ _) ⟨1, rfl⟩
  exact ⟨size, r, hsizes, hr, hcovers⟩

/-- A map with a component that is no number has an angle that is none. -/
theorem not_hasAngles_single {map : Tensor ExactFloat} (hmap : map.shape = [1, 2, 1, 1])
    (h : map.at4 0 1 0 0 = .nan) : ¬(ofSingle ExactFloat ExactFloat).HasAngles map := by
  obtain ⟨groups, B, P, hl⟩ := fitted_of_ready (ready_single ExactFloat ExactFloat rfl)
  obtain ⟨hsmoothed, hestimate⟩ := estimate_eq hl hmap ⟨Nat.one_pos, Nat.one_pos⟩ le_rfl le_rfl
  have hgrid : (ofSingle ExactFloat ExactFloat).gridOf 1 1 = (1, 1) := rfl
  rw [hgrid] at hsmoothed
  set l := ofSingle ExactFloat ExactFloat
  have haverage : (l.smoothedMap map).at4 0 1 0 0 = .nan := by
    obtain ⟨x0, x1, x2, x3⟩ := extents hmap
    have htable : (l.estimator.smoother.table.map (Stored.narrow : ExactFloat → ExactFloat)).footprint = (1, 1) := by
      have hshape : l.estimator.smoother.table.shape = [1, 1] := shape_gaussianTable _ _ _ _ _
      unfold footprint extent Tensor.map
      rw [hshape]
      rfl
    have hwindows : l.geometry.sweep.grid (1, 1) (1, 1) = (1, 1) := hgrid
    unfold smoothedMap windowAverage area
    rw [x0, x1, x2, x3, htable, hwindows]
    dsimp only
    rw [at4_ofImages Nat.one_pos Nat.one_lt_two Nat.one_pos Nat.one_pos]
    refine ExactFloat.sumTaps_nan (a := 0) (b := 0) Nat.one_pos Nat.one_pos ?_
    show map.padded (0, 0) 0 1 0 0 * _ = _
    rw [padded_zero, h, ExactFloat.nan_mul]
  intro hangles
  have hshape : (angles (l.smoothedMap map)).shape = [1, 1, 1, 1] := shape_angles hsmoothed
  have hnumber := hangles _ hestimate 0 (by
    show 0 < (angles (l.smoothedMap map)).size
    rw [size_batch hshape]
    exact Nat.one_pos)
  have hangle : (angles (l.smoothedMap map)).flat 0 = .nan := by
    obtain ⟨s0, s1, s2, s3⟩ := extents hsmoothed
    have hat : (angles (l.smoothedMap map)).at4 0 0 0 0 = .nan := by
      unfold angles
      rw [s0, s1, s2, s3, at4_ofImages Nat.one_pos (by exact Nat.one_pos) Nat.one_pos Nat.one_pos, haverage]
      exact ExactFloat.map₂_nan_left _ _
    rw [at4_eq_flat hshape Nat.one_pos Nat.one_pos Nat.one_pos Nat.one_pos] at hat
    exact hat
  have hposition : (orientationOf (l.smoothedMap map) : Orientation ExactFloat ExactFloat).angle.flat 0 = .nan := hangle
  rw [hposition] at hnumber
  unfold IsNumber at hnumber
  rw [ExactFloat.quarterTurns_nan, ExactFloat.nan_beq_nan] at hnumber
  exact Bool.false_ne_true hnumber

/-- A map that is no number passes the check of the shapes, and the pass fails. -/
theorem forward_fails_on_accepted_shapes :
    (ofSingle ExactFloat ExactFloat).Ready ∧ ∀ j,
      ((reshape (AnyTensor.uint8 (fill [1, 1, 1, 1] 0)).operand (AnyTensor.uint8 (fill [1, 2, 1, 1] 0)).operand).outcome
        (ofSingle ExactFloat ExactFloat) j).1.1 = .ok (1, 1) ∧
      ((forward (fill [1, 1, 1, 1] (.real 0)) (fill [1, 2, 1, 1] .nan)).outcome
        (ofSingle ExactFloat ExactFloat) j).1.1 =
          (.error .outOfRange : Except Fault (Orientation ExactFloat ExactFloat × _ × ForwardPass ExactFloat)) := by
  obtain ⟨groups, B, P, hl⟩ := fitted_of_ready (ready_single ExactFloat ExactFloat rfl)
  obtain ⟨N, H, W, hinput, hmap, hh, hw, hsize⟩ :=
    sizeFor_of_not_misfits hl (not_misfits_single ExactFloat ExactFloat)
  obtain ⟨rfl, rfl, rfl⟩ : 1 = N ∧ 1 = H ∧ 1 = W := by simpa using hmap
  have hfill : (fill [1, 2, 1, 1] ExactFloat.nan).at4 0 1 0 0 = .nan := by
    rw [at4_eq_flat rfl Nat.one_pos Nat.one_lt_two Nat.one_pos Nat.one_pos]
    exact flat_ofFlat Nat.one_lt_two
  refine ⟨ready_single _ _ rfl, fun j => ⟨?_, ?_⟩⟩
  · rw [result_reshape]
    exact hsize
  · rw [outcome_forward]
    have hshapes : (ofSingle ExactFloat ExactFloat).sizeFor (fill [1, 1, 1, 1] (ExactFloat.real 0)).shape
        (fill [1, 2, 1, 1] ExactFloat.nan).shape = .ok ((ofSingle ExactFloat ExactFloat).gridOf 1 1) := hsize
    rw [hshapes]
    exact (compute_cases hl hinput rfl ⟨Nat.one_pos, Nat.one_pos⟩ hh hw).2.2 (not_hasAngles_single rfl hfill)

end Single

end ConvLayer
end SteeredConv
