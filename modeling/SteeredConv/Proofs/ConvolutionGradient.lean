/-
# The gradients of the oriented convolution

With real numbers, the arguments that a layer accepts are convolved and have gradients
for every cotangent of the size of the output. The orientation of the map decides the
weights of the rotations once and for all, so the output is affine in the kernel and the
bias together and affine in the batch; the gradients are its adjoints.

Key definitions: `Accepted`.
Key theorems: `orient_eq_ok_iff`, `orient_eq`, `Accepted.forwardPass_eq`, `kernel_and_bias_gradients_exact`,
`input_gradient_exact`.
-/
import SteeredConv.Proofs.Steering
import SteeredConv.Proofs.Weighting

namespace SteeredConv

open Finset Tensor

/-! ### The weights of the rotations -/

section Orient

variable {e : Estimator ℝ} {g : Geometry} {map : Tensor ℝ} {N H W : ℕ}

theorem interpolationWeights_eq {angle : Tensor ℝ} {C I J : ℕ} (h : angle.shape = [N, C, I, J]) :
    interpolationWeights? angle = .ok (interpolationWeights angle) ∧
      (interpolationWeights angle).shape = [N, 4, I, J] := by
  constructor
  · unfold interpolationWeights?
    simp [rank, h]
  · show angle.extent 0 :: rotations :: angle.shape.drop 2 = _
    rw [(extents h).1, h]
    rfl

theorem shape_angles_eq (t : Tensor ℝ) :
    (angles t : Tensor ℝ).shape = [t.extent 0, min 1 (t.extent 1 - 1), t.extent 2, t.extent 3] := rfl

theorem Estimator.estimate_eq_ok_iff {o : Orientation ℝ ℝ} :
    e.estimate map = .ok o ↔ ∃ t, e.smoother.smooth map = .ok t ∧ o = orientationOf t := by
  unfold Estimator.estimate
  rw [bind_eq_ok_iff]
  constructor
  · rintro ⟨t, ht, ho⟩
    exact ⟨t, ht, (Except.ok.inj ho).symm⟩
  · rintro ⟨t, ht, rfl⟩
    exact ⟨t, ht, rfl⟩

/-- The orientation of a map is that of the smoothed map, whose angles give the weights. -/
theorem orient_eq_ok_iff {r : Orientation ℝ ℝ × Tensor ℝ} : orient e map = .ok r ↔
    ∃ t, e.smoother.smooth map = .ok t ∧ r = (orientationOf t, interpolationWeights (angles t)) := by
  have hweights (t : Tensor ℝ) : (interpolationWeights? (angles t : Tensor ℝ) >>= fun q =>
      pure ((orientationOf t : Orientation ℝ ℝ), q.map fun x => (Stored.narrow (Stored.widen x) : ℝ)) :
        Except Fault (Orientation ℝ ℝ × Tensor ℝ)) =
      .ok (orientationOf t, interpolationWeights (angles t)) := by
    have hid : (interpolationWeights (angles t)).map (fun x => (Stored.narrow (Stored.widen x) : ℝ)) =
        interpolationWeights (angles t) := map_narrow_real _
    rw [(interpolationWeights_eq (shape_angles_eq t)).1, ok_bind, hid]
    rfl
  unfold orient
  simp only [bind_eq_ok_iff, Estimator.estimate_eq_ok_iff]
  constructor
  · rintro ⟨_, ⟨t, ht, rfl⟩, q, hq, hr⟩
    exact ⟨t, ht, Except.ok.inj (((hweights t).symm.trans (bind_eq_ok_iff.mpr ⟨q, hq, hr⟩)).symm)⟩
  · rintro ⟨t, ht, rfl⟩
    exact ⟨orientationOf t, ⟨t, ht, rfl⟩, bind_eq_ok_iff.mp (hweights t)⟩

theorem orient_of_smooth {smoothed : Tensor ℝ} (h : e.smoother.smooth map = .ok smoothed) :
    orient e map = .ok (orientationOf smoothed, interpolationWeights (angles smoothed)) :=
  orient_eq_ok_iff.mpr ⟨smoothed, h, rfl⟩

/-- A gradient map that its smoother accepts has an orientation, and weights for every window. -/
theorem orient_eq (hs : e.smoother.Sound) (hmap : map.shape = [N, 2, H, W])
    (h : e.smoother.accepts map.shape = .ok g) : ∃ (o : Orientation ℝ ℝ) (q : Tensor ℝ),
      orient e map = .ok (o, q) ∧
        q.shape = [N, 4, (g.sweep.grid g.kernel (H, W)).1, (g.sweep.grid g.kernel (H, W)).2] := by
  have hshape := Smoother.shape_smooth hs h
  set smoothed := windowAverage g.sweep (e.smoother.table.map Stored.narrow) map
  have hsmoothed : smoothed.shape =
      [N, 2, (g.sweep.grid g.kernel (H, W)).1, (g.sweep.grid g.kernel (H, W)).2] := by
    rw [hshape, hmap]
    rfl
  exact ⟨_, _, orient_of_smooth (Smoother.smooth_eq h),
    (interpolationWeights_eq (shape_angles hsmoothed)).2⟩

end Orient

/-! ### Accepted arguments -/

/-- What a layer has checked of its arguments when the computation begins: its smoother has its
geometry, the kernels are square and have the size of the windows, batch and kernels can be
correlated, the map belongs to the batch and the bias to the kernels. -/
structure Accepted (e : Estimator ℝ) (g : Geometry) (groups : ℕ) (x map w : Tensor ℝ)
    (bias : Option (Tensor ℝ)) : Prop where
  options : ∃ sigma, e.smoother.options = g.gaussian sigma
  sound : e.smoother.Sound
  correlates : Correlates g.sweep groups x.shape w.shape
  square : IsSquare w.shape
  footprint : w.area = g.kernel
  map : map.shape = [x.extent 0, 2, x.extent 2, x.extent 3]
  bias : ∀ b ∈ bias, b.shape = [w.extent 0]

namespace Accepted

variable {e : Estimator ℝ} {g : Geometry} {groups : ℕ} {x map w : Tensor ℝ} {bias : Option (Tensor ℝ)}

theorem congr {x' w' : Tensor ℝ} {bias' : Option (Tensor ℝ)} (h : Accepted e g groups x map w bias)
    (hx : x'.shape = x.shape) (hw : w'.shape = w.shape) (hb : ∀ b ∈ bias', b.shape = [w.extent 0]) :
    Accepted e g groups x' map w' bias' where
  options := h.options
  sound := h.sound
  correlates := by rw [hx, hw]; exact h.correlates
  square := by rw [hw]; exact h.square
  footprint := by unfold area extent; rw [hw]; exact h.footprint
  map := by unfold extent; rw [hx]; exact h.map
  bias := by unfold extent; rw [hw]; exact hb

/-- The smoother accepts the map. -/
theorem accepts_map (h : Accepted e g groups x map w bias) : e.smoother.accepts map.shape = .ok g := by
  obtain ⟨sigma, hsigma⟩ := h.options
  have hc := h.correlates
  have hfoot := h.footprint
  obtain ⟨N, B, P, H, W, a, b, hx, hw, -, -⟩ := hc.extents
  obtain ⟨x0, -, x2, x3⟩ := Tensor.extents hx
  rw [area_batch hw] at hfoot
  rw [hx, hw] at hc
  obtain ⟨-, s1, s2, a0, b0, -, -, -, -, pixels, f1, f2⟩ := hc
  rw [h.map, x0, x2, x3]
  refine Smoother.accepts_gaussian hsigma ?_
  unfold Smoother.kernelShape
  rw [← hfoot]
  exact ⟨by omega, s1, s2, a0, b0, by omega, by omega, by omega, by omega, pixels, f1, f2⟩

theorem exists_orient (h : Accepted e g groups x map w bias) :
    ∃ (o : Orientation ℝ ℝ) (q : Tensor ℝ), orient e map = .ok (o, q) := by
  obtain ⟨o, q, horient, -⟩ := orient_eq h.sound h.map h.accepts_map
  exact ⟨o, q, horient⟩

/-- The forward pass of accepted arguments; the weights of the rotations depend on the map alone. -/
theorem forwardPass_eq (h : Accepted e g groups x map w bias) {o : Orientation ℝ ℝ} {q : Tensor ℝ}
    (horient : orient e map = .ok (o, q)) : Arranged g.sweep groups x w bias q ∧
      forwardPass e g.sweep groups x map w bias =
        .ok (o, steered g.sweep groups x w bias q, ⟨x, w, q, g.sweep, groups⟩) := by
  obtain ⟨o', q', horient', hq⟩ := orient_eq h.sound h.map h.accepts_map
  rw [horient] at horient'
  obtain ⟨rfl, rfl⟩ := Prod.mk.inj (Except.ok.inj horient')
  have harranged : Arranged g.sweep groups x w bias q := by
    refine ⟨h.correlates, h.square, h.bias, ?_⟩
    rw [h.footprint]
    exact hq
  refine ⟨harranged, ?_⟩
  unfold forwardPass
  rw [horient, ok_bind]
  dsimp only
  rw [steer_eq harranged]
  rfl

end Accepted

/-! ### Exact gradients -/

section Gradients

variable {e : Estimator ℝ} {g : Geometry} {groups : ℕ} {x map w : Tensor ℝ} {bias : Option (Tensor ℝ)}

theorem Arranged.gradients_all {s : Sweep} {q c : Tensor ℝ} (h : Arranged s groups x w bias q)
    (hc : c.shape = (steered s groups x w bias q).shape) :
    (⟨x, w, q, s, groups⟩ : ForwardPass ℝ).gradients {} c =
      .ok ⟨some (batchAdjoint s groups x.shape w q c), some (kernelAdjoint s groups w.shape x q c),
        some (biasSums c)⟩ := gradients_eq h hc {}

/-- Forward passes with a kernel and a bias and with both changed succeed, and for every cotangent the
change of the output has the inner product with it that the changes have with the gradients. -/
def KernelGradientsExact (e : Estimator ℝ) (g : Geometry) (groups : ℕ) (x map w dw : Tensor ℝ)
    (bias : Option (Tensor ℝ)) (db : Tensor ℝ) : Prop :=
  ∃ (o : Orientation ℝ ℝ) (y y' : Tensor ℝ) (p p' : ForwardPass ℝ),
    forwardPass e g.sweep groups x map w bias = .ok (o, y, p) ∧
    forwardPass e g.sweep groups x map (zipWith (· + ·) w dw) (bias.map (zipWith (· + ·) · db)) =
      .ok (o, y', p') ∧
    ∀ c : Tensor ℝ, c.shape = y.shape → ∃ gi gw gb, p.gradients {} c = .ok ⟨some gi, some gw, some gb⟩ ∧
      (zipWith (· - ·) y' y).inner c = dw.inner gw + bias.elim 0 fun _ => db.inner gb

/-- The gradients in kernel and bias are exact, for everything that a layer accepts and every change of
the kernel and of the bias. -/
theorem kernel_and_bias_gradients_exact (h : Accepted e g groups x map w bias) {dw db : Tensor ℝ}
    (hdw : dw.shape = w.shape) (hdb : db.shape = [w.extent 0]) :
    KernelGradientsExact e g groups x map w dw bias db := by
  have hbias : ∀ b ∈ bias.map (zipWith (· + ·) · db), b.shape = [w.extent 0] := by
    intro b' hb'
    obtain ⟨b, hb, rfl⟩ := Option.mem_map.mp hb'
    exact h.bias b hb
  have changed : Accepted e g groups x map (zipWith (· + ·) w dw) (bias.map (zipWith (· + ·) · db)) :=
    h.congr rfl rfl hbias
  obtain ⟨o, q, horient⟩ := h.exists_orient
  obtain ⟨arranged, pass⟩ := h.forwardPass_eq horient
  obtain ⟨-, pass'⟩ := changed.forwardPass_eq horient
  refine ⟨o, _, _, _, _, pass, pass', fun c hc => ⟨_, _, _, arranged.gradients_all hc, ?_⟩⟩
  obtain ⟨N, B, P, H, W, k, ext⟩ := arranged.extents
  have hw0 : w.extent 0 = groups * P := (extents ext.kernel).1
  have ext' : Extents g.sweep groups x (zipWith (· + ·) w dw) (bias.map (zipWith (· + ·) · db)) q N B P H W k :=
    ext.congr rfl rfl (hw0 ▸ hbias)
  have hsame : (steered g.sweep groups x (zipWith (· + ·) w dw) (bias.map (zipWith (· + ·) · db)) q).shape =
      (steered g.sweep groups x w bias q).shape := ext'.shape_steered.trans ext.shape_steered.symm
  have hw : (zipWith (· + ·) w dw).shape = w.shape := rfl
  rw [inner_sub hsame, inner_steered_kernel ext' (hc.trans hsame.symm), inner_steered_kernel ext hc, hw,
    inner_add hdw.symm]
  cases bias with
  | none => simp
  | some b =>
    have hb : b.shape = db.shape := (h.bias b rfl).trans hdb.symm
    simp only [Option.map_some, Option.elim_some, inner_add hb]
    ring

/-- The arguments of the runs below: one image of four channels in two groups. -/
theorem accepted_sample : Accepted ⟨⟨.orientation, "torch", {}⟩, evenSmoother sampleGeometry⟩ sampleGeometry 2
    (fill [1, 4, 3, 2] 1) (fill [1, 2, 3, 2] 1) (fill [2, 2, 2, 2] 1) (some (fill [2] 1)) where
  options := ⟨.null, rfl⟩
  sound := sound_evenSmoother _
  correlates := by
    rw [shape_fill, shape_fill]
    decide
  square := rfl
  footprint := rfl
  map := rfl
  bias := by
    rintro _ ⟨⟩
    rfl

theorem kernel_and_bias_gradients_exact_sample :
    KernelGradientsExact ⟨⟨.orientation, "torch", {}⟩, evenSmoother sampleGeometry⟩ sampleGeometry 2
      (fill [1, 4, 3, 2] 1) (fill [1, 2, 3, 2] 1) (fill [2, 2, 2, 2] 1) (fill [2, 2, 2, 2] 3)
      (some (fill [2] 1)) (fill [2] 5) :=
  kernel_and_bias_gradients_exact accepted_sample (by rw [shape_fill, shape_fill]) (by rw [shape_fill]; rfl)

/-- Forward passes with a batch and with the batch changed succeed. For every cotangent the change of
the output has the inner product with it that the change of the batch has with the gradient in the
batch, which has the shape of the batch, is zero on rows and columns that no window reaches, and is
the same for every other batch of the shape. -/
def InputGradientExact (e : Estimator ℝ) (g : Geometry) (groups : ℕ) (x dx map w : Tensor ℝ)
    (bias : Option (Tensor ℝ)) : Prop :=
  ∃ (o : Orientation ℝ ℝ) (y y' : Tensor ℝ) (p p' : ForwardPass ℝ),
    forwardPass e g.sweep groups x map w bias = .ok (o, y, p) ∧
    forwardPass e g.sweep groups (zipWith (· + ·) x dx) map w bias = .ok (o, y', p') ∧
    ∀ c : Tensor ℝ, c.shape = y.shape → ∃ gi gw gb, p.gradients {} c = .ok ⟨some gi, some gw, some gb⟩ ∧
      (zipWith (· - ·) y' y).inner c = dx.inner gi ∧ gi.shape = x.shape ∧
      (∀ n ch row col, ¬Reached (g.sweep.grid w.area x.area).1 g.kernel.1 g.stride.1 g.pad.1 row ∨
        ¬Reached (g.sweep.grid w.area x.area).2 g.kernel.2 g.stride.2 g.pad.2 col →
        gi.at4 n ch row col = 0) ∧
      ∀ x₂ : Tensor ℝ, x₂.shape = x.shape → ∃ (y₂ : Tensor ℝ) (p₂ : ForwardPass ℝ) (gw₂ : Tensor ℝ),
        forwardPass e g.sweep groups x₂ map w bias = .ok (o, y₂, p₂) ∧
        p₂.gradients {} c = .ok ⟨some gi, some gw₂, some gb⟩

/-- The gradient in the batch is the exact adjoint, for everything that a layer accepts and every
change of the batch. -/
theorem input_gradient_exact (h : Accepted e g groups x map w bias) {dx : Tensor ℝ}
    (hdx : dx.shape = x.shape) : InputGradientExact e g groups x dx map w bias := by
  obtain ⟨o, q, horient⟩ := h.exists_orient
  obtain ⟨arranged, pass⟩ := h.forwardPass_eq horient
  -- every batch of the shape is steered by the same weights
  have other : ∀ x' : Tensor ℝ, x'.shape = x.shape → Arranged g.sweep groups x' w bias q ∧
      forwardPass e g.sweep groups x' map w bias =
        .ok (o, steered g.sweep groups x' w bias q, ⟨x', w, q, g.sweep, groups⟩) := fun x' hx =>
    (h.congr hx rfl h.bias).forwardPass_eq horient
  obtain ⟨N, B, P, H, W, k, ext⟩ := arranged.extents
  have hb : ∀ b ∈ bias, b.shape = [groups * P] := ext.bias
  have same : ∀ x' : Tensor ℝ, x'.shape = x.shape → (steered g.sweep groups x' w bias q).shape =
      (steered g.sweep groups x w bias q).shape := fun x' hx =>
    (ext.congr hx rfl hb).shape_steered.trans ext.shape_steered.symm
  have hsum : (zipWith (· + ·) x dx).shape = x.shape := rfl
  refine ⟨o, _, _, _, _, pass, (other _ hsum).2, fun c hc => ⟨_, _, _, arranged.gradients_all hc, ?_,
    ext.shape_batchAdjoint c, fun n ch row col hout => ?_, fun x₂ hx₂ => ?_⟩⟩
  · rw [inner_sub (same _ hsum), inner_steered_batch (ext.congr hsum rfl hb) (hc.trans (same _ hsum).symm),
      inner_steered_batch ext hc, hsum, inner_add hdx.symm]
    ring
  · have hk : g.kernel = (k, k) := by rw [← h.footprint, area_batch ext.kernel]
    rw [area_batch ext.batch, area_batch ext.kernel, hk] at hout
    exact at4_batchAdjoint_of_unreached ext hc hout
  · obtain ⟨arranged₂, pass₂⟩ := other x₂ hx₂
    refine ⟨_, _, kernelAdjoint g.sweep groups w.shape x₂ q c, pass₂, ?_⟩
    rw [arranged₂.gradients_all (hc.trans (same x₂ hx₂).symm), hx₂]

theorem input_gradient_exact_sample :
    InputGradientExact ⟨⟨.orientation, "torch", {}⟩, evenSmoother sampleGeometry⟩ sampleGeometry 2
      (fill [1, 4, 3, 2] 1) (fill [1, 4, 3, 2] 3) (fill [1, 2, 3, 2] 1) (fill [2, 2, 2, 2] 1)
      (some (fill [2] 1)) :=
  input_gradient_exact accepted_sample (by rw [shape_fill, shape_fill])

end Gradients
end SteeredConv
