/-
# Carrying gradients back through a network

The output of a row of layers depends on the parameters of all of them. Layer by layer
from the last one back, the derivative of a number in an output is the sum of what its
gradients pull back through the parameters of the layer and of what is left for the
layer before. The gradient map of the image decides how each layer steers and depends
on no parameter, so nothing else contributes.

Key definitions: `Tuned`, `pullGradients`, `pullRow`, `Trace.Smooth`.
Key theorems: `ConvLayer.accepted_of_answer`, `Tuned.answer_eq`, `Tuned.hasGradients`,
`hasGradients_row`, `hasGradients_trace`, `hasGradients_loss`.
-/
import SteeredConv.Proofs.ConvolutionGradient
import SteeredConv.Proofs.NetworkForm
import SteeredConv.Proofs.SimilarityGradient

namespace SteeredConv

open Finset Tensor

/-! ### What a layer answers -/

theorem correlates_of_steer {s : Sweep} {groups N C H W : ℕ} {x w q y : Tensor ℝ} {bias : Option (Tensor ℝ)}
    (hx : x.shape = [N, C, H, W]) (h : steer s groups x w bias q = .ok y) :
    Correlates s groups x.shape w.shape := by
  unfold steer at h
  rw [toImages?_batch hx, fitting_some, ok_bind] at h
  obtain ⟨_, -, h⟩ := bind_eq_ok_iff.mp h
  obtain ⟨_, hsum, -⟩ := bind_eq_ok_iff.mp h
  obtain ⟨_, hresponse, -⟩ := bind_eq_ok_iff.mp hsum
  obtain ⟨_, hcorrelate, -⟩ := bind_eq_ok_iff.mp hresponse
  unfold correlate? at hcorrelate
  split at hcorrelate
  · rename_i hc
    exact hc
  · cases hcorrelate

namespace ConvLayer

variable {l : ConvLayer ℝ ℝ} {x map : Tensor ℝ}

def biasValue {α ω : Type} (l : ConvLayer α ω) : Option (Tensor α) := l.bias.map Parameter.value

/-- What a sound layer answers is a convolution of accepted arguments. -/
theorem accepted_of_answer (hl : l.Sound) {r : Orientation ℝ ℝ × Stage ℝ} (h : l.answer x map = .ok r) :
    ∃ size groups, l.sizeFor x.shape map.shape = .ok size ∧ l.groups = .ok groups ∧
      Accepted l.estimator l.geometry groups x map l.weight.value l.biasValue := by
  obtain ⟨size, hsize, h⟩ := bind_eq_ok_iff.mp h
  obtain ⟨_, hcompute, -⟩ := bind_eq_ok_iff.mp h
  obtain ⟨orientation, -, hcompute⟩ := bind_eq_ok_iff.mp hcompute
  obtain ⟨_, hrespond, -⟩ := bind_eq_ok_iff.mp hcompute
  obtain ⟨groups, hgroups, hrespond⟩ := bind_eq_ok_iff.mp hrespond
  obtain ⟨_, hsteer, -⟩ := bind_eq_ok_iff.mp hrespond
  obtain ⟨N, C, H, W, hx, hmap, -⟩ := l.shapes_of_sizeFor hsize
  obtain ⟨x0, -, x2, x3⟩ := Tensor.extents hx
  obtain ⟨O, B, hw⟩ := hl.weight
  refine ⟨size, groups, hsize, hgroups, hl.options, hl.smoother, correlates_of_steer hx hsteer,
    ?_, ?_, ?_, ?_⟩
  · rw [hw]
    exact hl.square
  · rw [area_batch hw]
  · rw [hmap, x0, x2, x3]
  · intro b hb
    obtain ⟨p, hp, rfl⟩ := Option.mem_map.mp hb
    exact hl.bias p hp

/-- A layer answers accepted arguments with their convolution. -/
theorem answer_eq {size : ℕ × ℕ} {groups : ℕ} (hsize : l.sizeFor x.shape map.shape = .ok size)
    (hgroups : l.groups = .ok groups) {o : Orientation ℝ ℝ} {q : Tensor ℝ}
    (horient : orient l.estimator map = .ok (o, q))
    (h : Arranged l.geometry.sweep groups x l.weight.value l.biasValue q) :
    l.answer x map = .ok (o, ⟨⟨x, l.weight.value, q, l.geometry.sweep, groups⟩,
      steered l.geometry.sweep groups x l.weight.value l.biasValue q⟩) := by
  unfold answer compute respond
  rw [hsize, ok_bind, horient, ok_bind]
  dsimp only
  rw [hgroups, ok_bind, steer_eq (by exact h)]
  rfl

theorem arranged_of_answer (hl : l.Sound) {r : Orientation ℝ ℝ × Stage ℝ} (h : l.answer x map = .ok r) :
    ∃ groups q, Arranged l.geometry.sweep groups x l.weight.value l.biasValue q ∧
      r.2 = ⟨⟨x, l.weight.value, q, l.geometry.sweep, groups⟩,
        steered l.geometry.sweep groups x l.weight.value l.biasValue q⟩ := by
  obtain ⟨size, groups, hsize, hgroups, accepted⟩ := accepted_of_answer hl h
  obtain ⟨o, q, horient⟩ := accepted.exists_orient
  obtain ⟨arranged, -⟩ := accepted.forwardPass_eq horient
  obtain rfl := Except.ok.inj (h.symm.trans (answer_eq hsize hgroups horient arranged))
  exact ⟨groups, q, arranged, rfl⟩

end ConvLayer

/-! ### One convolution of varying arrays -/

/-- A bias with no entries where there is none. -/
noncomputable def biasOrEmpty (bias : Option (Tensor ℝ)) : Tensor ℝ := bias.getD (fill [0] 0)

theorem inner_biasOrEmpty (bias : Option (Tensor ℝ)) (c : Tensor ℝ) :
    (bias.elim 0 fun b => b.inner c) = (biasOrEmpty bias).inner c := by
  cases bias <;> rfl

section Convolution

variable {E : Type} [NormedAddCommGroup E] [NormedSpace ℝ E] {θ : E} {X K : E → Tensor ℝ}
  {bias : E → Option (Tensor ℝ)} {s : Sweep} {groups N B P H W k : ℕ} {q c : Tensor ℝ}

/-- The gradient in the kernel, as a family of batches varies, pulls a change of the kernel back to
the gradient in the batch for that change. -/
theorem varies_kernelAdjoint (hX : Varies X [N, groups * B, H, W] θ)
    (ext : ∀ η, Extents s groups (X η) (K η) (bias η) q N B P H W k)
    (hc : c.shape = [N, groups * P, (s.grid (k, k) (H, W)).1, (s.grid (k, k) (H, W)).2]) :
    Varies (fun η => kernelAdjoint s groups [groups * P, B, k, k] (X η) q c) [groups * P, B, k, k] θ ∧
      ∀ w : Tensor ℝ, w.shape = [groups * P, B, k, k] →
        pull (fun η => kernelAdjoint s groups [groups * P, B, k, k] (X η) q c) θ w =
          pull X θ (batchAdjoint s groups [N, groups * B, H, W] w q c) := by
  have ext' : ∀ w : Tensor ℝ, w.shape = [groups * P, B, k, k] → ∀ η,
      Extents s groups (X η) w none q N B P H W k := fun w hw η =>
    (ext η).congr rfl (hw.trans (ext η).kernel.symm) (by simp)
  refine hX.image (fun _ => shape_kernelAdjoint s groups _ _ q c)
    (fun w => batchAdjoint s groups [N, groups * B, H, W] w q c) (fun w hw => ?_) fun w hw η => ?_
  · have h := (ext' w hw θ).shape_batchAdjoint c
    rwa [hX.shaped θ] at h
  · have hsteered := ((ext' w hw η).shape_steered).symm
    have batch := inner_steered_batch (ext' w hw η) (hc.trans hsteered)
    have kernel := inner_steered_kernel (ext' w hw η) (hc.trans hsteered)
    rw [Option.elim_none, add_zero] at batch kernel
    rw [hX.shaped η] at batch
    rw [hw] at kernel
    rw [inner_comm (show (kernelAdjoint s groups [groups * P, B, k, k] (X η) q c).shape = w.shape from hw.symm),
      ← kernel, batch]

theorem hasFDerivAt_bias (ext : ∀ η, Extents s groups (X η) (K η) (bias η) q N B P H W k)
    (same : ∀ η, (bias η).isSome = (bias θ).isSome)
    (hb : Varies (fun η => biasOrEmpty (bias η)) (biasOrEmpty (bias θ)).shape θ)
    (hc : c.shape = [N, groups * P, (s.grid (k, k) (H, W)).1, (s.grid (k, k) (H, W)).2]) :
    HasFDerivAt (fun η => (biasOrEmpty (bias η)).inner (biasSums c))
      (pull (fun η => biasOrEmpty (bias η)) θ (biasSums c)) θ := by
  cases hbias : bias θ with
  | none =>
    have none_everywhere : ∀ η, bias η = none := fun η => by
      have := same η
      rwa [hbias, Option.isSome_none, Option.isSome_eq_false_iff, Option.isNone_iff_eq_none] at this
    simp only [none_everywhere, pull_const]
    exact hasFDerivAt_const _ _
  | some b =>
    have hshape : (biasOrEmpty (bias θ)).shape = [groups * P] := by
      rw [hbias]
      exact (ext θ).bias b hbias
    refine hb.hasFDerivAt_inner ?_
    rw [hshape]
    show [c.extent 1] = _
    rw [(Tensor.extents hc).2.1]

/-- The derivative of a number in a convolution whose batch, kernel and bias vary together: what the
three gradients pull back. -/
theorem varies_steered (hX : Varies X [N, groups * B, H, W] θ) (hK : Varies K [groups * P, B, k, k] θ)
    (ext : ∀ η, Extents s groups (X η) (K η) (bias η) q N B P H W k)
    (same : ∀ η, (bias η).isSome = (bias θ).isSome)
    (hb : Varies (fun η => biasOrEmpty (bias η)) (biasOrEmpty (bias θ)).shape θ) :
    Varies (fun η => steered s groups (X η) (K η) (bias η) q)
        [N, groups * P, (s.grid (k, k) (H, W)).1, (s.grid (k, k) (H, W)).2] θ ∧
      ∀ c, c.shape = [N, groups * P, (s.grid (k, k) (H, W)).1, (s.grid (k, k) (H, W)).2] →
        pull (fun η => steered s groups (X η) (K η) (bias η) q) θ c =
          pull X θ (batchAdjoint s groups [N, groups * B, H, W] (K θ) q c) +
            (pull K θ (kernelAdjoint s groups [groups * P, B, k, k] (X θ) q c) +
              pull (fun η => biasOrEmpty (bias η)) θ (biasSums c)) := by
  have hderiv : ∀ c : Tensor ℝ, c.shape = [N, groups * P, (s.grid (k, k) (H, W)).1, (s.grid (k, k) (H, W)).2] →
      HasFDerivAt (fun η => (steered s groups (X η) (K η) (bias η) q).inner c)
        (pull X θ (batchAdjoint s groups [N, groups * B, H, W] (K θ) q c) +
            (pull K θ (kernelAdjoint s groups [groups * P, B, k, k] (X θ) q c) +
              pull (fun η => biasOrEmpty (bias η)) θ (biasSums c))) θ := fun c hc => by
    obtain ⟨hkernel, pull_kernel⟩ := varies_kernelAdjoint hX ext hc
    have hinner : (fun η => (steered s groups (X η) (K η) (bias η) q).inner c) = fun η =>
        (K η).inner (kernelAdjoint s groups [groups * P, B, k, k] (X η) q c) +
          (biasOrEmpty (bias η)).inner (biasSums c) := funext fun η => by
      rw [inner_steered_kernel (ext η) (hc.trans (ext η).shape_steered.symm), hK.shaped η, inner_biasOrEmpty]
    rw [hinner]
    refine ((hK.hasFDerivAt_inner_families hkernel).add (hasFDerivAt_bias ext same hb hc)).congr_fderiv ?_
    rw [pull_kernel (K θ) (hK.shaped θ)]
    abel
  have hv : Varies (fun η => steered s groups (X η) (K η) (bias η) q)
      [N, groups * P, (s.grid (k, k) (H, W)).1, (s.grid (k, k) (H, W)).2] θ :=
    varies_of_inner (fun η => (ext η).shape_steered) fun c hc => (hderiv c hc).differentiableAt
  exact ⟨hv, fun c hc => (hv.hasFDerivAt_inner hc).unique (hderiv c hc)⟩

end Convolution

/-! ### One layer -/

section Layer

variable {E : Type} [NormedAddCommGroup E] [NormedSpace ℝ E] {θ : E} {F : E → ConvLayer ℝ ℝ}

/-- A family of sound layers of one form whose parameters vary. -/
structure Tuned (F : E → ConvLayer ℝ ℝ) (θ : E) : Prop where
  form : ∀ η, (F η).form = (F θ).form
  sound : (F θ).Sound
  weight : Varies (fun η => (F η).weight.value) (F θ).weight.value.shape θ
  bias : Varies (fun η => biasOrEmpty (F η).biasValue) (biasOrEmpty (F θ).biasValue).shape θ

/-- The families of parameters that have gradients, with these. -/
noncomputable def tunedParts (F : E → ConvLayer ℝ ℝ) (g : Gradients ℝ) : List ((E → Tensor ℝ) × Tensor ℝ) :=
  (g.weight.map fun t => (fun η => (F η).weight.value, t)).toList ++
    (g.bias.map fun t => (fun η => biasOrEmpty (F η).biasValue, t)).toList

/-- What gradients of the parameters pull back. -/
noncomputable def pullGradients (F : E → ConvLayer ℝ ℝ) (θ : E) (g : Gradients ℝ) : E →L[ℝ] ℝ :=
  pullAll (tunedParts F g) θ

theorem pullGradients_eq (F : E → ConvLayer ℝ ℝ) (g : Gradients ℝ) : pullGradients F θ g =
    g.weight.elim 0 (pull (fun η => (F η).weight.value) θ) +
      g.bias.elim 0 (pull (fun η => biasOrEmpty (F η).biasValue) θ) := by
  unfold pullGradients tunedParts
  rw [pullAll_append, pullAll_toList, pullAll_toList]

namespace Tuned

theorem sizeFor_eq (hF : Tuned F θ) (η : E) : (F η).sizeFor = (F θ).sizeFor := by
  have h : (F η).form.sizeFor = (F θ).form.sizeFor := by rw [hF.form]
  exact h

theorem groups_eq (hF : Tuned F θ) (η : E) : (F η).groups = (F θ).groups := by
  have h : (F η).form.groups = (F θ).form.groups := by rw [hF.form]
  exact h

theorem geometry_eq (hF : Tuned F θ) (η : E) : (F η).geometry = (F θ).geometry := by
  have h : (F η).form.geometry = (F θ).form.geometry := by rw [hF.form]
  exact h

theorem estimator_eq (hF : Tuned F θ) (η : E) : (F η).estimator = (F θ).estimator := by
  have h : (F η).form.estimator = (F θ).form.estimator := by rw [hF.form]
  exact h

theorem isSome_biasValue (hF : Tuned F θ) (η : E) : (F η).biasValue.isSome = (F θ).biasValue.isSome := by
  have h : (F η).form.bias.isSome = (F θ).form.bias.isSome := by rw [hF.form]
  unfold ConvLayer.form at h
  unfold ConvLayer.biasValue
  simpa using h

theorem shape_bias (hF : Tuned F θ) (η : E) :
    ∀ b ∈ (F η).biasValue, b.shape = [(F θ).weight.value.extent 0] := by
  have hsound : (F η).Sound := by
    rw [← ConvLayer.sound_form, hF.form η, ConvLayer.sound_form]
    exact hF.sound
  intro b hb
  obtain ⟨p, hp, rfl⟩ := Option.mem_map.mp hb
  rw [hsound.bias p hp, extent, hF.weight.shaped η, extent]

end Tuned

/-- The map decides the weights of the rotations, whatever the parameters are: a family of layers steers
a family of batches by the same weights throughout. -/
theorem Tuned.answer_eq {X : E → Tensor ℝ} {shape : List ℕ} {map : Tensor ℝ} {r : Orientation ℝ ℝ × Stage ℝ}
    (hF : Tuned F θ) (hX : ∀ η, (X η).shape = shape) (h : (F θ).answer (X θ) map = .ok r) :
    ∃ (o : Orientation ℝ ℝ) (groups : ℕ) (q : Tensor ℝ),
      (∀ η, Arranged (F θ).geometry.sweep groups (X η) (F η).weight.value (F η).biasValue q) ∧
      ∀ η, (F η).answer (X η) map = .ok (o, ⟨⟨X η, (F η).weight.value, q, (F θ).geometry.sweep, groups⟩,
        steered (F θ).geometry.sweep groups (X η) (F η).weight.value (F η).biasValue q⟩) := by
  obtain ⟨size, groups, hsize, hgroups, accepted⟩ := ConvLayer.accepted_of_answer hF.sound h
  obtain ⟨o, q, horient⟩ := accepted.exists_orient
  have arranged : ∀ η, Arranged (F θ).geometry.sweep groups (X η) (F η).weight.value (F η).biasValue q := by
    intro η
    have accepted' := accepted.congr ((hX η).trans (hX θ).symm) (hF.weight.shaped η) (hF.shape_bias η)
    exact (accepted'.forwardPass_eq horient).1
  refine ⟨o, groups, q, arranged, fun η => ?_⟩
  have hsize' : (F η).sizeFor (X η).shape map.shape = .ok size := by
    rw [hF.sizeFor_eq, hX, ← hX θ, hsize]
  have horient' : orient (F η).estimator map = .ok (o, q) := by rw [hF.estimator_eq, horient]
  have hanswer := ConvLayer.answer_eq hsize' ((hF.groups_eq η).trans hgroups) horient'
    (by rw [hF.geometry_eq]; exact arranged η)
  rwa [hF.geometry_eq] at hanswer

/-- What a family of layers answers to a family of batches has the gradients that the answer gives:
for every cotangent, what is pulled back through the output is what the gradients pull back. -/
theorem Tuned.hasGradients {X : E → Tensor ℝ} {shape : List ℕ} {map : Tensor ℝ}
    {r : Orientation ℝ ℝ × Stage ℝ} (hF : Tuned F θ) (hX : Varies X shape θ)
    (h : (F θ).answer (X θ) map = .ok r) : ∃ (S : E → Stage ℝ) (out : List ℕ),
      (∀ η, (F η).answer (X η) map = .ok (r.1, S η)) ∧ Varies (fun η => (S η).output) out θ ∧
      ∀ c : Tensor ℝ, c.shape = out → ∃ below : Tensor ℝ, below.shape = shape ∧ ∀ wants, ∃ g,
        (S θ).gradients wants c = .ok g ∧ g.input = (if wants then some below else none) ∧
        pull (fun η => (S η).output) θ c = pull X θ below + pullGradients F θ g := by
  obtain ⟨o, groups, q, arranged, hanswer⟩ := hF.answer_eq hX.shaped h
  set sweep := (F θ).geometry.sweep
  obtain rfl : r = _ := Except.ok.inj (h.symm.trans (hanswer θ))
  obtain ⟨N, B, P, H, W, k, ext⟩ := (arranged θ).extents
  have ext_at : ∀ η, Extents sweep groups (X η) (F η).weight.value (F η).biasValue q N B P H W k := by
    intro η
    refine ext.congr ((hX.shaped η).trans (hX.shaped θ).symm) (hF.weight.shaped η) ?_
    rw [← (Tensor.extents ext.kernel).1]
    exact hF.shape_bias η
  have hshape : shape = [N, groups * B, H, W] := (hX.shaped θ).symm.trans ext.batch
  have hkernel : (F θ).weight.value.shape = [groups * P, B, k, k] := ext.kernel
  obtain ⟨hout, pull_out⟩ :=
    varies_steered (hshape ▸ hX) (hkernel ▸ hF.weight) ext_at hF.isSome_biasValue hF.bias
  refine ⟨fun η => ⟨⟨X η, (F η).weight.value, q, sweep, groups⟩,
    steered sweep groups (X η) (F η).weight.value (F η).biasValue q⟩, _, hanswer, hout, fun c hc => ?_⟩
  refine ⟨batchAdjoint sweep groups (X θ).shape (F θ).weight.value q c, ?_, fun wants => ⟨_,
    gradients_eq (arranged θ) (hc.trans ext.shape_steered.symm) ⟨wants, true, true⟩, rfl, ?_⟩⟩
  · rw [ext.shape_batchAdjoint c, hX.shaped]
  · rw [pull_out c hc, pullGradients_eq, ext.batch, ext.kernel]
    rfl

end Layer

/-! ### Between two layers -/

theorem hasDerivAt_leaky {slope x : ℝ} (hx : x ≠ 0) :
    HasDerivAt (leaky slope) (if 0 < x then 1 else slope) x := by
  rcases lt_or_gt_of_ne hx with hneg | hpos
  · rw [if_neg hneg.not_gt]
    have hlinear : HasDerivAt (fun y : ℝ => y * slope) slope x := by
      simpa using (hasDerivAt_id x).mul_const slope
    refine hlinear.congr_of_eventuallyEq ?_
    filter_upwards [eventually_lt_nhds hneg] with y hy
    exact if_neg hy.not_gt
  · rw [if_pos hpos]
    refine (hasDerivAt_id x).congr_of_eventuallyEq ?_
    filter_upwards [eventually_gt_nhds hpos] with y hy
    exact if_pos hy

section Leaky

variable {E : Type} [NormedAddCommGroup E] [NormedSpace ℝ E] {θ : E} {Y : E → Tensor ℝ} {shape : List ℕ}

/-- Away from zero the leaky units pull a cotangent back as `leakyGradient` does. -/
theorem Varies.map_leaky (hY : Varies Y shape θ) (hne : ∀ i < volume shape, (Y θ).flat i ≠ 0) (slope : ℝ) :
    Varies (fun η => (Y η).map (leaky slope)) shape θ ∧ ∀ g, g.shape = shape →
      pull (fun η => (Y η).map (leaky slope)) θ g =
        pull Y θ (zipWith (leakyGradient slope) (Y θ) g) := by
  have hderiv : ∀ i < volume shape, HasDerivAt (leaky slope) (if 0 < (Y θ).flat i then 1 else slope)
      ((Y θ).flat i) := fun i hi => hasDerivAt_leaky (hne i hi)
  obtain ⟨hv, hpull⟩ := hY.map hderiv
  refine ⟨hv, fun g hg => (hpull g hg).trans (congrArg (pull Y θ) ?_)⟩
  have hshape : (zipWith (leakyGradient slope) (Y θ) g).shape = shape := hY.shaped θ
  refine ext_flat hshape.symm fun i hi => ?_
  have hi' : i < volume shape := hi
  rw [flat_ofFlat hi', flat_zipWith (by rw [hY.size]; exact hi')]
  unfold leakyGradient
  split_ifs
  · rw [one_mul]
  · rw [mul_comm]

end Leaky

/-! ### A row of layers -/

section Row

variable {E : Type} [NormedAddCommGroup E] [NormedSpace ℝ E] {θ : E}

/-- What gradients of the layers of a row pull back. -/
noncomputable def pullRow (Fs : List (E → ConvLayer ℝ ℝ)) (θ : E) (gs : List (Gradients ℝ)) : E →L[ℝ] ℝ :=
  pullAll (List.zipWith tunedParts Fs gs).flatten θ

theorem pullRow_cons (F : E → ConvLayer ℝ ℝ) (Fs : List (E → ConvLayer ℝ ℝ)) (g : Gradients ℝ)
    (gs : List (Gradients ℝ)) : pullRow (F :: Fs) θ (g :: gs) = pullGradients F θ g + pullRow Fs θ gs :=
  pullAll_append _ _

/-- No entry is zero. -/
def Stage.Nonzero (s : Stage ℝ) : Prop := ∀ i < s.output.size, s.output.flat i ≠ 0

/-- What a row of families of layers answers, with `Stage.back`: what is pulled back through the
output of the last layer is what the gradients pull back, and what is left for the layer before. -/
theorem hasGradients_row {Fs : List (E → ConvLayer ℝ ℝ)} (hFs : ∀ F ∈ Fs, Tuned F θ) {B : E → Stage ℝ}
    {shape : List ℕ} (hB : Varies (fun η => (B η).output) shape θ) {slope : ℝ} {map : Tensor ℝ}
    {stages : List (Stage ℝ)} (h : Network.answers slope map (Fs.map (· θ)) (B θ) = .ok stages)
    (hne : ∀ s ∈ (B θ :: stages).dropLast, s.Nonzero) : ∃ (S : E → List (Stage ℝ)) (out : List ℕ),
      (∀ η, Network.answers slope map (Fs.map (· η)) (B η) = .ok (S η)) ∧
      Varies (fun η => ((S η).getLast?.getD (B η)).output) out θ ∧
      ∀ c : Tensor ℝ, c.shape = out → ∃ below later,
        Stage.back slope (B θ).output stages c = .ok (below, later) ∧ below.shape = shape ∧
        pull (fun η => ((S η).getLast?.getD (B η)).output) θ c =
          pull (fun η => (B η).output) θ below + pullRow Fs θ later := by
  induction Fs generalizing B shape stages with
  | nil =>
    obtain rfl : [] = stages := Except.ok.inj h
    refine ⟨fun _ => [], shape, fun _ => rfl, hB, fun c hc => ⟨c, [], rfl, hc, ?_⟩⟩
    exact (add_zero _).symm
  | cons F Fs ih =>
    obtain ⟨hF, hFs⟩ := List.forall_mem_cons.mp hFs
    obtain ⟨⟨o, stage⟩, hr, h⟩ := bind_eq_ok_iff.mp h
    obtain ⟨later, hlater, h⟩ := bind_eq_ok_iff.mp h
    obtain rfl : stage :: later = stages := Except.ok.inj h
    rw [List.dropLast_cons_cons, List.forall_mem_cons] at hne
    obtain ⟨hleaky, pull_leaky⟩ := hB.map_leaky (fun i hi => hne.1 i (by rw [hB.size θ]; exact hi)) slope
    obtain ⟨S, out, hS, hout, hback⟩ := hF.hasGradients hleaky hr
    obtain rfl : stage = S θ := (Prod.mk.inj (Except.ok.inj (hr.symm.trans (hS θ)))).2
    obtain ⟨T, last, hT, hlast, hrest⟩ := ih hFs hout hlater hne.2
    refine ⟨fun η => S η :: T η, last, fun η => ?_, ?_, fun c hc => ?_⟩
    · rw [List.map_cons]
      unfold Network.answers
      rw [hS η, ok_bind]
      dsimp only
      rw [hT η]
      rfl
    · simpa only [List.getLast?_cons, Option.getD_some] using hlast
    · obtain ⟨c', gs, hgs, hc', hpull⟩ := hrest c hc
      obtain ⟨below, hbelow, hown⟩ := hback c' hc'
      obtain ⟨g, hg, hinput, hpull'⟩ := hown true
      refine ⟨zipWith (leakyGradient slope) (B θ).output below, g :: gs, ?_, hB.shaped θ, ?_⟩
      · unfold Stage.back
        rw [hgs, ok_bind]
        dsimp only
        rw [hg, ok_bind, hinput, if_pos rfl, fitting_some, ok_bind]
        rfl
      · simp only [List.getLast?_cons, Option.getD_some]
        rw [hpull, hpull', pull_leaky below hbelow, pullRow_cons, add_assoc]

end Row

/-! ### A whole network and its loss -/

theorem accepts_of_similarityPass {s : Smoother ℝ} {c1 c2 : ℝ} {a b : Tensor ℝ} {p : SimilarityPass ℝ ℝ}
    (h : similarityPass s c1 c2 a b = .ok p) : ∃ g, s.accepts a.shape = .ok g ∧ b.shape = a.shape := by
  obtain ⟨_, haverages, -⟩ := bind_eq_ok_iff.mp h
  unfold windowAverages at haverages
  split at haverages
  · cases haverages
  · rename_i hshape
    obtain ⟨_, hsmooth, -⟩ := bind_eq_ok_iff.mp haverages
    obtain ⟨g, hg, -⟩ := bind_eq_ok_iff.mp hsmooth
    exact ⟨g, hg, (not_not.mp hshape).symm⟩

/-- No number that a leaky unit is given is zero. -/
def Trace.Smooth (t : Trace ℝ) : Prop := ∀ s ∈ (t.first :: t.rest).dropLast, s.Nonzero

def Network.withLayers (n : Network ℝ ℝ) (first : ConvLayer ℝ ℝ) (rest : List (ConvLayer ℝ ℝ)) :
    Network ℝ ℝ :=
  { n with first := first, rest := rest }

section Whole

variable {E : Type} [NormedAddCommGroup E] [NormedSpace ℝ E] {θ : E} {n : Network ℝ ℝ}
  {F : E → ConvLayer ℝ ℝ} {Fs : List (E → ConvLayer ℝ ℝ)} {x : Tensor ℝ} {t : Trace ℝ}

/-- What a family of networks answers to an image has the gradients of `Trace.gradients`. -/
theorem hasGradients_trace (hF : Tuned F θ) (hFs : ∀ G ∈ Fs, Tuned G θ)
    (h : (n.withLayers (F θ) (Fs.map (· θ))).trace x = .ok t) (hne : t.Smooth) :
    ∃ (T : E → Trace ℝ) (out : List ℕ),
      (∀ η, (n.withLayers (F η) (Fs.map (· η))).trace x = .ok (T η)) ∧
      Varies (fun η => (T η).output) out θ ∧ ∀ c : Tensor ℝ, c.shape = out → ∃ g,
        t.gradients n.slope c = .ok g ∧
        pull (fun η => (T η).output) θ c = pullGradients F θ g.1 + pullRow Fs θ g.2 := by
  obtain ⟨map, hmap, h⟩ := bind_eq_ok_iff.mp h
  obtain ⟨⟨o, first⟩, hfirst, h⟩ := bind_eq_ok_iff.mp h
  obtain ⟨rest, hrest, h⟩ := bind_eq_ok_iff.mp h
  obtain rfl : ⟨map, o.sinCos, first, rest⟩ = t := Except.ok.inj h
  have hconst : Varies (fun _ => x) x.shape θ := Varies.const rfl
  obtain ⟨S, out, hS, hout, hback⟩ := hF.hasGradients hconst hfirst
  obtain rfl : first = S θ := (Prod.mk.inj (Except.ok.inj (hfirst.symm.trans (hS θ)))).2
  have hanswers : Network.answers n.slope map (Fs.map (· θ)) (S θ) = .ok rest := hrest
  obtain ⟨R, last, hR, hlast, hrow⟩ := hasGradients_row hFs hout hanswers hne
  refine ⟨fun η => ⟨map, o.sinCos, S η, R η⟩, last, fun η => ?_, hlast, fun c hc => ?_⟩
  · unfold Network.trace
    rw [hmap, ok_bind]
    show ((F η).answer x map >>= _) = _
    rw [hS η, ok_bind]
    show (Network.answers n.slope map (Fs.map (· η)) (S η) >>= _) = _
    rw [hR η]
    rfl
  · obtain ⟨below, later, hlater, hbelow, hpull⟩ := hrow c hc
    obtain ⟨image, himage, hown⟩ := hback below hbelow
    obtain ⟨g, hg, -, hpull'⟩ := hown false
    refine ⟨(g, later), ?_, ?_⟩
    · unfold Trace.gradients
      rw [hlater, ok_bind]
      dsimp only
      rw [hg]
      rfl
    · have htotal := hpull.trans (congrArg (· + pullRow Fs θ later) hpull')
      rw [pull_const, zero_add] at htotal
      exact htotal

/-- The loss of a batch as a function of what the layers depend on: its derivative is what the
gradients of the loss and of the layers pull back. -/
theorem hasGradients_loss (hF : Tuned F θ) (hFs : ∀ G ∈ Fs, Tuned G θ)
    (h : (n.withLayers (F θ) (Fs.map (· θ))).trace x = .ok t) (hne : t.Smooth) {l : SimilarityLoss ℝ}
    (hl : l.Sound) {c1 c2 : ℝ} (hc1 : l.options.c1.measureIn ℝ = .ok c1)
    (hc2 : l.options.c2.measureIn ℝ = .ok c2)
    (h1 : 0 < c1) (h2 : 0 < c2) {y : Tensor ℝ} {p : SimilarityPass ℝ ℝ} (hp : l.answer t.output y = .ok p) :
    ∃ (T : E → Trace ℝ) (P : E → SimilarityPass ℝ ℝ) (c : Tensor ℝ) (g : Gradients ℝ × List (Gradients ℝ)),
      (∀ η, (n.withLayers (F η) (Fs.map (· η))).trace x = .ok (T η)) ∧
      (∀ η, l.answer (T η).output y = .ok (P η)) ∧ (P θ).firstGradient 1 = .ok c ∧
      t.gradients n.slope c = .ok g ∧
      HasFDerivAt (fun η => (P η).loss) (pullGradients F θ g.1 + pullRow Fs θ g.2) θ := by
  obtain ⟨T, out, hT, hout, hgradients⟩ := hasGradients_trace hF hFs h hne
  obtain rfl : t = T θ := Except.ok.inj (h.symm.trans (hT θ))
  have hshape : ∀ η, (T η).output.shape = (T θ).output.shape := fun η =>
    (hout.shaped η).trans (hout.shaped θ).symm
  obtain ⟨size, hsize, hpass⟩ := bind_eq_ok_iff.mp hp
  unfold SimilarityLoss.pass at hpass
  rw [hc1, ok_bind, hc2, ok_bind] at hpass
  obtain ⟨g, hg, hy⟩ := accepts_of_similarityPass hpass
  have hP : ∀ η, l.answer (T η).output y = .ok (comparison l.smoother g c1 c2 (T η).output y) := fun η => by
    unfold SimilarityLoss.answer SimilarityLoss.pass
    rw [hshape η, hsize, ok_bind, hc1, ok_bind, hc2, ok_bind]
    exact similarityPass_eq (by rw [hshape η]; exact hg) (hy.trans (hshape η).symm)
  have hregular := regular_comparison hl.smoother hl.weighs hg hy h1 h2
  have haccepts : l.smoother.accepts out = .ok g := by rw [← hout.shaped θ, hg]
  have hconst : Varies (fun _ => y) out θ := Varies.const (hy.trans (hout.shaped θ))
  obtain ⟨c, _, hc, -, hcshape, -, hloss⟩ := hasFDerivAt_loss hl.smoother haccepts hout hconst hregular 1
  obtain ⟨gs, hgs, hpull⟩ := hgradients c hcshape
  refine ⟨T, _, c, gs, hT, hP, hc, hgs, ?_⟩
  rw [pull_const, add_zero, hpull] at hloss
  simpa only [one_mul] using hloss

end Whole

end SteeredConv
