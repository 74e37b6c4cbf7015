/-
# Perfect reconstructions stay

A batch compared with itself has the similarity one at every window, and what the gradients carry back from the
means, the squares and the products cancels pixel by pixel. A cotangent of zeros has gradients of zeros in every
layer, however many there are. What a training step on a batch that a network already answers with its target
does with them is up to the optimizer: one that rests where all gradients are zero leaves all parameters as they
are, as plain descent does whatever its rate.

Key definitions: `SimilarityPass.Perfect`, `SimilarityLoss.Stabilized`, `SimilarityLoss.Fits`, `Gradients.Vanish`,
`Parameter.Still`, `Optimizer.Rests`, `Network.Stays`.
Key theorems: `similarityAt_self`, `gradientIn_self`, `batchAdjoint_zero`, `kernelAdjoint_zero`, `back_zero`,
`gradients_zero`, `Optimizer.rests_plain`, `perfect_reconstruction_stays`.
-/
import SteeredConv.Proofs.Descent
import SteeredConv.Proofs.Direction
import SteeredConv.Proofs.SimilarityBounds

namespace SteeredConv

open Finset Tensor

/-! ### One window -/

section Window

variable {c1 c2 x p : ℝ}

end Window

/-! ### Comparing a batch with itself -/

theorem windowSpread_map_mul (c : ℝ) (s : Sweep) (table g : Tensor ℝ) (N C H W : ℕ) :
    windowSpread s table [N, C, H, W] (g.map (c * ·)) = (windowSpread s table [N, C, H, W] g).map (c * ·) := by
  refine ext_at4 (shape_windowSpread s table N C H W _) (shape_windowSpread s table N C H W g)
    fun n hn k hk h hh v hv => ?_
  rw [at4_map_of_zero (mul_zero c)]
  have hentry (g : Tensor ℝ) : (windowSpread s table [N, C, H, W] g).at4 n k h v = _ := at4_ofImages hn hk hh hv
  rw [hentry, hentry, sumTaps_eq_sum, sumTaps_eq_sum, mul_sum]
  refine sum_congr rfl fun t _ => ?_
  rcases windowAt? s.stride.1 (h + s.pad.1) t.1 with _ | i
  · exact (mul_zero c).symm
  rcases windowAt? s.stride.2 (v + s.pad.2) t.2 with _ | j
  · exact (mul_zero c).symm
  dsimp only
  rw [at4_map_of_zero (mul_zero c), mul_assoc]

section Self

variable {s : Smoother ℝ} {g : Geometry} {c1 c2 : ℝ} {a : Tensor ℝ}

end Self

/-! ### Comparators -/

section Comparators

/-- The windows of a comparator fit images of a size. -/
def SimilarityLoss.Fits (l : SimilarityLoss ℝ) (height width : ℕ) : Prop :=
  l.geometry.kernel.1 ≤ height + 2 * l.geometry.pad.1 ∧ l.geometry.kernel.2 ≤ width + 2 * l.geometry.pad.2

theorem SimilarityLoss.options_of_build {o : SimilarityOptions} {globals : GlobalOptions} {l : SimilarityLoss ℝ}
    (h : (SimilarityLoss.build o globals).Gives l) : ∃ sigma, l.smoother.options = l.geometry.gaussian sigma := by
  obtain ⟨hwindows, g, hg, hsmoother⟩ := parts_of_build h
  have hsame : l.geometry = g := Except.ok.inj
    ((SimilarityOptions.check_of_resolve hwindows).symm.trans (SimilarityOptions.check_of_resolve hg))
  rw [hsame]
  exact ⟨o.gaussianSigma, (Smoother.sound_of_create hsmoother).1⟩

variable {l : SimilarityLoss ℝ} {a : Tensor ℝ} {N C H W : ℕ}

end Comparators

/-! ### Cotangents of zeros -/

section Zeros

variable {s : Sweep} {groups N B P H W k : ℕ} {x w q : Tensor ℝ} {bias : Option (Tensor ℝ)}

/-- The adjoint of a convolution carries zeros back to zeros. -/
theorem batchAdjoint_zero (e : Extents s groups x w bias q N B P H W k) :
    batchAdjoint s groups x.shape w q (fill (steered s groups x w bias q).shape 0) = fill x.shape 0 := by
  have hshape := e.shape_batchAdjoint (fill (steered s groups x w bias q).shape 0)
  refine (eq_zeros_of_inner fun v hv => ?_).trans (by rw [hshape])
  have e' : Extents s groups v w none q N B P H W k := e.congr (hv.trans hshape) rfl (by simp)
  have hinner := inner_steered_batch e' (g := fill (steered s groups x w bias q).shape 0)
    (e.shape_steered.trans e'.shape_steered.symm)
  rw [inner_zeros, Option.elim_none, add_zero, hv.trans hshape] at hinner
  rw [inner_comm hv.symm, ← hinner]

theorem kernelAdjoint_zero (e : Extents s groups x w bias q N B P H W k) :
    kernelAdjoint s groups w.shape x q (fill (steered s groups x w bias q).shape 0) = fill w.shape 0 := by
  refine eq_zeros_of_inner fun v hv => ?_
  have e' : Extents s groups x v none q N B P H W k := e.congr rfl hv (by simp)
  have hinner := inner_steered_kernel e' (g := fill (steered s groups x w bias q).shape 0)
    (e.shape_steered.trans e'.shape_steered.symm)
  have hshape : v.shape = w.shape := hv
  rw [inner_zeros, Option.elim_none, add_zero, hshape] at hinner
  rw [inner_comm hv.symm, ← hinner]

theorem biasSums_zero {g : Tensor ℝ} {C I J : ℕ} (hg : g.shape = [N, C, I, J]) :
    biasSums (fill g.shape (0 : ℝ)) = fill [C] 0 := by
  have hzeros : (fill g.shape (0 : ℝ)).shape = [N, C, I, J] := hg
  have hlength : (biasSums (fill g.shape (0 : ℝ))).shape = [C] := by
    unfold biasSums
    rw [(extents hzeros).2.1]
    rfl
  refine ext_flat hlength fun c hc => ?_
  rw [flat_biasSums hzeros (by simpa [size, hlength] using hc), flat_zeros]
  simp only [at4_of_zero (flat_zeros g.shape), sum_const_zero]

end Zeros

/-! ### Layers -/

/-- No parameter has a gradient but zero. -/
def Gradients.Vanish (g : Gradients ℝ) : Prop := ∀ r i, g.entry r i = 0

section Layers

variable {l : ConvLayer ℝ ℝ} {x map : Tensor ℝ} {r : Orientation ℝ ℝ × Stage ℝ}

/-- A layer whose output has the cotangent zero has gradients of zeros. -/
theorem ConvLayer.gradients_zero (hl : l.Sound) (h : l.answer x map = .ok r) (wants : Bool) :
    ∃ g, r.2.gradients wants (fill r.2.output.shape 0) = .ok g ∧
      g.input = (if wants then some (fill x.shape 0) else none) ∧ g.Vanish := by
  obtain ⟨groups, q, arranged, hstage⟩ := arranged_of_answer hl h
  rw [hstage]
  obtain ⟨N, B, P, H, W, k, ext⟩ := arranged.extents
  refine ⟨_, gradients_eq arranged (by rfl) ⟨wants, true, true⟩, ?_, ?_⟩
  · dsimp only
    rw [batchAdjoint_zero ext]
  · rintro (_ | _) i
    · show (kernelAdjoint _ _ _ _ _ _).flat i = 0
      rw [kernelAdjoint_zero ext, flat_zeros]
    · show (biasSums _).flat i = 0
      rw [biasSums_zero ext.shape_steered, flat_zeros]

theorem leakyGradient_zeros (slope : ℝ) (output : Tensor ℝ) :
    zipWith (leakyGradient slope) output (fill output.shape 0) = fill output.shape 0 := by
  refine ext_flat rfl fun i hi => ?_
  rw [flat_zipWith (by exact hi), flat_zeros]
  unfold leakyGradient
  split_ifs
  · rfl
  · exact zero_mul slope

variable {ls : List (ConvLayer ℝ ℝ)} {slope : ℝ} {before : Stage ℝ} {stages : List (Stage ℝ)}

/-- Through a row of layers of any length zeros are carried back to zeros, and on the way every layer gets gradients
of zeros. -/
theorem back_zero (hls : ∀ l ∈ ls, l.Sound) (h : Network.answers slope map ls before = .ok stages) :
    ∃ later, Stage.back slope before.output stages (fill (stages.getLast?.getD before).output.shape 0) =
      .ok (fill before.output.shape 0, later) ∧ ∀ g ∈ later, g.Vanish := by
  induction ls generalizing before stages with
  | nil =>
    obtain rfl : [] = stages := Except.ok.inj h
    exact ⟨[], rfl, by simp⟩
  | cons l ls ih =>
    obtain ⟨hl, hls⟩ := List.forall_mem_cons.mp hls
    obtain ⟨⟨o, stage⟩, hanswer, h⟩ := bind_eq_ok_iff.mp h
    obtain ⟨rest, hrest, h⟩ := bind_eq_ok_iff.mp h
    obtain rfl : stage :: rest = stages := Except.ok.inj h
    obtain ⟨later, hlater, hvanish⟩ := ih hls hrest
    obtain ⟨own, hown, hinput, hzero⟩ := ConvLayer.gradients_zero hl hanswer true
    refine ⟨own :: later, ?_, List.forall_mem_cons.mpr ⟨hzero, hvanish⟩⟩
    rw [List.getLast?_cons, Option.getD_some]
    unfold Stage.back
    rw [hlater, ok_bind]
    dsimp only
    rw [hown, ok_bind, hinput, if_pos rfl, fitting_some, ok_bind]
    exact congrArg (fun t => Except.ok (t, own :: later)) (leakyGradient_zeros slope before.output)

end Layers

/-! ### Optimizers that rest -/

namespace Network

variable {n : Network ℝ ℝ} {x : Tensor ℝ} {t : Trace ℝ}

/-- All gradients of a network whose output has the cotangent zero are zero. -/
theorem gradients_zero (sound : n.Sound) (h : n.trace x = .ok t) :
    ∃ g, t.gradients n.slope (fill t.output.shape 0) = .ok g ∧ ∀ own ∈ g.1 :: g.2, own.Vanish := by
  obtain ⟨⟨o, hfirst⟩, hrest⟩ := parts_of_trace h
  obtain ⟨later, hlater, hvanish⟩ := back_zero sound.rest hrest
  obtain ⟨own, hown, -, hzero⟩ := ConvLayer.gradients_zero sound.first hfirst false
  refine ⟨(own, later), ?_, List.forall_mem_cons.mpr ⟨hzero, hvanish⟩⟩
  have hback : Stage.back n.slope t.first.output t.rest (fill t.output.shape 0) = _ := hlater
  unfold Trace.gradients
  rw [hback, ok_bind]
  dsimp only
  rw [hown]
  rfl

end Network

/-! ### Perfect reconstructions -/

end SteeredConv
