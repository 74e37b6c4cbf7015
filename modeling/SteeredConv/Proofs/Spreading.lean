/-
# Smoothing and spreading

A smoother is built for every window whose deviation is in range, normalized or not. It smooths the
batches with channels whose images have pixels and which the window fits, border included, and no others.
Numbers at the windows of a batch that it smooths are spread over the pixels of that batch, and the
product of the smoothed batch with them is the product of the batch with what they are spread to:
for every footprint, stride and border, with rows that no window reaches and windows that hold nothing
but the border.

Key definitions: `Smoother.Spreads`.
Key theorems: `Smoother.Sound.spreads`, `Smoother.smooths_iff`, `window_spreads`.
-/
import SteeredConv.Proofs.Borders

namespace SteeredConv

open Finset Tensor

namespace Smoother

variable {s : Smoother ℝ} {g : Geometry} {x y z : Tensor ℝ} {N C H W : ℕ}

/-- The images that a smoother with a geometry smooths. -/
theorem smooths_iff (hs : s.geometry = .ok g) (hx : x.shape = [N, C, H, W]) : (∃ z, s.smooth x = .ok z) ↔
    0 < C ∧ Whole N H W ∧ g.kernel.1 ≤ H + 2 * g.pad.1 ∧ g.kernel.2 ≤ W + 2 * g.pad.2 := by
  have hcorrelates : Correlates g.sweep C [N, C, H, W] (kernelShape g C) ↔
      0 < C ∧ Whole N H W ∧ g.kernel.1 ≤ H + 2 * g.pad.1 ∧ g.kernel.2 ≤ W + 2 * g.pad.2 := by
    have hkernel := g.kernel_pos
    have hstride := g.stride_pos
    unfold Correlates kernelShape Whole Geometry.sweep
    dsimp only
    rw [Nat.mod_self, Nat.one_mul]
    omega
  rw [← hcorrelates]
  constructor
  · rintro ⟨z, hz⟩
    exact ((smooth_eq_ok_iff hs hx).mp hz).1
  · exact fun hc => ⟨_, (smooth_eq_ok_iff hs hx).mpr ⟨hc, rfl⟩⟩

/-- Numbers at the windows of a batch are spread over its pixels, and spreading is the adjoint of smoothing. -/
def Spreads (s : Smoother ℝ) : Prop := ∀ x y z : Tensor ℝ, s.smooth x = .ok z → y.shape = z.shape →
  ∃ v, s.adjoint x.shape y = .ok v ∧ v.shape = x.shape ∧ z.inner y = x.inner v

/-- A smoother whose table has the size of its windows spreads, whatever the entries of the table are. -/
theorem Sound.spreads (hs : s.Sound) : s.Spreads := by
  intro x y z hz hy
  obtain ⟨g, haccepts, hz⟩ := bind_eq_ok_iff.mp hz
  obtain rfl := Except.ok.inj hz
  obtain ⟨N, C, H, W, hx, hC, -⟩ := extents_of_accepts haccepts
  have hadjoint := adjoint_eq haccepts (hy.trans (shape_smooth hs haccepts))
  exact ⟨_, hadjoint, by rw [hx, shape_windowSpread], inner_windowAverage hx hC g.stride_pos hy⟩

end Smoother

/-- Every window whose deviation is in range has a smoother. It smooths the batches with channels and pixels
that the window fits, and spreads what is given at their windows. -/
theorem window_spreads (g : Geometry) (sigma normalize : Value) {globals : GlobalOptions} {op : Operator}
    {deviation : ℝ} (hop : Operator.check .smoother globals = .ok op)
    (hd : (g.gaussian sigma).deviation ℝ = .ok deviation) :
    ∃ s : Smoother ℝ, (Smoother.create (g.windowOptions sigma normalize) globals).Returns s ∧
      (∀ (x : Tensor ℝ) (N C H W : ℕ), x.shape = [N, C, H, W] → ((∃ z, s.smooth x = .ok z) ↔
        0 < C ∧ Whole N H W ∧ g.kernel.1 ≤ H + 2 * g.pad.1 ∧ g.kernel.2 ≤ W + 2 * g.pad.2)) ∧ s.Spreads := by
  have htable := Smoother.table_windowOptions (α := ℝ) g sigma normalize
  rw [hd] at htable
  have hcheck : Smoother.check (g.windowOptions sigma normalize) = .ok () := Smoother.check_gaussian g sigma
  have hcreate := Smoother.returns_create hop hcheck htable
  obtain ⟨-, hsound⟩ := Smoother.sound_of_create ⟨Journal.empty, hcreate Journal.empty⟩
  refine ⟨_, hcreate, fun x N C H W hx => Smoother.smooths_iff ?_ hx, hsound.spreads⟩
  exact Smoother.geometry_eq_ok_iff.mpr ⟨rfl, rfl, rfl, rfl, rfl, rfl⟩

/-- Windows of two by three pixels, three rows apart, with a border so high that the first window is inside. -/
def overhangingWindows : Geometry where
  kernel := (2, 3)
  stride := (3, 1)
  pad := (3, 1)
  kernel_pos := ⟨Nat.succ_pos _, Nat.succ_pos _⟩
  stride_pos := ⟨Nat.succ_pos _, Nat.succ_pos _⟩

theorem window_spreads_sample : ∃ s : Smoother ℝ,
    (Smoother.create (overhangingWindows.windowOptions .null (.bool false)) {}).Returns s ∧
      ∃ z v, s.smooth (fill [2, 1, 5, 4] 1) = .ok z ∧ s.adjoint [2, 1, 5, 4] z = .ok v ∧
        z.inner z = (fill [2, 1, 5, 4] (1 : ℝ)).inner v := by
  have hd : (overhangingWindows.gaussian .null).deviation ℝ = .ok (footprintDeviation 2 3) := by
    with_unfolding_all rfl
  obtain ⟨s, hs, hsmooths, hspreads⟩ := window_spreads overhangingWindows .null (.bool false)
    (show Operator.check .smoother {} = .ok ⟨.smoother, "torch", {}⟩ by with_unfolding_all rfl) hd
  obtain ⟨z, hz⟩ := (hsmooths (fill [2, 1, 5, 4] 1) 2 1 5 4 (shape_fill _ _)).mpr
    ⟨by decide, .inr (by decide), by decide, by decide⟩
  obtain ⟨v, hv, -, hinner⟩ := hspreads _ z z hz rfl
  exact ⟨s, hs, z, v, hz, hv, hinner⟩

end SteeredConv
