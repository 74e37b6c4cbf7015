/-
# One kernel for every window

The four responses of a batch are blended after the convolutions, but what a window gives is the response
to one kernel of its own: the four rotations of the kernel, added with the weights of the window. An entry
of the output is the bias of its channel, once, and the sum of the pixels under the taps of the window
times this kernel, over the input channels of the group; a tap outside the image gives nothing.

Key definitions: `quarterTurned`, `effectiveKernel`, `Sweep.tap`, `Inside`.
Key theorems: `iterate_quarterTurned`, `padded_tap`, `Extents.at4_blended_eq`, `output_effective`.
-/
import SteeredConv.Proofs.Responses

namespace SteeredConv

open Finset Tensor

/-! ### Kernels turned one quarter after the other -/

section Kernels

variable {k : ℕ}

/-- The entries of a kernel of size `k` after a quarter turn. -/
def quarterTurned (k : ℕ) (f : ℕ → ℕ → ℝ) (h w : ℕ) : ℝ := f w (k - 1 - h)

/-- Several quarter turns read the entry at the turned position. -/
theorem iterate_quarterTurned (r : ℕ) (f : ℕ → ℕ → ℝ) (p : ℕ × ℕ) :
    (quarterTurned k)^[r] f p.1 p.2 = f (turnedSource k r p).1 (turnedSource k r p).2 := by
  induction r generalizing p with
  | zero => rfl
  | succ r ih =>
    rw [Function.iterate_succ_apply']
    exact ih (quarterSource k p)

/-- The entry at tap `t` of the kernel from input channel `c` to output channel `o` at window `p` of sample
`n`: the entries that the four rotations have there, with the weights `q` of the window. -/
def effectiveKernel (q w : Tensor ℝ) (n o c : ℕ) (p t : ℕ × ℕ) : ℝ :=
  ∑ r ∈ range rotations, q.at4 n r p.1 p.2 * (quarterTurned (w.extent 2))^[r] (w.at4 o c) t.1 t.2

theorem effectiveKernel_eq {q w : Tensor ℝ} {O B : ℕ} (hw : w.shape = [O, B, k, k]) {n o c : ℕ} (ho : o < O)
    (hc : c < B) (p : ℕ × ℕ) {t : ℕ × ℕ} (ht : t ∈ cells (k, k)) :
    effectiveKernel q w n o c p t = ∑ r ∈ range 4, (turned r w).at4 o c t.1 t.2 * q.at4 n r p.1 p.2 := by
  obtain ⟨-, -, w2, -⟩ := extents hw
  unfold effectiveKernel rotations
  refine sum_congr rfl fun r _ => ?_
  rw [w2, iterate_quarterTurned, at4_turned hw r ho hc ht, mul_comm]

end Kernels

/-! ### Taps inside and outside the image -/

section Taps

variable {s : Sweep}

/-- Where tap `t` of window `p` lies: its row and column, counted from those of the first pixel of the image. -/
def Sweep.tap (s : Sweep) (p t : ℕ × ℕ) : ℤ × ℤ :=
  (p.1 * s.stride.1 - s.pad.1 + t.1, p.2 * s.stride.2 - s.pad.2 + t.2)

/-- The rows and columns of an image. -/
def Inside (area : ℕ × ℕ) (u : ℤ × ℤ) : Prop := (0 ≤ u.1 ∧ u.1 < area.1) ∧ 0 ≤ u.2 ∧ u.2 < area.2

instance (area : ℕ × ℕ) (u : ℤ × ℤ) : Decidable (Inside area u) := by
  unfold Inside
  infer_instance

theorem tap_row (s : Sweep) (p t : ℕ × ℕ) : (s.tap p t).1 = ((p.1 * s.stride.1 + t.1 : ℕ) : ℤ) - s.pad.1 := by
  unfold Sweep.tap
  push_cast
  ring

theorem tap_column (s : Sweep) (p t : ℕ × ℕ) : (s.tap p t).2 = ((p.2 * s.stride.2 + t.2 : ℕ) : ℤ) - s.pad.2 := by
  unfold Sweep.tap
  push_cast
  ring

theorem inside_tap_iff {area p t : ℕ × ℕ} : Inside area (s.tap p t) ↔
    (s.pad.1 ≤ p.1 * s.stride.1 + t.1 ∧ s.pad.2 ≤ p.2 * s.stride.2 + t.2) ∧
      p.1 * s.stride.1 + t.1 - s.pad.1 < area.1 ∧ p.2 * s.stride.2 + t.2 - s.pad.2 < area.2 := by
  unfold Inside
  rw [tap_row, tap_column]
  omega

/-- A tap reads the pixel under it, zero outside the image. -/
theorem padded_tap {x : Tensor ℝ} {N C H W : ℕ} (hx : x.shape = [N, C, H, W]) (n c : ℕ) (p t : ℕ × ℕ) :
    x.padded s.pad n c (p.1 * s.stride.1 + t.1) (p.2 * s.stride.2 + t.2) =
      if Inside (H, W) (s.tap p t) then x.at4 n c (s.tap p t).1.toNat (s.tap p t).2.toNat else 0 := by
  by_cases hin : Inside (H, W) (s.tap p t)
  · rw [if_pos hin, tap_row, tap_column, Int.toNat_sub, Int.toNat_sub]
    exact if_pos (inside_tap_iff.mp hin).1
  · rw [if_neg hin]
    unfold padded
    split_ifs with hborder
    · -- beyond the last row or column
      exact at4_of_not hx fun hpixel => hin (inside_tap_iff.mpr ⟨hborder, hpixel.2.2⟩)
    · rfl

end Taps

/-! ### The output -/

section Output

variable {s : Sweep} {groups : ℕ} {x w q : Tensor ℝ} {bias : Option (Tensor ℝ)} {N B P H W k : ℕ}

/-- The blended responses at a window are the response to its kernel. -/
theorem Extents.at4_blended_eq (e : Extents s groups x w bias q N B P H W k) {n o : ℕ} (hn : n < N)
    (ho : o < groups * P) {p : ℕ × ℕ} (hp : p ∈ cells (s.grid (k, k) (H, W))) :
    (blended s groups x w q).at4 n o p.1 p.2 = ∑ c ∈ range B, ∑ t ∈ cells (k, k),
      x.padded s.pad n (o / (groups * P / groups) * B + c) (p.1 * s.stride.1 + t.1) (p.2 * s.stride.2 + t.2) *
        effectiveKernel q w n o c p t := by
  let read (c : ℕ) (t : ℕ × ℕ) : ℝ :=
    x.padded s.pad n (o / (groups * P / groups) * B + c) (p.1 * s.stride.1 + t.1) (p.2 * s.stride.2 + t.2)
  obtain ⟨hi, hj⟩ := mem_cells.mp hp
  calc (blended s groups x w q).at4 n o p.1 p.2
      = ∑ r ∈ range 4, (correlate s groups x (turned r w)).at4 n o p.1 p.2 * q.at4 n r p.1 p.2 :=
        e.at4_blended hn ho hi hj
    _ = ∑ r ∈ range 4, ∑ c ∈ range B, ∑ t ∈ cells (k, k),
          read c t * ((turned r w).at4 o c t.1 t.2 * q.at4 n r p.1 p.2) := by
        refine sum_congr rfl fun r _ => ?_
        rw [at4_correlate (w := turned r w) e.batch e.kernel hn ho hp]
        simp only [sum_mul, mul_assoc]
        rfl
    _ = ∑ c ∈ range B, ∑ t ∈ cells (k, k), ∑ r ∈ range 4,
          read c t * ((turned r w).at4 o c t.1 t.2 * q.at4 n r p.1 p.2) :=
        sum_comm.trans (sum_congr rfl fun c _ => sum_comm)
    _ = ∑ c ∈ range B, ∑ t ∈ cells (k, k), read c t * effectiveKernel q w n o c p t := by
        refine sum_congr rfl fun c hc => sum_congr rfl fun t ht => ?_
        rw [effectiveKernel_eq e.kernel ho (mem_range.mp hc) p ht, mul_sum]

/-- The output at window `p`: the bias of the channel, and the pixels under the taps that lie on the image
times the kernel of the window, over the input channels of the group. -/
def windowOutput (s : Sweep) (groups : ℕ) (x w q : Tensor ℝ) (bias : Option (Tensor ℝ)) (n o : ℕ) (p : ℕ × ℕ) : ℝ :=
  (bias.elim 0 fun b => b.flat o) + ∑ c ∈ range (w.extent 1), ∑ t ∈ cells w.area with Inside x.area (s.tap p t),
    x.at4 n (o / (w.extent 0 / groups) * w.extent 1 + c) (s.tap p t).1.toNat (s.tap p t).2.toNat *
      effectiveKernel q w n o c p t

variable {e : Estimator ℝ} {map : Tensor ℝ}

/-- Aligned arguments have an output, and each of its entries is the response to the kernel of the window. -/
theorem output_effective (h : Aligned e s groups x map w bias) : ∃ (o : Orientation ℝ ℝ) (q y : Tensor ℝ),
    orient e map = .ok (o, q) ∧ forwardPass e s groups x map w bias = .ok (o, y, ⟨x, w, q, s, groups⟩) ∧
      y.shape = correlationShape s x.shape w.shape ∧
      ∀ n c i j, y.Holds n c i j → y.at4 n c i j = windowOutput s groups x w q bias n c (i, j) := by
  obtain ⟨o, q, horient, harranged, hpass⟩ := h.exists_pass
  obtain ⟨N, B, P, H, W, k, ext⟩ := harranged.extents
  obtain ⟨y0, y1, y2, y3⟩ := extents ext.shape_steered
  obtain ⟨w0, w1, -, -⟩ := extents ext.kernel
  refine ⟨o, q, _, horient, hpass, ?_, fun n c i j hin => ?_⟩
  · rw [ext.shape_steered, ext.batch, ext.kernel]
    rfl
  obtain ⟨hn, hc, hi, hj⟩ := hin
  rw [y0] at hn
  rw [y1] at hc
  rw [y2] at hi
  rw [y3] at hj
  unfold steered windowOutput
  rw [at4_withBias ext.shape_blended bias hn hc hi hj, add_comm, area_batch ext.batch, area_batch ext.kernel, w0, w1]
  congr 1
  rw [ext.at4_blended_eq hn hc (p := (i, j)) (mem_cells.mpr ⟨hi, hj⟩)]
  refine sum_congr rfl fun d _ => ?_
  rw [sum_filter]
  refine sum_congr rfl fun t _ => ?_
  rw [padded_tap ext.batch, ite_mul, zero_mul]

theorem output_effective_sample : ∃ (o : Orientation ℝ ℝ) (q y : Tensor ℝ),
    orient ⟨⟨.orientation, "torch", {}⟩, evenSmoother sampleGeometry⟩ (fill [1, 2, 3, 2] 1) = .ok (o, q) ∧
    forwardPass ⟨⟨.orientation, "torch", {}⟩, evenSmoother sampleGeometry⟩ sampleGeometry.sweep 2
      (fill [1, 4, 3, 2] 1) (fill [1, 2, 3, 2] 1) (fill [2, 2, 2, 2] 1) (some (fill [2] 1)) =
        .ok (o, y, ⟨fill [1, 4, 3, 2] 1, fill [2, 2, 2, 2] 1, q, sampleGeometry.sweep, 2⟩) ∧
    y.shape = [1, 2, 1, 3] ∧
    ∀ n c i j, y.Holds n c i j → y.at4 n c i j = windowOutput sampleGeometry.sweep 2 (fill [1, 4, 3, 2] 1)
      (fill [2, 2, 2, 2] 1) q (some (fill [2] 1)) n c (i, j) :=
  output_effective accepted_sample.aligned

end Output
end SteeredConv
