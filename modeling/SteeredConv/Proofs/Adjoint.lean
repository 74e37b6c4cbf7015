/-
# Adjoints of correlations

A pixel and a tap meet in the window `i` with `i · stride + a = h + pad`. The padded
image read at a tap and the window found from a pixel are both sums over that one
relation, so the sums of `correlate`, `correlateInput` and `correlateKernel` are the
same terms in three orders: the last two are the adjoints of the first in the batch
and in the kernels, for every stride, border and number of groups and whatever rows no
window reaches.

Key definitions: `Sweep.Meets`, `Reached`.
Key theorems: `at4_correlate`, `at4_correlateInput`, `at4_correlateKernel`,
`inner_correlate_input`, `inner_correlate_kernel`, `at4_correlateInput_of_unreached`.
-/
import SteeredConv.Proofs.Inner

namespace SteeredConv

open Finset Tensor

/-! ### The relation of windows, taps and pixels -/

theorem windowAt?_eq_some_iff {stride r a i : ℕ} (hs : 0 < stride) :
    windowAt? stride r a = some i ↔ i * stride + a = r := by
  unfold windowAt?
  constructor
  · intro h
    split at h
    · rename_i hc
      obtain ⟨hle, hmod⟩ := hc
      have hq : (r - a) / stride = i := Option.some.inj h
      have := Nat.div_add_mod' (r - a) stride
      rw [hq, hmod] at this
      omega
    · cases h
  · intro h
    have hle : a ≤ r := by omega
    have hr : r - a = i * stride := by omega
    rw [if_pos ⟨hle, by rw [hr, Nat.mul_mod_left]⟩, hr, Nat.mul_div_cancel _ hs]

/-- Window `p` has its tap `t` on pixel `q` of the image without the border. -/
def Sweep.Meets (s : Sweep) (p t q : ℕ × ℕ) : Prop :=
  p.1 * s.stride.1 + t.1 = q.1 + s.pad.1 ∧ p.2 * s.stride.2 + t.2 = q.2 + s.pad.2

instance (s : Sweep) (p t q : ℕ × ℕ) : Decidable (s.Meets p t q) := by
  unfold Sweep.Meets
  infer_instance

section Relation

variable {R : Type} [CommSemiring R] {s : Sweep}

/-- A tap of a window reads the pixel that it meets, zero if it meets none. -/
theorem padded_eq_sum {x : Tensor R} {N C H W : ℕ} (hx : x.shape = [N, C, H, W]) (n c : ℕ)
    (p t : ℕ × ℕ) : x.padded s.pad n c (p.1 * s.stride.1 + t.1) (p.2 * s.stride.2 + t.2) =
      ∑ q ∈ cells (H, W), if s.Meets p t q then x.at4 n c q.1 q.2 else 0 := by
  by_cases h : s.pad.1 ≤ p.1 * s.stride.1 + t.1 ∧ s.pad.2 ≤ p.2 * s.stride.2 + t.2
  · -- the only candidate is the pixel under the tap
    set q₀ : ℕ × ℕ := (p.1 * s.stride.1 + t.1 - s.pad.1, p.2 * s.stride.2 + t.2 - s.pad.2) with hq₀
    have hmeets : s.Meets p t q₀ := by
      unfold Sweep.Meets
      simp only [hq₀]
      omega
    have hone : ∀ q ∈ cells (H, W), q ≠ q₀ → (if s.Meets p t q then x.at4 n c q.1 q.2 else 0) = 0 := by
      intro q _ hne
      refine if_neg fun hm => hne ?_
      unfold Sweep.Meets at hm
      exact Prod.ext (by simp only [hq₀]; omega) (by simp only [hq₀]; omega)
    have hout : q₀ ∉ cells (H, W) → (if s.Meets p t q₀ then x.at4 n c q₀.1 q₀.2 else 0) = 0 := by
      intro hq
      rw [if_pos hmeets]
      refine at4_of_not hx fun hin => hq ?_
      exact mem_cells.mpr ⟨hin.2.2.1, hin.2.2.2⟩
    rw [sum_eq_single q₀ hone hout, if_pos hmeets]
    unfold padded
    rw [if_pos h]
  · unfold padded
    rw [if_neg h, sum_eq_zero]
    intro q _
    refine if_neg fun hm => h ?_
    unfold Sweep.Meets at hm
    omega

/-- The window found from a pixel and a tap is the window in which they meet. -/
theorem windowAt_eq_sum (hs : 0 < s.stride.1 ∧ 0 < s.stride.2) {grid : ℕ × ℕ} {f : ℕ → ℕ → R}
    (hf : ∀ p, p ∉ cells grid → f p.1 p.2 = 0) (t q : ℕ × ℕ) :
    (match windowAt? s.stride.1 (q.1 + s.pad.1) t.1, windowAt? s.stride.2 (q.2 + s.pad.2) t.2 with
      | some i, some j => f i j
      | _, _ => 0) = ∑ p ∈ cells grid, if s.Meets p t q then f p.1 p.2 else 0 := by
  split
  · rename_i i j h1 h2
    rw [windowAt?_eq_some_iff hs.1] at h1
    rw [windowAt?_eq_some_iff hs.2] at h2
    have hone : ∀ p ∈ cells grid, p ≠ (i, j) → (if s.Meets p t q then f p.1 p.2 else 0) = 0 := by
      intro p _ hne
      refine if_neg fun hm => hne ?_
      obtain ⟨hm1, hm2⟩ := hm
      have e1 : p.1 * s.stride.1 = i * s.stride.1 := by omega
      have e2 : p.2 * s.stride.2 = j * s.stride.2 := by omega
      exact Prod.ext (Nat.eq_of_mul_eq_mul_right hs.1 e1) (Nat.eq_of_mul_eq_mul_right hs.2 e2)
    have hout : (i, j) ∉ cells grid → (if s.Meets (i, j) t q then f i j else 0) = 0 := by
      intro hp
      rw [hf (i, j) hp, ite_self]
    rw [sum_eq_single (i, j) hone hout, if_pos ⟨h1, h2⟩]
  · rename_i hno
    refine (sum_eq_zero fun p _ => if_neg fun hm => ?_).symm
    exact hno p.1 p.2 ((windowAt?_eq_some_iff hs.1).mpr hm.1) ((windowAt?_eq_some_iff hs.2).mpr hm.2)

theorem sum_padded_mul {x : Tensor R} {N C H W : ℕ} (hx : x.shape = [N, C, H, W]) (n c : ℕ)
    (grid t : ℕ × ℕ) (f : ℕ × ℕ → R) :
    ∑ p ∈ cells grid, x.padded s.pad n c (p.1 * s.stride.1 + t.1) (p.2 * s.stride.2 + t.2) * f p =
      ∑ q ∈ cells (H, W), x.at4 n c q.1 q.2 * ∑ p ∈ cells grid, if s.Meets p t q then f p else 0 := by
  simp only [padded_eq_sum hx, sum_mul, mul_sum]
  rw [sum_comm]
  refine sum_congr rfl fun q _ => sum_congr rfl fun p _ => ?_
  split_ifs
  · rfl
  · rw [zero_mul, mul_zero]

end Relation

/-! ### The adjoints -/

/-- The extents of a batch and a bank of kernels that can be correlated. -/
theorem Correlates.extents {s : Sweep} {G : ℕ} {x w : List ℕ} (h : Correlates s G x w) :
    ∃ N B P H W a b, x = [N, G * B, H, W] ∧ w = [G * P, B, a, b] ∧ 0 < G ∧
      (0 < s.stride.1 ∧ 0 < s.stride.2) := by
  unfold Correlates at h
  split at h
  · rename_i n c h' v o block a b
    obtain ⟨hG, hs1, hs2, -, -, hc, -, ho, -⟩ := h
    refine ⟨n, block, o / G, h', v, a, b, ?_, ?_, hG, hs1, hs2⟩
    · rw [hc, Nat.mul_comm]
    · rw [Nat.mul_div_cancel' (Nat.dvd_of_mod_eq_zero ho)]
  · exact h.elim

/-- Two inner sums come before two outer ones. -/
theorem sum_comm_pairs {M ι κ μ ν : Type} [AddCommMonoid M] (a : Finset ι) (b : Finset κ)
    (c : Finset μ) (d : Finset ν) (f : ι → κ → μ → ν → M) :
    ∑ i ∈ a, ∑ j ∈ b, ∑ k ∈ c, ∑ l ∈ d, f i j k l = ∑ k ∈ c, ∑ l ∈ d, ∑ i ∈ a, ∑ j ∈ b, f i j k l := by
  calc ∑ i ∈ a, ∑ j ∈ b, ∑ k ∈ c, ∑ l ∈ d, f i j k l
      = ∑ i ∈ a, ∑ k ∈ c, ∑ l ∈ d, ∑ j ∈ b, f i j k l := by
        refine sum_congr rfl fun i _ => ?_
        rw [sum_comm]
        exact sum_congr rfl fun k _ => sum_comm
    _ = ∑ k ∈ c, ∑ l ∈ d, ∑ i ∈ a, ∑ j ∈ b, f i j k l := by
        rw [sum_comm]
        exact sum_congr rfl fun k _ => sum_comm

theorem shape_cotangent {α : Type} {s : Sweep} {x w g : Tensor α} {N C O B H W a b : ℕ}
    (hg : g.shape = correlationShape s x.shape w.shape) (hx : x.shape = [N, C, H, W])
    (hw : w.shape = [O, B, a, b]) :
    g.shape = [N, O, (s.grid (a, b) (H, W)).1, (s.grid (a, b) (H, W)).2] := by
  rw [hg, hx, hw]
  rfl

section Adjoint

variable {R : Type} [CommSemiring R] {s : Sweep}

theorem shape_correlate (s : Sweep) (groups : ℕ) (x w : Tensor R) :
    (correlate s groups x w).shape = correlationShape s x.shape w.shape := rfl

theorem shape_correlateInput (s : Sweep) (groups : ℕ) {x : Tensor R} {N C H W : ℕ}
    (hx : x.shape = [N, C, H, W]) (w g : Tensor R) :
    (correlateInput s groups x.shape w g).shape = x.shape := by
  rw [hx]
  rfl

theorem shape_correlateKernel (s : Sweep) (groups : ℕ) (x g : Tensor R) {w : Tensor R} {O B a b : ℕ}
    (hw : w.shape = [O, B, a, b]) : (correlateKernel s groups w.shape x g).shape = w.shape := by
  rw [hw]
  rfl

variable {x w g : Tensor R} {groups N O H W a b : ℕ}

/-- An entry of a correlation is a sum over the input channels of its group and the taps. -/
theorem at4_correlate {C B n o : ℕ} (hx : x.shape = [N, C, H, W]) (hw : w.shape = [O, B, a, b])
    (hn : n < N) (ho : o < O) {p : ℕ × ℕ} (hp : p ∈ cells (s.grid (a, b) (H, W))) :
    (correlate s groups x w).at4 n o p.1 p.2 = ∑ c ∈ range B, ∑ t ∈ cells (a, b),
      x.padded s.pad n (o / (O / groups) * B + c) (p.1 * s.stride.1 + t.1) (p.2 * s.stride.2 + t.2) *
        w.at4 o c t.1 t.2 := by
  obtain ⟨x0, -, -, -⟩ := extents hx
  obtain ⟨w0, w1, -, -⟩ := extents hw
  rw [mem_cells] at hp
  unfold correlate
  rw [x0, w0, w1, area_batch hx, area_batch hw, at4_ofImages hn ho hp.1 hp.2, sumTo_eq_sum]
  exact sum_congr rfl fun c _ => sumTaps_eq_sum _ _

/-- An entry of the gradient in the kernels is a sum over the samples and the windows. -/
theorem at4_correlateKernel {C B o c : ℕ} (hx : x.shape = [N, C, H, W]) (hw : w.shape = [O, B, a, b])
    (hg : g.shape = correlationShape s x.shape w.shape) (ho : o < O) (hc : c < B) {t : ℕ × ℕ}
    (ht : t ∈ cells (a, b)) : (correlateKernel s groups w.shape x g).at4 o c t.1 t.2 =
      ∑ n ∈ range N, ∑ p ∈ cells (s.grid (a, b) (H, W)),
        x.padded s.pad n (o / (O / groups) * B + c) (p.1 * s.stride.1 + t.1) (p.2 * s.stride.2 + t.2) *
          g.at4 n o p.1 p.2 := by
  obtain ⟨x0, -, -, -⟩ := extents hx
  rw [mem_cells] at ht
  unfold correlateKernel
  rw [hw, x0, area_batch (shape_cotangent hg hx hw)]
  simp only [List.getD_cons_zero, List.getD_cons_succ]
  rw [at4_ofImages ho hc ht.1 ht.2, sumTo_eq_sum]
  exact sum_congr rfl fun n _ => sumTaps_eq_sum _ _

/-- An entry of the gradient in the batch is a sum over the output channels of its group, the taps and
the windows that meet the pixel in the tap. -/
theorem at4_correlateInput {G P B n q c : ℕ} (hx : x.shape = [N, G * B, H, W])
    (hw : w.shape = [G * P, B, a, b]) (hs : 0 < s.stride.1 ∧ 0 < s.stride.2)
    (hg : g.shape = correlationShape s x.shape w.shape) (hn : n < N) (hq : q < G) (hc : c < B)
    {u : ℕ × ℕ} (hu : u ∈ cells (H, W)) :
    (correlateInput s G x.shape w g).at4 n (q * B + c) u.1 u.2 = ∑ o ∈ range P, ∑ t ∈ cells (a, b),
      ∑ p ∈ cells (s.grid (a, b) (H, W)), if s.Meets p t u then
        g.at4 n (q * P + o) p.1 p.2 * w.at4 (q * P + o) c t.1 t.2 else 0 := by
  obtain ⟨w0, w1, -, -⟩ := extents hw
  rw [mem_cells] at hu
  unfold correlateInput
  rw [hx, w0, w1, area_batch hw, Nat.mul_div_cancel_left P (Nat.zero_lt_of_lt hq)]
  simp only [List.getD_cons_zero, List.getD_cons_succ]
  rw [at4_ofImages hn (block_lt hq hc) hu.1 hu.2, div_block hc, mod_block hc, sumTo_eq_sum]
  refine sum_congr rfl fun o _ => ?_
  rw [sumTaps_eq_sum]
  refine sum_congr rfl fun t _ => ?_
  refine windowAt_eq_sum (f := fun i j => g.at4 n (q * P + o) i j * w.at4 (q * P + o) c t.1 t.2) hs
    (fun p hp => ?_) t u
  rw [at4_of_not (shape_cotangent hg hx hw) fun h => hp (mem_cells.mpr h.2.2), zero_mul]

/-- The gradient in the kernels is the adjoint of the correlation in the kernels. -/
theorem inner_correlate_kernel {C B : ℕ} (hx : x.shape = [N, C, H, W]) (hw : w.shape = [O, B, a, b])
    (hg : g.shape = correlationShape s x.shape w.shape) : (correlate s groups x w).inner g =
      w.inner (correlateKernel s groups w.shape x g) := by
  have hg' := shape_cotangent hg hx hw
  have hy : (correlate s groups x w).shape = _ := shape_cotangent (shape_correlate s groups x w) hx hw
  have hk : (correlateKernel s groups w.shape x g).shape = [O, B, a, b] :=
    (shape_correlateKernel s groups x g hw).trans hw
  rw [inner_eq_sum hy hg', inner_eq_sum hw hk, sum_comm]
  refine sum_congr rfl fun o ho => ?_
  rw [mem_range] at ho
  have left : ∀ n ∈ range N, ∀ p ∈ cells (s.grid (a, b) (H, W)),
      (correlate s groups x w).at4 n o p.1 p.2 * g.at4 n o p.1 p.2 =
        ∑ c ∈ range B, ∑ t ∈ cells (a, b), w.at4 o c t.1 t.2 *
          (x.padded s.pad n (o / (O / groups) * B + c) (p.1 * s.stride.1 + t.1)
            (p.2 * s.stride.2 + t.2) * g.at4 n o p.1 p.2) := by
    intro n hn p hp
    rw [at4_correlate hx hw (mem_range.mp hn) ho hp, sum_mul]
    refine sum_congr rfl fun c _ => ?_
    rw [sum_mul]
    exact sum_congr rfl fun t _ => by ring
  have right : ∀ c ∈ range B, ∀ t ∈ cells (a, b),
      w.at4 o c t.1 t.2 * (correlateKernel s groups w.shape x g).at4 o c t.1 t.2 =
        ∑ n ∈ range N, ∑ p ∈ cells (s.grid (a, b) (H, W)), w.at4 o c t.1 t.2 *
          (x.padded s.pad n (o / (O / groups) * B + c) (p.1 * s.stride.1 + t.1)
            (p.2 * s.stride.2 + t.2) * g.at4 n o p.1 p.2) := by
    intro c hc t ht
    rw [at4_correlateKernel hx hw hg ho (mem_range.mp hc) ht, mul_sum]
    exact sum_congr rfl fun n _ => mul_sum _ _ _
  rw [sum_congr rfl fun n hn => sum_congr rfl fun p hp => left n hn p hp,
    sum_congr rfl fun c hc => sum_congr rfl fun t ht => right c hc t ht]
  exact sum_comm_pairs _ _ _ _ _

/-- The gradient in the batch is the adjoint of the correlation in the batch. -/
theorem inner_correlate_input {G P B : ℕ} (hx : x.shape = [N, G * B, H, W])
    (hw : w.shape = [G * P, B, a, b]) (hG : 0 < G) (hs : 0 < s.stride.1 ∧ 0 < s.stride.2)
    (hg : g.shape = correlationShape s x.shape w.shape) : (correlate s G x w).inner g =
      x.inner (correlateInput s G x.shape w g) := by
  set grid := s.grid (a, b) (H, W) with hgrid
  have hg' := shape_cotangent hg hx hw
  have hy : (correlate s G x w).shape = _ := shape_cotangent (shape_correlate s G x w) hx hw
  have hi : (correlateInput s G x.shape w g).shape = [N, G * B, H, W] :=
    (shape_correlateInput s G hx w g).trans hx
  rw [inner_eq_sum hy hg', inner_eq_sum hx hi]
  refine sum_congr rfl fun n hn => ?_
  rw [mem_range] at hn
  rw [sum_rows, sum_rows]
  refine sum_congr rfl fun q hq => ?_
  rw [mem_range] at hq
  -- inside one sample and one group: output channels, windows, input channels, taps
  have left : ∀ o ∈ range P, ∀ p ∈ cells grid,
      (correlate s G x w).at4 n (q * P + o) p.1 p.2 * g.at4 n (q * P + o) p.1 p.2 =
        ∑ c ∈ range B, ∑ t ∈ cells (a, b),
          x.padded s.pad n (q * B + c) (p.1 * s.stride.1 + t.1) (p.2 * s.stride.2 + t.2) *
            (g.at4 n (q * P + o) p.1 p.2 * w.at4 (q * P + o) c t.1 t.2) := by
    intro o ho p hp
    rw [mem_range] at ho
    rw [at4_correlate hx hw hn (block_lt hq ho) hp, Nat.mul_div_cancel_left P hG, div_block ho, sum_mul]
    refine sum_congr rfl fun c _ => ?_
    rw [sum_mul]
    exact sum_congr rfl fun t _ => by ring
  have right : ∀ c ∈ range B, ∀ u ∈ cells (H, W),
      x.at4 n (q * B + c) u.1 u.2 * (correlateInput s G x.shape w g).at4 n (q * B + c) u.1 u.2 =
        ∑ o ∈ range P, ∑ t ∈ cells (a, b), x.at4 n (q * B + c) u.1 u.2 *
          ∑ p ∈ cells grid, if s.Meets p t u then
            g.at4 n (q * P + o) p.1 p.2 * w.at4 (q * P + o) c t.1 t.2 else 0 := by
    intro c hc u hu
    rw [at4_correlateInput hx hw hs hg hn hq (mem_range.mp hc) hu, mul_sum]
    exact sum_congr rfl fun o _ => mul_sum _ _ _
  rw [sum_congr rfl fun o ho => sum_congr rfl fun p hp => left o ho p hp,
    sum_congr rfl fun c hc => sum_congr rfl fun u hu => right c hc u hu, sum_comm_pairs]
  refine sum_congr rfl fun c _ => ?_
  have taps : ∀ t ∈ cells (a, b), ∀ o ∈ range P, ∑ p ∈ cells grid,
      x.padded s.pad n (q * B + c) (p.1 * s.stride.1 + t.1) (p.2 * s.stride.2 + t.2) *
        (g.at4 n (q * P + o) p.1 p.2 * w.at4 (q * P + o) c t.1 t.2) =
      ∑ u ∈ cells (H, W), x.at4 n (q * B + c) u.1 u.2 * ∑ p ∈ cells grid, if s.Meets p t u then
        g.at4 n (q * P + o) p.1 p.2 * w.at4 (q * P + o) c t.1 t.2 else 0 :=
    fun t _ o _ => sum_padded_mul hx n (q * B + c) grid t _
  rw [sum_congr rfl fun t ht => sum_congr rfl fun o ho => taps t ht o ho]
  rw [sum_comm]
  rw [sum_congr rfl fun o _ => sum_comm]
  rw [sum_comm]

/-- Some window along an axis has a tap on a row or column. -/
def Reached (count kernel stride pad r : ℕ) : Prop :=
  ∃ i < count, ∃ a < kernel, i * stride + a = r + pad

/-- The gradient in the batch is zero where no window reaches. -/
theorem at4_correlateInput_of_unreached {C B : ℕ} (hx : x.shape = [N, C, H, W])
    (hw : w.shape = [O, B, a, b]) (hs : 0 < s.stride.1 ∧ 0 < s.stride.2)
    (hg : g.shape = correlationShape s x.shape w.shape) {n c u v : ℕ}
    (hout : ¬Reached (s.grid (a, b) (H, W)).1 a s.stride.1 s.pad.1 u ∨
      ¬Reached (s.grid (a, b) (H, W)).2 b s.stride.2 s.pad.2 v) :
    (correlateInput s groups x.shape w g).at4 n c u v = 0 := by
  have hshape : (correlateInput s groups x.shape w g).shape = [N, C, H, W] := by
    rw [hx]
    rfl
  have hg' := shape_cotangent hg hx hw
  by_cases hin : n < N ∧ c < C ∧ u < H ∧ v < W
  · obtain ⟨hn, hc, hu, hv⟩ := hin
    unfold correlateInput
    rw [hx, area_batch hw]
    simp only [List.getD_cons_zero, List.getD_cons_succ]
    rw [at4_ofImages hn hc hu hv, sumTo_eq_sum]
    refine sum_eq_zero fun o _ => ?_
    rw [sumTaps_eq_sum]
    refine sum_eq_zero fun t ht => ?_
    rw [mem_cells] at ht
    split
    · rename_i i j hi hj
      rw [windowAt?_eq_some_iff hs.1] at hi
      rw [windowAt?_eq_some_iff hs.2] at hj
      -- the window of the tap lies outside the grid along the unreached axis
      have hgrid : ¬(i < (s.grid (a, b) (H, W)).1 ∧ j < (s.grid (a, b) (H, W)).2) := fun h =>
        hout.elim (fun h' => h' ⟨i, h.1, t.1, ht.1, hi⟩) fun h' => h' ⟨j, h.2, t.2, ht.2, hj⟩
      rw [at4_of_not hg' fun h => hgrid h.2.2, zero_mul]
    · rfl
  · exact at4_of_not hshape hin

end Adjoint
end SteeredConv
