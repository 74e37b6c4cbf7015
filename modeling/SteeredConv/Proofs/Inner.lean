/-
# Inner products of tensors

Sums over positions are sums over finite sets, a batch is summed sample by sample,
channel by channel and over its cells, and the inner product is bilinear. A gradient
is exact when it represents a linear change under the inner product, so every adjoint
of the library is stated with it.

Key definitions: `cells`, `Tensor.fourfold`.
Key theorems: `Tensor.inner_eq_sum`, `Tensor.inner_add`, `Tensor.inner_sub`, `Tensor.inner_fourfold`.
-/
import Mathlib
import SteeredConv.Correlation

namespace SteeredConv

open Finset

/-! ### Sums over positions -/

section Sums

variable {M : Type} [AddCommMonoid M]

theorem sumTo_eq_sum (n : ℕ) (f : ℕ → M) : sumTo n f = ∑ i ∈ range n, f i := by
  induction n with
  | zero => rfl
  | succ n ih => rw [sumTo_succ, sum_range_succ, ih]

/-- The rows and columns of an image, a kernel or a grid of windows. -/
def cells (k : ℕ × ℕ) : Finset (ℕ × ℕ) := range k.1 ×ˢ range k.2

theorem mem_cells {k p : ℕ × ℕ} : p ∈ cells k ↔ p.1 < k.1 ∧ p.2 < k.2 := by
  simp [cells]

theorem div_block {cols b : ℕ} (hb : b < cols) (a : ℕ) : (a * cols + b) / cols = a := by
  rw [Nat.add_comm, Nat.add_mul_div_right _ _ (by omega), Nat.div_eq_of_lt hb, Nat.zero_add]

theorem mod_block {cols b : ℕ} (hb : b < cols) (a : ℕ) : (a * cols + b) % cols = b := by
  rw [Nat.add_comm, Nat.add_mul_mod_self_right, Nat.mod_eq_of_lt hb]

theorem block_lt {rows cols a b : ℕ} (ha : a < rows) (hb : b < cols) :
    a * cols + b < rows * cols := by
  have := Nat.mul_le_mul_right cols (Nat.succ_le_of_lt ha)
  rw [Nat.succ_mul] at this
  omega

theorem sum_rows (rows cols : ℕ) (f : ℕ → M) :
    ∑ i ∈ range (rows * cols), f i = ∑ a ∈ range rows, ∑ b ∈ range cols, f (a * cols + b) := by
  induction rows with
  | zero => simp
  | succ a ih =>
    have h : (a + 1) * cols = a * cols + cols := by ring
    rw [sum_range_succ, h, sum_range_add, ih]

theorem sum_positions (N C H W : ℕ) (f : ℕ → M) : ∑ i ∈ range (N * C * H * W), f i =
    ∑ n ∈ range N, ∑ c ∈ range C, ∑ p ∈ cells (H, W), f (((n * C + c) * H + p.1) * W + p.2) := by
  rw [sum_rows, sum_rows, sum_rows]
  simp only [cells, sum_product]

end Sums

theorem sumTaps_eq_sum {R : Type} [Semiring R] (k : ℕ × ℕ) (f : ℕ → ℕ → R) :
    sumTaps k f = ∑ p ∈ cells k, f p.1 p.2 := by
  unfold sumTaps cells
  simp only [sumTo_eq_sum, sum_product]

namespace Tensor

/-! ### Entries of batches -/

section Entries

variable {α : Type}

theorem extents {t : Tensor α} {n c h w : ℕ} (ht : t.shape = [n, c, h, w]) :
    t.extent 0 = n ∧ t.extent 1 = c ∧ t.extent 2 = h ∧ t.extent 3 = w := by
  simp [extent, ht]

theorem size_batch {t : Tensor α} {n c h w : ℕ} (ht : t.shape = [n, c, h, w]) :
    t.size = n * c * h * w := by
  simp [size, ht, Nat.mul_assoc]

theorem area_batch {t : Tensor α} {n c h w : ℕ} (ht : t.shape = [n, c, h, w]) : t.area = (h, w) := by
  simp [area, extent, ht]

theorem toImages?_batch {t : Tensor α} {N C H W : ℕ} (ht : t.shape = [N, C, H, W]) :
    t.toImages? = some t := by
  obtain ⟨shape, xs, hxs⟩ := t
  dsimp only at ht
  subst ht
  simp [toImages?, rank, reshape?]

variable [Zero α]

theorem flat_of_le {t : Tensor α} {i : ℕ} (h : t.size ≤ i) : t.flat i = 0 := by
  have : ¬i < t.entries.size := by
    rw [t.size_entries]
    exact Nat.not_lt.mpr h
  simp [flat, Array.getD, this]

theorem flat_zeros (shape : List ℕ) (i : ℕ) : (fill shape (0 : α)).flat i = 0 := by
  by_cases hi : i < volume shape
  · exact flat_ofFlat hi
  · exact flat_of_le (Nat.le_of_not_lt hi)

theorem at4_eq_flat {t : Tensor α} {N C H W : ℕ} (ht : t.shape = [N, C, H, W]) {n c h w : ℕ}
    (hn : n < N) (hc : c < C) (hh : h < H) (hw : w < W) :
    t.at4 n c h w = t.flat (((n * C + c) * H + h) * W + w) := by
  obtain ⟨e0, e1, e2, e3⟩ := extents ht
  unfold at4
  rw [e0, e1, e2, e3, if_pos ⟨hn, hc, hh, hw⟩]

theorem at4_of_not {t : Tensor α} {N C H W : ℕ} (ht : t.shape = [N, C, H, W]) {n c h w : ℕ}
    (h' : ¬(n < N ∧ c < C ∧ h < H ∧ w < W)) : t.at4 n c h w = 0 := by
  obtain ⟨e0, e1, e2, e3⟩ := extents ht
  unfold at4
  rw [e0, e1, e2, e3, if_neg h']

theorem coordinates_lt {N C H W i : ℕ} (hi : i < volume [N, C, H, W]) :
    i / W / H / C < N ∧ i / W / H % C < C ∧ i / W % H < H ∧ i % W < W := by
  have hi' : i < N * C * H * W := by simpa [Nat.mul_assoc] using hi
  have hpos : 0 < N * C * H * W := by omega
  have hW : 0 < W := Nat.pos_of_mul_pos_left hpos
  have hH : 0 < H := Nat.pos_of_mul_pos_left (Nat.pos_of_mul_pos_right hpos)
  have hC : 0 < C := Nat.pos_of_mul_pos_left (Nat.pos_of_mul_pos_right (Nat.pos_of_mul_pos_right hpos))
  refine ⟨?_, Nat.mod_lt _ hC, Nat.mod_lt _ hH, Nat.mod_lt _ hW⟩
  rw [Nat.div_lt_iff_lt_mul hC, Nat.div_lt_iff_lt_mul hH, Nat.div_lt_iff_lt_mul hW]
  exact hi'

theorem ofImages_congr {N C H W : ℕ} {f g : ℕ → ℕ → ℕ → ℕ → α}
    (h : ∀ n < N, ∀ c < C, ∀ i < H, ∀ j < W, f n c i j = g n c i j) :
    ofImages N C H W f = ofImages N C H W g := by
  refine ext_flat rfl fun i hi => ?_
  have hi' : i < volume [N, C, H, W] := hi
  obtain ⟨h0, h1, h2, h3⟩ := coordinates_lt hi'
  unfold ofImages
  rw [flat_ofFlat hi', flat_ofFlat hi']
  exact h _ h0 _ h1 _ h2 _ h3

theorem eq_ofImages {t : Tensor α} {N C H W : ℕ} (ht : t.shape = [N, C, H, W]) :
    t = ofImages N C H W t.at4 := by
  refine ext_flat ht fun i hi => ?_
  have hi' : i < volume [N, C, H, W] := by rw [← ht]; exact hi
  obtain ⟨h0, h1, h2, h3⟩ := coordinates_lt hi'
  unfold ofImages
  rw [flat_ofFlat hi', at4_eq_flat ht h0 h1 h2 h3]
  congr 1
  rw [Nat.div_add_mod', Nat.div_add_mod', Nat.div_add_mod']

/-- Batches of one shape with the same entries are equal. -/
theorem ext_at4 {s t : Tensor α} {N C H W : ℕ} (hs : s.shape = [N, C, H, W])
    (ht : t.shape = [N, C, H, W])
    (h : ∀ n < N, ∀ c < C, ∀ i < H, ∀ j < W, s.at4 n c i j = t.at4 n c i j) : s = t := by
  rw [eq_ofImages hs, eq_ofImages ht]
  exact ofImages_congr h

theorem position_lt {N C H W n c h w : ℕ} (hn : n < N) (hc : c < C) (hh : h < H) (hw : w < W) :
    ((n * C + c) * H + h) * W + w < volume [N, C, H, W] := by
  have := block_lt (block_lt (block_lt hn hc) hh) hw
  simpa [Nat.mul_assoc] using this

variable {β γ : Type} [Zero β] [Zero γ]

theorem at4_zipWith {f : α → β → γ} {s : Tensor α} {t : Tensor β} {N C H W : ℕ}
    (hs : s.shape = [N, C, H, W]) (ht : t.shape = [N, C, H, W]) {n c h w : ℕ}
    (hn : n < N) (hc : c < C) (hh : h < H) (hw : w < W) :
    (zipWith f s t).at4 n c h w = f (s.at4 n c h w) (t.at4 n c h w) := by
  have hz : (zipWith f s t).shape = [N, C, H, W] := hs
  have hlt : ((n * C + c) * H + h) * W + w < s.size := by
    rw [size, hs]
    exact position_lt hn hc hh hw
  rw [at4_eq_flat hz hn hc hh hw, flat_zipWith hlt, at4_eq_flat hs hn hc hh hw,
    at4_eq_flat ht hn hc hh hw]

end Entries

/-! ### The inner product -/

section Inner

variable {R : Type} [CommSemiring R]

theorem inner_eq_sum_flat (s t : Tensor R) : s.inner t = ∑ i ∈ range s.size, s.flat i * t.flat i :=
  sumTo_eq_sum _ _

theorem inner_comm {s t : Tensor R} (h : s.shape = t.shape) : s.inner t = t.inner s := by
  have hsize : s.size = t.size := by rw [size, size, h]
  rw [inner_eq_sum_flat, inner_eq_sum_flat, hsize]
  exact sum_congr rfl fun i _ => mul_comm _ _

theorem inner_zeros (t : Tensor R) (shape : List ℕ) : t.inner (fill shape 0) = 0 := by
  rw [inner_eq_sum_flat]
  exact sum_eq_zero fun i _ => by rw [flat_zeros, mul_zero]

/-- The inner product of two batches, sample by sample and channel by channel. -/
theorem inner_eq_sum {s t : Tensor R} {N C H W : ℕ} (hs : s.shape = [N, C, H, W])
    (ht : t.shape = [N, C, H, W]) : s.inner t = ∑ n ∈ range N, ∑ c ∈ range C, ∑ p ∈ cells (H, W),
      s.at4 n c p.1 p.2 * t.at4 n c p.1 p.2 := by
  rw [inner_eq_sum_flat, size_batch hs, sum_positions]
  refine sum_congr rfl fun n hn => sum_congr rfl fun c hc => sum_congr rfl fun p hp => ?_
  rw [mem_range] at hn hc
  rw [mem_cells] at hp
  rw [at4_eq_flat hs hn hc hp.1 hp.2, at4_eq_flat ht hn hc hp.1 hp.2]

theorem sum_eq_sum {t : Tensor R} {N C H W : ℕ} (ht : t.shape = [N, C, H, W]) :
    t.sum = ∑ n ∈ range N, ∑ c ∈ range C, ∑ p ∈ cells (H, W), t.at4 n c p.1 p.2 := by
  unfold sum
  rw [sumTo_eq_sum, size_batch ht, sum_positions]
  refine sum_congr rfl fun n hn => sum_congr rfl fun c hc => sum_congr rfl fun p hp => ?_
  rw [mem_range] at hn hc
  rw [mem_cells] at hp
  exact (at4_eq_flat ht hn hc hp.1 hp.2).symm

theorem inner_add {s t : Tensor R} (h : s.shape = t.shape) (u : Tensor R) :
    (zipWith (· + ·) s t).inner u = s.inner u + t.inner u := by
  have hsize : t.size = s.size := by rw [size, size, h]
  rw [inner_eq_sum_flat, inner_eq_sum_flat s, inner_eq_sum_flat t, hsize, ← sum_add_distrib]
  refine sum_congr rfl fun i hi => ?_
  rw [flat_zipWith (mem_range.mp hi), add_mul]

/-- The sum of four tensors. -/
def fourfold (f : ℕ → Tensor R) : Tensor R :=
  zipWith (· + ·) (zipWith (· + ·) (zipWith (· + ·) (f 0) (f 1)) (f 2)) (f 3)

theorem fourfold_congr {f f' : ℕ → Tensor R} (h : ∀ r < 4, f r = f' r) : fourfold f = fourfold f' := by
  unfold fourfold
  rw [h 0 (by decide), h 1 (by decide), h 2 (by decide), h 3 (by decide)]

theorem flat_fourfold {f : ℕ → Tensor R} {i : ℕ} (h : i < (f 0).size) : (fourfold f).flat i =
    (f 0).flat i + (f 1).flat i + (f 2).flat i + (f 3).flat i := by
  unfold fourfold
  rw [flat_zipWith (by exact h), flat_zipWith (by exact h), flat_zipWith h]

theorem at4_fourfold {f : ℕ → Tensor R} {N C H W : ℕ} (hf : ∀ r < 4, (f r).shape = [N, C, H, W])
    {n c h w : ℕ} (hn : n < N) (hc : c < C) (hh : h < H) (hw : w < W) : (fourfold f).at4 n c h w =
      (f 0).at4 n c h w + (f 1).at4 n c h w + (f 2).at4 n c h w + (f 3).at4 n c h w := by
  have h0 := hf 0 (by omega)
  unfold fourfold
  rw [at4_zipWith (by exact h0) (hf 3 (by omega)) hn hc hh hw,
    at4_zipWith (by exact h0) (hf 2 (by omega)) hn hc hh hw, at4_zipWith h0 (hf 1 (by omega)) hn hc hh hw]

theorem inner_fourfold {f : ℕ → Tensor R} {shape : List ℕ} (h : ∀ r < 4, (f r).shape = shape)
    (u : Tensor R) : (fourfold f).inner u = ∑ r ∈ range 4, (f r).inner u := by
  have h0 := h 0 (by omega)
  have h1 := h 1 (by omega)
  have h2 := h 2 (by omega)
  have h3 := h 3 (by omega)
  unfold fourfold
  rw [inner_add (by exact h0.trans h3.symm), inner_add (by exact h0.trans h2.symm),
    inner_add (h0.trans h1.symm)]
  simp [sum_range_succ]

end Inner

theorem inner_sub {R : Type} [CommRing R] {s t : Tensor R} (h : s.shape = t.shape) (u : Tensor R) :
    (zipWith (· - ·) s t).inner u = s.inner u - t.inner u := by
  have hsize : t.size = s.size := by rw [size, size, h]
  rw [inner_eq_sum_flat, inner_eq_sum_flat s, inner_eq_sum_flat t, hsize, ← sum_sub_distrib]
  refine sum_congr rfl fun i hi => ?_
  rw [flat_zipWith (mem_range.mp hi), sub_mul]

end Tensor
end SteeredConv
