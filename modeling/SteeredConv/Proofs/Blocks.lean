/-
# Groups and samples apart

The oriented convolution of several groups is the convolution of one group, done for every block of channels with
its own block of kernels; the convolution of a batch is the convolution of single images, done for every sample
with its own map. Gradients in the batch and in the kernels are put together in the same way, block by block, and
the gradients in what all samples share are added over the samples.

Key definitions: `Tensor.picked`, `Tensor.sampleBlock`, `Tensor.channelBlock`, `joinSamples`, `joinChannels`,
`sumSamples`, `GroupsApart`, `SamplesApart`.
Key theorems: `correlate_channelBlock`, `correlate_sampleBlock`, `steered_channelBlock`, `steered_sampleBlock`,
`batchAdjoint_channelBlock`, `batchAdjoint_sampleBlock`, `kernelAdjoint_channelBlock`,
`kernelAdjoint_eq_sumSamples`, `groups_and_samples_apart`.
-/
import SteeredConv.Proofs.Responses

namespace SteeredConv

open Finset Tensor

/-! ### Blocks of samples and of channels -/

section Blocks

variable {α : Type} [Zero α] {t : Tensor α} {ν κ : ℕ → ℕ} {size count q N C H W N' C' : ℕ}

/-- Some samples and channels of a batch, or some output and input channels of kernels. -/
def Tensor.picked (N C : ℕ) (ν κ : ℕ → ℕ) (t : Tensor α) : Tensor α :=
  ofImages N C (t.extent 2) (t.extent 3) fun n c i j => t.at4 (ν n) (κ c) i j

/-- The `q`-th of the blocks of `size` samples of a batch, or of `size` output channels of kernels. -/
def Tensor.sampleBlock (size q : ℕ) (t : Tensor α) : Tensor α := t.picked size (t.extent 1) (q * size + ·) id

def Tensor.channelBlock (size q : ℕ) (t : Tensor α) : Tensor α := t.picked (t.extent 0) size id (q * size + ·)

/-- Some of several numbers. -/
def Tensor.pickedFlat (size : ℕ) (κ : ℕ → ℕ) (t : Tensor α) : Tensor α := ofFlat [size] fun i => t.flat (κ i)

def Tensor.flatBlock (size q : ℕ) (t : Tensor α) : Tensor α := t.pickedFlat size (q * size + ·)

/-- Batches of `size` samples one behind the other. -/
def joinSamples (count size C H W : ℕ) (f : ℕ → Tensor α) : Tensor α :=
  ofImages (count * size) C H W fun n c i j => (f (n / size)).at4 (n % size) c i j

/-- Batches of `size` channels one behind the other. -/
def joinChannels (N count size H W : ℕ) (f : ℕ → Tensor α) : Tensor α :=
  ofImages N (count * size) H W fun n c i j => (f (c / size)).at4 n (c % size) i j

/-- What is picked is in the batch. -/
structure Picks (N C N' C' : ℕ) (ν κ : ℕ → ℕ) : Prop where
  samples : ∀ n < N', ν n < N
  channels : ∀ c < C', κ c < C

theorem picks_samples (C : ℕ) (h : ∀ n < size, q * size + n < N) : Picks N C size C (q * size + ·) id :=
  ⟨h, fun _ hc => hc⟩

theorem picks_channels (N : ℕ) (hq : q < count) : Picks N (count * size) N size id (q * size + ·) :=
  ⟨fun _ hn => hn, fun _ hc => block_lt hq hc⟩

theorem shape_picked (ht : t.shape = [N, C, H, W]) (N' C' : ℕ) (ν κ : ℕ → ℕ) :
    (t.picked N' C' ν κ).shape = [N', C', H, W] := by
  obtain ⟨-, -, t2, t3⟩ := extents ht
  unfold picked
  rw [t2, t3, shape_ofImages]

theorem at4_picked (t : Tensor α) {n c : ℕ} (hn : n < N) (hc : c < C) (i j : ℕ) :
    (t.picked N C ν κ).at4 n c i j = t.at4 (ν n) (κ c) i j := by
  unfold picked
  by_cases hin : i < t.extent 2 ∧ j < t.extent 3
  · exact at4_ofImages hn hc hin.1 hin.2
  · rw [at4_of_not (shape_ofImages _ _ _ _ _) fun h => hin h.2.2]
    exact (if_neg fun h => hin h.2.2).symm

theorem padded_picked (t : Tensor α) (pad : ℕ × ℕ) {n c : ℕ} (hn : n < N) (hc : c < C) (i j : ℕ) :
    (t.picked N C ν κ).padded pad n c i j = t.padded pad (ν n) (κ c) i j := by
  unfold padded
  rw [at4_picked t hn hc]

theorem picked_id (ht : t.shape = [N, C, H, W]) : t.picked N C id id = t :=
  ext_at4 (shape_picked ht _ _ _ _) ht fun _ hn _ hc i _ j _ => at4_picked t hn hc i j

theorem pickedFlat_id (ht : t.shape = [C]) : t.pickedFlat C id = t := by
  refine ext_flat ht.symm fun i hi => ?_
  exact flat_ofFlat (by exact hi)

theorem sampleBlock_eq (ht : t.shape = [N, C, H, W]) (size q : ℕ) :
    t.sampleBlock size q = t.picked size C (q * size + ·) id := by
  unfold sampleBlock
  rw [(extents ht).2.1]

theorem channelBlock_eq (ht : t.shape = [N, C, H, W]) (size q : ℕ) :
    t.channelBlock size q = t.picked N size id (q * size + ·) := by
  unfold channelBlock
  rw [(extents ht).1]

theorem shape_sampleBlock (ht : t.shape = [N, C, H, W]) (size q : ℕ) :
    (t.sampleBlock size q).shape = [size, C, H, W] := by
  rw [sampleBlock_eq ht, shape_picked ht]

theorem shape_channelBlock (ht : t.shape = [N, C, H, W]) (size q : ℕ) :
    (t.channelBlock size q).shape = [N, size, H, W] := by
  rw [channelBlock_eq ht, shape_picked ht]

theorem one_block_lt {n : ℕ} (h : n < N) : ∀ m < 1, n * 1 + m < N := fun m hm => by omega

theorem channel_lt {G P B o c : ℕ} (hG : 0 < G) (ho : o < G * P) (hc : c < B) : o / (G * P / G) * B + c < G * B := by
  rw [Nat.mul_div_cancel_left P hG]
  exact block_lt (Nat.div_lt_of_lt_mul (by rwa [Nat.mul_comm])) hc

theorem eq_joinSamples (ht : t.shape = [count * size, C, H, W]) {f : ℕ → Tensor α}
    (hf : ∀ q < count, f q = t.sampleBlock size q) : t = joinSamples count size C H W f := by
  unfold joinSamples
  refine ext_at4 ht (shape_ofImages _ _ _ _ _) fun n hn c hc i hi j hj => ?_
  have hsize : 0 < size := Nat.pos_of_mul_pos_left (Nat.zero_lt_of_lt hn)
  rw [at4_ofImages hn hc hi hj, hf _ (Nat.div_lt_of_lt_mul (by rwa [Nat.mul_comm])), sampleBlock_eq ht,
    at4_picked t (Nat.mod_lt _ hsize) hc, Nat.div_add_mod', id]

theorem eq_joinChannels (ht : t.shape = [N, count * size, H, W]) {f : ℕ → Tensor α}
    (hf : ∀ q < count, f q = t.channelBlock size q) : t = joinChannels N count size H W f := by
  unfold joinChannels
  refine ext_at4 ht (shape_ofImages _ _ _ _ _) fun n hn c hc i hi j hj => ?_
  have hsize : 0 < size := Nat.pos_of_mul_pos_left (Nat.zero_lt_of_lt hc)
  rw [at4_ofImages hn hc hi hj, hf _ (Nat.div_lt_of_lt_mul (by rwa [Nat.mul_comm])), channelBlock_eq ht,
    at4_picked t hn (Nat.mod_lt _ hsize), Nat.div_add_mod', id]

end Blocks

/-! ### What acts on every channel of every sample alike -/

section Alike

variable {R : Type} [CommSemiring R] {y w weights : Tensor R} {ν κ : ℕ → ℕ} {N C H W N' C' k : ℕ}

theorem fourfold_picked {f : ℕ → Tensor R} (hf : ∀ r < 4, (f r).shape = [N, C, H, W]) (h : Picks N C N' C' ν κ) :
    (fourfold f).picked N' C' ν κ = fourfold fun r => (f r).picked N' C' ν κ := by
  have hfour : (fourfold f).shape = [N, C, H, W] := hf 0 (by omega)
  have hpicked : ∀ r < 4, ((f r).picked N' C' ν κ).shape = [N', C', H, W] := fun r hr => shape_picked (hf r hr) _ _ _ _
  refine ext_at4 (shape_picked hfour _ _ _ _) (by exact hpicked 0 (by omega)) fun n hn c hc i hi j hj => ?_
  rw [at4_picked _ hn hc, at4_fourfold hf (h.samples n hn) (h.channels c hc) hi hj, at4_fourfold hpicked hn hc hi hj]
  simp only [at4_picked _ hn hc]

theorem weighted_picked (hy : y.shape = [N, C, H, W]) (h : Picks N C N' C' ν κ) {r : ℕ} (hr : r < 4) :
    weighted (y.picked N' C' ν κ) (weights.picked N' 4 ν id) r =
      (weighted y weights r).picked N' C' ν κ := by
  have hpicked := shape_picked hy N' C' ν κ
  refine ext_at4 (shape_weighted hpicked _ _) (shape_picked (shape_weighted hy _ _) _ _ _ _)
    fun n hn c hc i hi j hj => ?_
  rw [at4_weighted hpicked _ _ hn hc hi hj, at4_picked _ hn hc, at4_picked _ hn hr, at4_picked _ hn hc,
    at4_weighted hy _ _ (h.samples n hn) (h.channels c hc) hi hj, id]

theorem turned_picked (hw : w.shape = [N, C, k, k]) (h : Picks N C N' C' ν κ) (r : ℕ) :
    turned r (w.picked N' C' ν κ) = (turned r w).picked N' C' ν κ := by
  have hpicked := shape_picked hw N' C' ν κ
  refine ext_at4 (s := turned r (w.picked N' C' ν κ)) hpicked (shape_picked (t := turned r w) hw _ _ _ _)
    fun o ho c hc i hi j hj => ?_
  have hp : (i, j) ∈ cells (k, k) := mem_cells.mpr ⟨hi, hj⟩
  have hblock : (turned r (w.picked N' C' ν κ)).at4 o c i j = _ := at4_turned hpicked r ho hc hp
  have hwhole : (turned r w).at4 (ν o) (κ c) i j = _ := at4_turned hw r (h.samples o ho) (h.channels c hc) hp
  rw [hblock, at4_picked _ ho hc, at4_picked _ ho hc, hwhole]

theorem withBias_picked (hy : y.shape = [N, C, H, W]) (h : Picks N C N' C' ν κ) (bias : Option (Tensor R)) :
    withBias (y.picked N' C' ν κ) (bias.map (pickedFlat C' κ)) = (withBias y bias).picked N' C' ν κ := by
  have hpicked := shape_picked hy N' C' ν κ
  refine ext_at4 (shape_withBias hpicked _) (shape_picked (shape_withBias hy _) _ _ _ _) fun n hn c hc i hi j hj => ?_
  rw [at4_withBias hpicked _ hn hc hi hj, at4_picked _ hn hc, at4_picked _ hn hc,
    at4_withBias hy _ (h.samples n hn) (h.channels c hc) hi hj]
  congr 1
  cases bias with
  | none => rfl
  | some b => exact flat_ofFlat (by simpa using hc)

end Alike

/-! ### Correlations of blocks -/

section Correlations

variable {R : Type} [CommSemiring R] {s : Sweep} {x w g : Tensor R} {G B P N O C H W a b m q : ℕ}

/-- A group reads its own block of channels with its own block of kernels. -/
theorem correlate_channelBlock (hx : x.shape = [N, G * B, H, W]) (hw : w.shape = [G * P, B, a, b]) (hq : q < G) :
    correlate s 1 (x.channelBlock B q) (w.sampleBlock P q) =
      (correlate s G x w).picked N P id (q * P + ·) := by
  have hx' := shape_channelBlock hx B q
  have hw' := shape_sampleBlock hw P q
  have hy : (correlate s G x w).shape = _ := shape_cotangent (shape_correlate s G x w) hx hw
  have hy' : (correlate s 1 (x.channelBlock B q) (w.sampleBlock P q)).shape = _ :=
    shape_cotangent (shape_correlate s 1 _ _) hx' hw'
  refine ext_at4 hy' (shape_picked hy _ _ _ _) fun n hn o ho i hi j hj => ?_
  have hp : (i, j) ∈ cells (s.grid (a, b) (H, W)) := mem_cells.mpr ⟨hi, hj⟩
  have hblock : (correlate s 1 _ _).at4 n o i j = _ := at4_correlate hx' hw' hn ho hp
  have hwhole : (correlate s G x w).at4 n (q * P + o) i j = _ := at4_correlate hx hw hn (block_lt hq ho) hp
  rw [at4_picked _ hn ho, id, hblock, hwhole, Nat.div_one, Nat.div_eq_of_lt ho,
    Nat.mul_div_cancel_left P (Nat.zero_lt_of_lt hq), div_block ho]
  refine sum_congr rfl fun c hc => sum_congr rfl fun t _ => ?_
  rw [mem_range] at hc
  rw [Nat.zero_mul, Nat.zero_add, channelBlock_eq hx, padded_picked x _ hn hc, sampleBlock_eq hw,
    at4_picked w ho hc, id, id]

/-- A sample is read by itself. -/
theorem correlate_sampleBlock (hx : x.shape = [N, C, H, W]) (hw : w.shape = [O, B, a, b])
    (hG : ∀ o < O, ∀ c < B, o / (O / G) * B + c < C) (hm : ∀ n < m, q * m + n < N) :
    correlate s G (x.sampleBlock m q) w = (correlate s G x w).picked m O (q * m + ·) id := by
  have hx' := shape_sampleBlock hx m q
  have hy : (correlate s G x w).shape = _ := shape_cotangent (shape_correlate s G x w) hx hw
  have hy' : (correlate s G (x.sampleBlock m q) w).shape = _ := shape_cotangent (shape_correlate s G _ w) hx' hw
  refine ext_at4 hy' (shape_picked hy _ _ _ _) fun n hn o ho i hi j hj => ?_
  have hp : (i, j) ∈ cells (s.grid (a, b) (H, W)) := mem_cells.mpr ⟨hi, hj⟩
  have hblock : (correlate s G _ w).at4 n o i j = _ := at4_correlate hx' hw hn ho hp
  have hwhole : (correlate s G x w).at4 (q * m + n) o i j = _ := at4_correlate hx hw (hm n hn) ho hp
  rw [at4_picked _ hn ho, id, hblock, hwhole]
  refine sum_congr rfl fun c hc => sum_congr rfl fun t _ => ?_
  rw [sampleBlock_eq hx, padded_picked x _ hn (hG o ho c (mem_range.mp hc)), id]

/-- The gradient in a block of channels comes from the cotangent of the output channels of its group. -/
theorem correlateInput_channelBlock (hx : x.shape = [N, G * B, H, W]) (hw : w.shape = [G * P, B, a, b])
    (hs : 0 < s.stride.1 ∧ 0 < s.stride.2) (hg : g.shape = correlationShape s x.shape w.shape) (hq : q < G) :
    correlateInput s 1 (x.channelBlock B q).shape (w.sampleBlock P q) (g.channelBlock P q) =
      (correlateInput s G x.shape w g).picked N B id (q * B + ·) := by
  have hx' : (x.channelBlock B q).shape = [N, 1 * B, H, W] := by rw [Nat.one_mul, shape_channelBlock hx]
  have hw' : (w.sampleBlock P q).shape = [1 * P, B, a, b] := by rw [Nat.one_mul, shape_sampleBlock hw]
  have hgs := shape_cotangent hg hx hw
  have hg' : (g.channelBlock P q).shape = correlationShape s (x.channelBlock B q).shape (w.sampleBlock P q).shape := by
    rw [shape_channelBlock hgs, hx', hw', Nat.one_mul, Nat.one_mul]
    rfl
  have hwhole : (correlateInput s G x.shape w g).shape = [N, G * B, H, W] :=
    (shape_correlateInput s G hx w g).trans hx
  have hblock : (correlateInput s 1 (x.channelBlock B q).shape (w.sampleBlock P q) (g.channelBlock P q)).shape =
      [N, B, H, W] := (shape_correlateInput s 1 hx' _ _).trans (by rw [hx', Nat.one_mul])
  refine ext_at4 hblock (shape_picked hwhole _ _ _ _) fun n hn c hc i hi j hj => ?_
  have hu : (i, j) ∈ cells (H, W) := mem_cells.mpr ⟨hi, hj⟩
  have hentry := at4_correlateInput hx' hw' hs hg' hn Nat.one_pos hc hu
  simp only [Nat.zero_mul, Nat.zero_add] at hentry
  rw [at4_picked _ hn hc, id, hentry, at4_correlateInput hx hw hs hg hn hq hc hu]
  refine sum_congr rfl fun o ho => sum_congr rfl fun t _ => sum_congr rfl fun p _ => ?_
  rw [mem_range] at ho
  rw [channelBlock_eq hgs, at4_picked g hn ho, sampleBlock_eq hw, at4_picked w ho hc, id, id]

/-- The gradient in a sample comes from the cotangent of that sample. -/
theorem correlateInput_sampleBlock (hx : x.shape = [N, G * B, H, W]) (hw : w.shape = [G * P, B, a, b])
    (hs : 0 < s.stride.1 ∧ 0 < s.stride.2) (hg : g.shape = correlationShape s x.shape w.shape)
    (hm : ∀ n < m, q * m + n < N) :
    correlateInput s G (x.sampleBlock m q).shape w (g.sampleBlock m q) =
      (correlateInput s G x.shape w g).picked m (G * B) (q * m + ·) id := by
  have hx' := shape_sampleBlock hx m q
  have hgs := shape_cotangent hg hx hw
  have hg' : (g.sampleBlock m q).shape = correlationShape s (x.sampleBlock m q).shape w.shape := by
    rw [shape_sampleBlock hgs, hx', hw]
    rfl
  have hwhole : (correlateInput s G x.shape w g).shape = [N, G * B, H, W] :=
    (shape_correlateInput s G hx w g).trans hx
  refine ext_at4 ((shape_correlateInput s G hx' w _).trans hx') (shape_picked hwhole _ _ _ _)
    fun n hn c hc i hi j hj => ?_
  have hu : (i, j) ∈ cells (H, W) := mem_cells.mpr ⟨hi, hj⟩
  have hB : 0 < B := Nat.pos_of_mul_pos_left (Nat.zero_lt_of_lt hc)
  have hgroup : c / B < G := Nat.div_lt_of_lt_mul (by rwa [Nat.mul_comm])
  have hchannel : c % B < B := Nat.mod_lt c hB
  rw [at4_picked _ hn hc, id, ← Nat.div_add_mod' c B]
  have hentry := at4_correlateInput hx' hw hs hg' hn hgroup hchannel hu
  rw [hentry, at4_correlateInput hx hw hs hg (hm n hn) hgroup hchannel hu]
  refine sum_congr rfl fun o ho => sum_congr rfl fun t _ => sum_congr rfl fun p _ => ?_
  rw [sampleBlock_eq hgs, at4_picked g hn (block_lt hgroup (mem_range.mp ho)), id]

/-- The gradient in a block of kernels comes from its group. -/
theorem correlateKernel_channelBlock (hx : x.shape = [N, G * B, H, W]) (hw : w.shape = [G * P, B, a, b])
    (hg : g.shape = correlationShape s x.shape w.shape) (hq : q < G) :
    correlateKernel s 1 (w.sampleBlock P q).shape (x.channelBlock B q) (g.channelBlock P q) =
      (correlateKernel s G w.shape x g).picked P B (q * P + ·) id := by
  have hx' := shape_channelBlock hx B q
  have hw' := shape_sampleBlock hw P q
  have hgs := shape_cotangent hg hx hw
  have hg' : (g.channelBlock P q).shape = correlationShape s (x.channelBlock B q).shape (w.sampleBlock P q).shape := by
    rw [shape_channelBlock hgs, hx', hw']
    rfl
  have hwhole : (correlateKernel s G w.shape x g).shape = [G * P, B, a, b] :=
    (shape_correlateKernel s G x g hw).trans hw
  refine ext_at4 ((shape_correlateKernel s 1 _ _ hw').trans hw') (shape_picked hwhole _ _ _ _)
    fun o ho c hc i hi j hj => ?_
  have ht : (i, j) ∈ cells (a, b) := mem_cells.mpr ⟨hi, hj⟩
  have hblock : (correlateKernel s 1 _ _ _).at4 o c i j = _ := at4_correlateKernel hx' hw' hg' ho hc ht
  have hentry : (correlateKernel s G _ x g).at4 (q * P + o) c i j = _ :=
    at4_correlateKernel hx hw hg (block_lt hq ho) hc ht
  rw [at4_picked _ ho hc, id, hblock, hentry, Nat.div_one, Nat.div_eq_of_lt ho,
    Nat.mul_div_cancel_left P (Nat.zero_lt_of_lt hq), div_block ho]
  refine sum_congr rfl fun n hn => sum_congr rfl fun p _ => ?_
  rw [mem_range] at hn
  rw [Nat.zero_mul, Nat.zero_add, channelBlock_eq hx, padded_picked x _ hn hc, channelBlock_eq hgs,
    at4_picked g hn ho, id]

/-- The gradient in the kernels is the sum of what the samples contribute. -/
theorem at4_correlateKernel_samples (hx : x.shape = [N, G * B, H, W]) (hw : w.shape = [G * P, B, a, b])
    (hg : g.shape = correlationShape s x.shape w.shape) {o c i j : ℕ} (ho : o < G * P) (hc : c < B) (hi : i < a)
    (hj : j < b) : (correlateKernel s G w.shape x g).at4 o c i j =
      ∑ n ∈ range N, (correlateKernel s G w.shape (x.sampleBlock 1 n) (g.sampleBlock 1 n)).at4 o c i j := by
  have ht : (i, j) ∈ cells (a, b) := mem_cells.mpr ⟨hi, hj⟩
  have hgs := shape_cotangent hg hx hw
  have hchannel := channel_lt (Nat.pos_of_mul_pos_right (Nat.zero_lt_of_lt ho)) ho hc
  have hentry : (correlateKernel s G _ x g).at4 o c i j = _ := at4_correlateKernel hx hw hg ho hc ht
  rw [hentry]
  refine sum_congr rfl fun n _ => ?_
  have hx' := shape_sampleBlock hx 1 n
  have hg' : (g.sampleBlock 1 n).shape = correlationShape s (x.sampleBlock 1 n).shape w.shape := by
    rw [shape_sampleBlock hgs, hx', hw]
    rfl
  have hsample : (correlateKernel s G _ _ _).at4 o c i j = _ := at4_correlateKernel hx' hw hg' ho hc ht
  rw [hsample, sum_range_one]
  refine sum_congr rfl fun p _ => ?_
  rw [sampleBlock_eq hx, padded_picked x _ Nat.one_pos hchannel, sampleBlock_eq hgs, at4_picked g Nat.one_pos ho,
    Nat.mul_one, Nat.add_zero, id, id]

end Correlations

/-! ### Passes of blocks -/

section Passes

variable {R : Type} [CommSemiring R] {s : Sweep} {x w weights g : Tensor R} {bias : Option (Tensor R)}
  {G N B P H W k I J m q : ℕ}

theorem turned_sampleBlock (hw : w.shape = [G * P, B, k, k]) (hq : q < G) (r : ℕ) :
    turned r (w.sampleBlock P q) = (turned r w).sampleBlock P q := by
  rw [sampleBlock_eq hw, sampleBlock_eq (t := turned r w) hw,
    turned_picked hw (picks_samples B fun o ho => block_lt hq ho)]

theorem weighted_channelBlock (hg : g.shape = [N, G * P, I, J]) (hweights : weights.shape = [N, 4, I, J]) (hq : q < G)
    {r : ℕ} (hr : r < 4) : weighted (g.channelBlock P q) weights r = (weighted g weights r).channelBlock P q := by
  rw [channelBlock_eq hg, channelBlock_eq (shape_weighted hg weights r),
    ← weighted_picked hg (picks_channels N hq) hr]
  congr 1
  exact (picked_id hweights).symm

theorem weighted_sampleBlock {M : ℕ} (hg : g.shape = [N, M, I, J]) (hweights : weights.shape = [N, 4, I, J])
    (hm : ∀ n < m, q * m + n < N) {r : ℕ} (hr : r < 4) :
    weighted (g.sampleBlock m q) (weights.sampleBlock m q) r = (weighted g weights r).sampleBlock m q := by
  rw [sampleBlock_eq hg, sampleBlock_eq hweights, sampleBlock_eq (shape_weighted hg weights r),
    weighted_picked hg (picks_samples M hm) hr]

/-- A group has extents of its own. -/
theorem Extents.channelBlock (e : Extents s G x w bias weights N B P H W k) (q : ℕ) :
    Extents s 1 (x.channelBlock B q) (w.sampleBlock P q) (bias.map (flatBlock P q)) weights N B P H W k where
  batch := by rw [shape_channelBlock e.batch, Nat.one_mul]
  kernel := by rw [shape_sampleBlock e.kernel, Nat.one_mul]
  bias := by
    rw [Nat.one_mul]
    intro b hb
    obtain ⟨_, -, rfl⟩ := Option.map_eq_some_iff.mp hb
    rfl
  weights := e.weights
  groups_pos := Nat.one_pos
  stride_pos := e.stride_pos

/-- Some samples have extents of their own. -/
theorem Extents.sampleBlock (e : Extents s G x w bias weights N B P H W k) (m q : ℕ) :
    Extents s G (x.sampleBlock m q) w bias (weights.sampleBlock m q) m B P H W k where
  batch := shape_sampleBlock e.batch m q
  kernel := e.kernel
  bias := e.bias
  weights := shape_sampleBlock e.weights m q
  groups_pos := e.groups_pos
  stride_pos := e.stride_pos

/-- Output channels of one group are the output of its channels, kernels and entries of the bias. -/
theorem steered_channelBlock (e : Extents s G x w bias weights N B P H W k) (hq : q < G) :
    steered s 1 (x.channelBlock B q) (w.sampleBlock P q) (bias.map (flatBlock P q)) weights =
      (steered s G x w bias weights).channelBlock P q := by
  have hpicks : Picks N (G * P) N P id (q * P + ·) := picks_channels N hq
  have hblended : blended s 1 (x.channelBlock B q) (w.sampleBlock P q) weights =
      (blended s G x w weights).picked N P id (q * P + ·) := by
    unfold blended
    rw [fourfold_picked (fun r _ => shape_weighted (e.response r) weights r) hpicks]
    refine fourfold_congr fun r hr => ?_
    have hresponse := e.response r
    rw [turned_sampleBlock e.kernel hq, correlate_channelBlock e.batch (shape_turned r w ▸ e.kernel) hq,
      ← channelBlock_eq hresponse, ← channelBlock_eq (shape_weighted hresponse weights r),
      weighted_channelBlock hresponse e.weights hq hr]
  rw [channelBlock_eq e.shape_steered]
  unfold steered
  rw [hblended]
  exact withBias_picked e.shape_blended hpicks bias

/-- Samples of the output are the output of the samples with their weights. -/
theorem steered_sampleBlock (e : Extents s G x w bias weights N B P H W k) (hm : ∀ n < m, q * m + n < N) :
    steered s G (x.sampleBlock m q) w bias (weights.sampleBlock m q) =
      (steered s G x w bias weights).sampleBlock m q := by
  have hblended : blended s G (x.sampleBlock m q) w (weights.sampleBlock m q) =
      (blended s G x w weights).picked m (G * P) (q * m + ·) id := by
    unfold blended
    rw [fourfold_picked (fun r _ => shape_weighted (e.response r) weights r) (picks_samples _ hm)]
    refine fourfold_congr fun r hr => ?_
    have hresponse := e.response r
    rw [correlate_sampleBlock e.batch (shape_turned r w ▸ e.kernel)
        (fun _ ho _ hc => channel_lt e.groups_pos ho hc) hm, ← sampleBlock_eq hresponse,
      ← sampleBlock_eq (shape_weighted hresponse weights r), weighted_sampleBlock hresponse e.weights hm hr]
  have hbias : bias.map (pickedFlat (G * P) id) = bias := by
    cases hb : bias with
    | none => rfl
    | some b => exact congrArg some (pickedFlat_id (e.bias b hb))
  rw [sampleBlock_eq e.shape_steered]
  unfold steered
  rw [hblended, ← withBias_picked e.shape_blended (picks_samples _ hm) bias, hbias]

theorem batchAdjoint_channelBlock (e : Extents s G x w bias weights N B P H W k)
    (hg : g.shape = (steered s G x w bias weights).shape) (hq : q < G) :
    batchAdjoint s 1 (x.channelBlock B q).shape (w.sampleBlock P q) weights (g.channelBlock P q) =
      (batchAdjoint s G x.shape w weights g).channelBlock B q := by
  rw [channelBlock_eq ((e.shape_batchAdjoint g).trans e.batch)]
  unfold batchAdjoint
  rw [fourfold_picked (fun r _ => (shape_correlateInput s G e.batch _ _).trans e.batch) (picks_channels N hq)]
  refine fourfold_congr fun r hr => ?_
  rw [turned_sampleBlock e.kernel hq, weighted_channelBlock (hg.trans e.shape_steered) e.weights hq hr,
    correlateInput_channelBlock e.batch (shape_turned r w ▸ e.kernel) e.stride_pos (e.share hg r) hq]

theorem batchAdjoint_sampleBlock (e : Extents s G x w bias weights N B P H W k)
    (hg : g.shape = (steered s G x w bias weights).shape) (hm : ∀ n < m, q * m + n < N) :
    batchAdjoint s G (x.sampleBlock m q).shape w (weights.sampleBlock m q) (g.sampleBlock m q) =
      (batchAdjoint s G x.shape w weights g).sampleBlock m q := by
  rw [sampleBlock_eq ((e.shape_batchAdjoint g).trans e.batch)]
  unfold batchAdjoint
  rw [fourfold_picked (fun r _ => (shape_correlateInput s G e.batch _ _).trans e.batch) (picks_samples _ hm)]
  refine fourfold_congr fun r hr => ?_
  rw [weighted_sampleBlock (hg.trans e.shape_steered) e.weights hm hr,
    correlateInput_sampleBlock e.batch (shape_turned r w ▸ e.kernel) e.stride_pos (e.share hg r) hm]

end Passes

/-! ### Gradients in what the samples share -/

section Shared

variable {R : Type} [CommSemiring R] {s : Sweep} {x w weights g : Tensor R} {bias : Option (Tensor R)}
  {G N B P H W k q : ℕ}

/-- The gradient in a block of kernels comes from its group. -/
theorem kernelAdjoint_channelBlock (e : Extents s G x w bias weights N B P H W k)
    (hg : g.shape = (steered s G x w bias weights).shape) (hq : q < G) :
    kernelAdjoint s 1 (w.sampleBlock P q).shape (x.channelBlock B q) weights (g.channelBlock P q) =
      (kernelAdjoint s G w.shape x weights g).sampleBlock P q := by
  have hblock := e.channelBlock q
  have hwhole := (shape_kernelAdjoint s G w.shape x weights g).trans e.kernel
  refine ext_at4 ((shape_kernelAdjoint s 1 _ _ weights _).trans hblock.kernel)
    (by rw [shape_sampleBlock hwhole, Nat.one_mul]) fun o ho c hc i hi j hj => ?_
  have hp : (i, j) ∈ cells (k, k) := mem_cells.mpr ⟨hi, hj⟩
  have hentry := at4_kernelAdjoint hblock (g.channelBlock P q) ho hc hp
  rw [Nat.one_mul] at ho
  have hgroup := at4_kernelAdjoint e g (block_lt hq ho) hc hp
  rw [hentry, sampleBlock_eq hwhole, at4_picked _ ho hc, id, hgroup]
  refine sum_congr rfl fun r hr => ?_
  rw [weighted_channelBlock (hg.trans e.shape_steered) e.weights hq (mem_range.mp hr),
    correlateKernel_channelBlock e.batch e.kernel (e.share hg r) hq, at4_picked _ ho hc, id]

/-- Arrays of one shape added entry by entry. -/
def sumSamples (count : ℕ) (shape : List ℕ) (f : ℕ → Tensor R) : Tensor R :=
  ofFlat shape fun i => ∑ n ∈ range count, (f n).flat i

theorem at4_sumSamples {count O C a b : ℕ} {shape : List ℕ} (hshape : shape = [O, C, a, b]) {f : ℕ → Tensor R}
    (hf : ∀ n, (f n).shape = shape) {o c i j : ℕ} (ho : o < O) (hc : c < C) (hi : i < a) (hj : j < b) :
    (sumSamples count shape f).at4 o c i j = ∑ n ∈ range count, (f n).at4 o c i j := by
  subst hshape
  rw [at4_eq_flat (by rfl) ho hc hi hj]
  unfold sumSamples
  rw [flat_ofFlat (position_lt ho hc hi hj)]
  exact sum_congr rfl fun n _ => (at4_eq_flat (hf n) ho hc hi hj).symm

/-- The gradient in the kernels is the sum of the gradients of the samples. -/
theorem kernelAdjoint_eq_sumSamples (e : Extents s G x w bias weights N B P H W k)
    (hg : g.shape = (steered s G x w bias weights).shape) : kernelAdjoint s G w.shape x weights g =
      sumSamples N w.shape fun n =>
        kernelAdjoint s G w.shape (x.sampleBlock 1 n) (weights.sampleBlock 1 n) (g.sampleBlock 1 n) := by
  refine ext_at4 ((shape_kernelAdjoint s G w.shape x weights g).trans e.kernel) (by exact e.kernel)
    fun o ho c hc i hi j hj => ?_
  have hp : (i, j) ∈ cells (k, k) := mem_cells.mpr ⟨hi, hj⟩
  have hentry := at4_kernelAdjoint e g ho hc hp
  rw [hentry, at4_sumSamples e.kernel (fun n => shape_kernelAdjoint _ _ _ _ _ _) ho hc hi hj]
  -- every rotation adds up over the samples
  have hpart : ∀ r ∈ range 4, (correlateKernel s G w.shape x (weighted g weights r)).at4 o c
      (turnedSource k (turnsOf (-(r : ℤ))) (i, j)).1 (turnedSource k (turnsOf (-(r : ℤ))) (i, j)).2 =
        ∑ n ∈ range N, (correlateKernel s G w.shape (x.sampleBlock 1 n)
          (weighted (g.sampleBlock 1 n) (weights.sampleBlock 1 n) r)).at4 o c
            (turnedSource k (turnsOf (-(r : ℤ))) (i, j)).1 (turnedSource k (turnsOf (-(r : ℤ))) (i, j)).2 := by
    intro r hr
    obtain ⟨hrow, hcolumn⟩ := mem_cells.mp (turnedSource_mem (r := turnsOf (-(r : ℤ))) hp)
    rw [at4_correlateKernel_samples e.batch e.kernel (e.share hg r) ho hc hrow hcolumn]
    refine sum_congr rfl fun n hn => ?_
    rw [weighted_sampleBlock (hg.trans e.shape_steered) e.weights (one_block_lt (mem_range.mp hn)) (mem_range.mp hr)]
  rw [sum_congr rfl hpart, sum_comm]
  refine sum_congr rfl fun n _ => ?_
  have hsample := at4_kernelAdjoint (e.sampleBlock 1 n) (g.sampleBlock 1 n) ho hc hp
  exact hsample.symm

/-- The gradient in the bias of a group is that of its output channels. -/
theorem biasSums_channelBlock {I J : ℕ} (hg : g.shape = [N, G * P, I, J]) (hq : q < G) :
    biasSums (g.channelBlock P q) = (biasSums g).flatBlock P q := by
  have hblock := shape_channelBlock hg P q
  have hlength : (biasSums (g.channelBlock P q)).shape = [P] := by
    unfold biasSums
    rw [(extents hblock).2.1]
    rfl
  refine ext_flat hlength fun c hc => ?_
  replace hc : c < P := by simpa [size, hlength] using hc
  have hflat : ((biasSums g).flatBlock P q).flat c = (biasSums g).flat (q * P + c) := flat_ofFlat (by simpa using hc)
  rw [hflat, flat_biasSums hblock hc, flat_biasSums hg (block_lt hq hc), channelBlock_eq hg]
  refine sum_congr rfl fun n hn => sum_congr rfl fun p _ => ?_
  exact at4_picked g (mem_range.mp hn) hc p.1 p.2

/-- The gradient in the bias is the sum of the gradients of the samples. -/
theorem biasSums_eq_sumSamples {C I J : ℕ} (hg : g.shape = [N, C, I, J]) :
    biasSums g = sumSamples N [C] fun n => biasSums (g.sampleBlock 1 n) := by
  have hlength : (biasSums g).shape = [C] := by
    unfold biasSums
    rw [(extents hg).2.1]
    rfl
  refine ext_flat hlength fun c hc => ?_
  replace hc : c < C := by simpa [size, hlength] using hc
  unfold sumSamples
  rw [flat_ofFlat (by simpa using hc), flat_biasSums hg hc]
  refine sum_congr rfl fun n _ => ?_
  rw [flat_biasSums (shape_sampleBlock hg 1 n) hc, sum_range_one, sampleBlock_eq hg]
  refine sum_congr rfl fun p _ => ?_
  rw [at4_picked g Nat.one_pos hc, Nat.mul_one, Nat.add_zero, id]

end Shared

/-! ### Orientations of samples -/

section Orientations

variable {s : Sweep} {N C H W O B a b I J m q : ℕ} {groups : ℕ}

/-- A batch with samples has pixels, so any number of its samples are correlated. -/
theorem Correlates.samples (h : Correlates s groups [N, C, H, W] [O, B, a, b]) (hN : 0 < N) (m : ℕ) :
    Correlates s groups [m, C, H, W] [O, B, a, b] := by
  obtain ⟨hG, hrow, hcolumn, ha, hb, hC, hO, hdivides, hpos, hpixels, hfit⟩ := h
  exact ⟨hG, hrow, hcolumn, ha, hb, hC, hO, hdivides, hpos, .inr (hpixels.resolve_left hN.ne'), hfit⟩

theorem windowAverage_sampleBlock {R : Type} [CommSemiring R] {table x : Tensor R} (hx : x.shape = [N, C, H, W])
    (hC : 0 < C) (hm : ∀ n < m, q * m + n < N) :
    windowAverage s table (x.sampleBlock m q) = (windowAverage s table x).sampleBlock m q := by
  have hchannel : ∀ o < C, ∀ c < 1, o / (C / C) * 1 + c < C := fun o ho c hc => by
    rw [Nat.div_self hC, Nat.div_one]
    omega
  have hy := shape_cotangent (shape_correlate s C x (channelKernels C table)) hx (shape_channelKernels C table)
  rw [windowAverage_eq (shape_sampleBlock hx m q) hC, windowAverage_eq hx hC, sampleBlock_eq hy,
    correlate_sampleBlock hx (shape_channelKernels C table) hchannel hm]

variable {S : Smoother ℝ} {map t : Tensor ℝ}

/-- Samples are smoothed by themselves. -/
theorem Smoother.smooth_sampleBlock (h : S.smooth map = .ok t) (ht : t.extent 0 = N) (hN : 0 < N)
    (hm : ∀ n < m, q * m + n < N) : S.smooth (map.sampleBlock m q) = .ok (t.sampleBlock m q) := by
  obtain ⟨g, hg, hsmooth⟩ := bind_eq_ok_iff.mp h
  obtain rfl := Except.ok.inj hsmooth
  obtain ⟨M, C, H, W, hmap, hC, -⟩ := Smoother.extents_of_accepts hg
  obtain rfl : M = N := (extents hmap).1.symm.trans ht
  rw [hmap] at hg
  obtain ⟨-, hgeometry, hcorrelates⟩ := Smoother.accepts_eq_ok_iff.mp hg
  have hblock : S.accepts (map.sampleBlock m q).shape = .ok g := by
    rw [shape_sampleBlock hmap]
    exact Smoother.accepts_of_geometry hgeometry (hcorrelates.samples hN m)
  rw [Smoother.smooth_eq hblock, windowAverage_sampleBlock hmap hC hm]

def Orientation.sampleBlock {β γ : Type} [Zero β] [Zero γ] (size q : ℕ) (o : Orientation β γ) : Orientation β γ :=
  ⟨o.smoothed.sampleBlock size q, o.angle.sampleBlock size q, o.sinCos.sampleBlock size q⟩

theorem vectorAt_sampleBlock (ht : t.shape = [N, 2, I, J]) {n : ℕ} (hn : n < m) (i j : ℕ) :
    vectorAt (t.sampleBlock m q) n i j = vectorAt t (q * m + n) i j := by
  unfold vectorAt
  rw [sampleBlock_eq ht, at4_picked t hn (by decide), at4_picked t hn (by decide)]
  rfl

theorem angles_sampleBlock (ht : t.shape = [N, 2, I, J]) (hm : ∀ n < m, q * m + n < N) :
    (angles (t.sampleBlock m q) : Tensor ℝ) = (angles t).sampleBlock m q := by
  have hblock := shape_sampleBlock ht m q
  have hangles : (angles t : Tensor ℝ).shape = [N, 1, I, J] := shape_angles ht
  refine ext_at4 (shape_angles hblock) (shape_sampleBlock hangles m q) fun n hn c hc i hi j hj => ?_
  obtain rfl : c = 0 := by omega
  rw [at4_angles hblock hn hi hj, vectorAt_sampleBlock ht hn, sampleBlock_eq hangles, at4_picked _ hn hc, id,
    at4_angles ht (hm n hn) hi hj]

theorem sinesAndCosines_sampleBlock {angle : Tensor ℝ} (h : angle.shape = [N, C, I, J]) (hm : ∀ n < m, q * m + n < N) :
    sinesAndCosines (angle.sampleBlock m q) = (sinesAndCosines angle).sampleBlock m q := by
  have hblock := shape_sampleBlock h m q
  have hall := shape_sinesAndCosines h
  refine ext_at4 (shape_sinesAndCosines hblock) (shape_sampleBlock hall m q) fun n hn c hc i hi j hj => ?_
  rw [at4_sinesAndCosines hblock hn hc hi hj, sampleBlock_eq hall, at4_picked _ hn hc, id,
    at4_sinesAndCosines h (hm n hn) hc hi hj, sampleBlock_eq h]
  by_cases hsine : c < C
  · rw [if_pos hsine, if_pos hsine, at4_picked angle hn hsine, id]
  · rw [if_neg hsine, if_neg hsine, at4_picked angle hn (by omega), id]

theorem interpolationWeights_sampleBlock (ht : t.shape = [N, 2, I, J]) (hm : ∀ n < m, q * m + n < N) :
    (interpolationWeights (angles (t.sampleBlock m q)) : Tensor ℝ) =
      (interpolationWeights (angles t : Tensor ℝ)).sampleBlock m q := by
  have hblock := shape_sampleBlock ht m q
  have hweights := (interpolationWeights_eq (shape_angles ht : (angles t : Tensor ℝ).shape = _)).2
  refine ext_at4 (interpolationWeights_eq (shape_angles hblock)).2 (shape_sampleBlock hweights m q)
    fun n hn r hr i hi j hj => ?_
  rw [at4_weights hblock hn hr hi hj, vectorAt_sampleBlock ht hn, sampleBlock_eq hweights, at4_picked _ hn hr, id,
    at4_weights ht (hm n hn) hr hi hj]

end Orientations

/-! ### Groups and samples apart -/

section Apart

variable {e : Estimator ℝ} {s : Sweep} {groups : ℕ} {x map w : Tensor ℝ} {bias : Option (Tensor ℝ)}
  {o : Orientation ℝ ℝ} {weights : Tensor ℝ}

/-- A group has its own channels, kernels and entries of the bias, and the map of all groups. -/
theorem Aligned.channelBlock (h : Aligned e s groups x map w bias) (q : ℕ) :
    Aligned e s 1 (x.channelBlock (w.extent 1) q) map (w.sampleBlock (w.extent 0 / groups) q)
      (bias.map (flatBlock (w.extent 0 / groups) q)) := by
  obtain ⟨o, weights, -, harranged, -⟩ := h.exists_pass
  obtain ⟨N, B, P, H, W, k, ext⟩ := harranged.extents
  obtain ⟨w0, w1, -, -⟩ := extents ext.kernel
  rw [w0, w1, Nat.mul_div_cancel_left P ext.groups_pos]
  have hx := shape_channelBlock ext.batch B q
  have hw := shape_sampleBlock ext.kernel P q
  obtain ⟨-, hrow, hcolumn, hk, -, -, hO, -, hC, hpixels, hfit⟩ := by
    have hcorrelates := h.correlates
    rw [ext.batch, ext.kernel] at hcorrelates
    exact hcorrelates
  refine ⟨?_, ?_, ?_, ?_⟩
  · rw [hx, hw]
    exact ⟨Nat.one_pos, hrow, hcolumn, hk, hk, (Nat.mul_one B).symm, Nat.pos_of_mul_pos_left hO, Nat.mod_one P,
      Nat.pos_of_mul_pos_left hC, hpixels, hfit⟩
  · rw [hw]
    exact rfl
  · rintro _ hb
    obtain ⟨b, -, rfl⟩ := Option.map_eq_some_iff.mp hb
    rw [(extents hw).1]
    rfl
  · obtain ⟨t, ht, hshape⟩ := h.vectors
    refine ⟨t, ht, hshape.trans ?_⟩
    rw [(extents ext.batch).1, (extents hx).1, area_batch ext.batch, area_batch hx, area_batch ext.kernel,
      area_batch hw]

/-- A sample has its own map. -/
theorem Aligned.sampleBlock (h : Aligned e s groups x map w bias) {n : ℕ} (hn : n < x.extent 0) :
    Aligned e s groups (x.sampleBlock 1 n) (map.sampleBlock 1 n) w bias := by
  obtain ⟨o, weights, -, harranged, -⟩ := h.exists_pass
  obtain ⟨N, B, P, H, W, k, ext⟩ := harranged.extents
  rw [(extents ext.batch).1] at hn
  have hN : 0 < N := Nat.zero_lt_of_lt hn
  have hx := shape_sampleBlock ext.batch 1 n
  refine ⟨?_, h.square, h.bias, ?_⟩
  · have hcorrelates := h.correlates
    rw [ext.batch, ext.kernel] at hcorrelates
    rw [hx, ext.kernel]
    exact hcorrelates.samples hN 1
  · obtain ⟨t, ht, hshape⟩ := h.vectors
    rw [(extents ext.batch).1] at hshape
    refine ⟨_, Smoother.smooth_sampleBlock ht (extents hshape).1 hN (one_block_lt hn), ?_⟩
    rw [shape_sampleBlock hshape, (extents hx).1, area_batch ext.batch, area_batch hx]

/-- The gradients of a pass for a cotangent, each of them as far as it is asked for. -/
def ForwardPass.Yields (p : ForwardPass ℝ) (u input weight bias : Tensor ℝ) : Prop :=
  ∀ requested : Requested, p.gradients requested u = .ok
    { input := if requested.input then some input else none
      weight := if requested.weight then some weight else none
      bias := if requested.bias then some bias else none }

/-- Numbers in blocks of `size` one behind the other. -/
def joinFlat (count size : ℕ) (f : ℕ → Tensor ℝ) : Tensor ℝ :=
  ofFlat [count * size] fun c => (f (c / size)).flat (c % size)

theorem eq_joinFlat {t : Tensor ℝ} {count size : ℕ} (ht : t.shape = [count * size]) {f : ℕ → Tensor ℝ}
    (hf : ∀ q < count, f q = t.flatBlock size q) : t = joinFlat count size f := by
  refine ext_flat ht fun c hc => ?_
  replace hc : c < count * size := by simpa [Tensor.size, ht] using hc
  have hsize : 0 < size := Nat.pos_of_mul_pos_left (Nat.zero_lt_of_lt hc)
  have hblock : (t.flatBlock size (c / size)).flat (c % size) = t.flat (c / size * size + c % size) :=
    flat_ofFlat (by simpa using Nat.mod_lt c hsize)
  unfold joinFlat
  rw [flat_ofFlat (by simpa using hc), hf _ (Nat.div_lt_of_lt_mul (by rwa [Nat.mul_comm])), hblock, Nat.div_add_mod']

/-- Every group has a pass with its own channels, kernels and entries of the bias, and the orientation of the map.
The output is put together from their outputs, and the gradients are put together from their gradients for the
cotangent of their output channels. -/
def GroupsApart (e : Estimator ℝ) (s : Sweep) (groups : ℕ) (x map w : Tensor ℝ) (bias : Option (Tensor ℝ))
    (o : Orientation ℝ ℝ) (y : Tensor ℝ) (p : ForwardPass ℝ) : Prop :=
  let B := w.extent 1
  let P := w.extent 0 / groups
  let grid := s.grid w.area x.area
  ∃ (ys : ℕ → Tensor ℝ) (ps : ℕ → ForwardPass ℝ),
    (∀ q < groups, forwardPass e s 1 (x.channelBlock B q) map (w.sampleBlock P q) (bias.map (flatBlock P q)) =
      .ok (o, ys q, ps q)) ∧
    y = joinChannels (x.extent 0) groups P grid.1 grid.2 ys ∧
    ∀ u : Tensor ℝ, u.shape = y.shape → ∃ (gi gw gb : Tensor ℝ) (gis gws gbs : ℕ → Tensor ℝ),
      p.Yields u gi gw gb ∧ (∀ q < groups, (ps q).Yields (u.channelBlock P q) (gis q) (gws q) (gbs q)) ∧
      gi = joinChannels (x.extent 0) groups B (x.extent 2) (x.extent 3) gis ∧
      gw = joinSamples groups P B (w.extent 2) (w.extent 3) gws ∧ gb = joinFlat groups P gbs

/-- Every sample has a pass with its own map, and its own part of the orientation. The output and the gradient in
the batch are put together from theirs, and the gradients in the kernels and the bias are the sums of theirs. -/
def SamplesApart (e : Estimator ℝ) (s : Sweep) (groups : ℕ) (x map w : Tensor ℝ) (bias : Option (Tensor ℝ))
    (o : Orientation ℝ ℝ) (y : Tensor ℝ) (p : ForwardPass ℝ) : Prop :=
  let N := x.extent 0
  let grid := s.grid w.area x.area
  ∃ (ys : ℕ → Tensor ℝ) (ps : ℕ → ForwardPass ℝ),
    (∀ n < N, forwardPass e s groups (x.sampleBlock 1 n) (map.sampleBlock 1 n) w bias =
      .ok (o.sampleBlock 1 n, ys n, ps n)) ∧
    y = joinSamples N 1 (w.extent 0) grid.1 grid.2 ys ∧
    ∀ u : Tensor ℝ, u.shape = y.shape → ∃ (gi gw gb : Tensor ℝ) (gis gws gbs : ℕ → Tensor ℝ),
      p.Yields u gi gw gb ∧ (∀ n < N, (ps n).Yields (u.sampleBlock 1 n) (gis n) (gws n) (gbs n)) ∧
      gi = joinSamples N 1 (x.extent 1) (x.extent 2) (x.extent 3) gis ∧
      gw = sumSamples N w.shape gws ∧ gb = sumSamples N [w.extent 0] gbs

theorem Aligned.groupsApart (h : Aligned e s groups x map w bias) (horient : orient e map = .ok (o, weights)) :
    GroupsApart e s groups x map w bias o (steered s groups x w bias weights) ⟨x, w, weights, s, groups⟩ := by
  obtain ⟨harranged, -⟩ := h.forwardPass_eq horient
  obtain ⟨N, B, P, H, W, k, ext⟩ := harranged.extents
  obtain ⟨x0, -, x2, x3⟩ := extents ext.batch
  obtain ⟨w0, w1, w2, w3⟩ := extents ext.kernel
  have hP : w.extent 0 / groups = P := by rw [w0, Nat.mul_div_cancel_left P ext.groups_pos]
  have hgroup (q : ℕ) := (h.channelBlock q).forwardPass_eq horient
  rw [hP, w1] at hgroup
  unfold GroupsApart
  dsimp only
  rw [hP, w1]
  refine ⟨fun q => steered s 1 (x.channelBlock B q) (w.sampleBlock P q) (bias.map (flatBlock P q)) weights,
    fun q => ⟨x.channelBlock B q, w.sampleBlock P q, weights, s, 1⟩, fun q _ => (hgroup q).2, ?_, fun u hu => ?_⟩
  · rw [x0, area_batch ext.batch, area_batch ext.kernel]
    exact eq_joinChannels ext.shape_steered fun q hq => steered_channelBlock ext hq
  have hcotangent : ∀ q < groups, (u.channelBlock P q).shape =
      (steered s 1 (x.channelBlock B q) (w.sampleBlock P q) (bias.map (flatBlock P q)) weights).shape := fun q hq => by
    rw [steered_channelBlock ext hq, shape_channelBlock ext.shape_steered,
      shape_channelBlock (hu.trans ext.shape_steered)]
  refine ⟨_, _, _, _, _, _, gradients_eq harranged hu, fun q hq => gradients_eq (hgroup q).1 (hcotangent q hq),
    ?_, ?_, ?_⟩
  · rw [x0, x2, x3]
    exact eq_joinChannels ((ext.shape_batchAdjoint u).trans ext.batch) fun q hq => batchAdjoint_channelBlock ext hu hq
  · rw [w2, w3]
    exact eq_joinSamples ((shape_kernelAdjoint s groups w.shape x weights u).trans ext.kernel) fun q hq =>
      kernelAdjoint_channelBlock ext hu hq
  · refine eq_joinFlat ?_ fun q hq => biasSums_channelBlock (hu.trans ext.shape_steered) hq
    unfold biasSums
    rw [(extents (hu.trans ext.shape_steered)).2.1]
    rfl

theorem Aligned.samplesApart (h : Aligned e s groups x map w bias) (horient : orient e map = .ok (o, weights)) :
    SamplesApart e s groups x map w bias o (steered s groups x w bias weights) ⟨x, w, weights, s, groups⟩ := by
  obtain ⟨harranged, -⟩ := h.forwardPass_eq horient
  obtain ⟨N, B, P, H, W, k, ext⟩ := harranged.extents
  obtain ⟨x0, x1, x2, x3⟩ := extents ext.batch
  obtain ⟨w0, w1, w2, w3⟩ := extents ext.kernel
  have horient' : ∀ n < N, orient e (map.sampleBlock 1 n) = .ok (o.sampleBlock 1 n, weights.sampleBlock 1 n) := by
    intro n hn
    obtain ⟨t, ht, hshape⟩ := h.vectors
    rw [x0] at hshape
    obtain ⟨rfl, rfl⟩ := Prod.mk.inj (Except.ok.inj (horient.symm.trans (orient_of_smooth ht)))
    have hm := one_block_lt hn
    rw [orient_of_smooth (Smoother.smooth_sampleBlock ht (extents hshape).1 (Nat.zero_lt_of_lt hn) hm),
      interpolationWeights_sampleBlock hshape hm]
    unfold orientationOf Orientation.sampleBlock
    dsimp only
    rw [angles_sampleBlock hshape hm, sinesAndCosines_sampleBlock (shape_angles hshape) hm]
  have hsample (n : ℕ) (hn : n < N) := (h.sampleBlock (by rwa [x0])).forwardPass_eq (horient' n hn)
  unfold SamplesApart
  dsimp only
  rw [x0]
  refine ⟨fun n => steered s groups (x.sampleBlock 1 n) w bias (weights.sampleBlock 1 n),
    fun n => ⟨x.sampleBlock 1 n, w, weights.sampleBlock 1 n, s, groups⟩, fun n hn => (hsample n hn).2, ?_,
    fun u hu => ?_⟩
  · rw [w0, area_batch ext.batch, area_batch ext.kernel]
    refine eq_joinSamples (by rw [Nat.mul_one]; exact ext.shape_steered) fun n hn => ?_
    exact steered_sampleBlock ext (one_block_lt hn)
  have hcotangent : ∀ n < N, (u.sampleBlock 1 n).shape =
      (steered s groups (x.sampleBlock 1 n) w bias (weights.sampleBlock 1 n)).shape := fun n hn => by
    rw [steered_sampleBlock ext (one_block_lt hn), shape_sampleBlock ext.shape_steered,
      shape_sampleBlock (hu.trans ext.shape_steered)]
  refine ⟨_, _, _, _, _, _, gradients_eq harranged hu, fun n hn => gradients_eq (hsample n hn).1 (hcotangent n hn),
    ?_, kernelAdjoint_eq_sumSamples ext hu, ?_⟩
  · rw [x1, x2, x3]
    refine eq_joinSamples (by rw [Nat.mul_one]; exact (ext.shape_batchAdjoint u).trans ext.batch) fun n hn => ?_
    exact batchAdjoint_sampleBlock ext hu (one_block_lt hn)
  · rw [w0]
    exact biasSums_eq_sumSamples (hu.trans ext.shape_steered)

/-- Aligned arguments have a pass that is put together from the passes of the groups, and from those of the
samples. -/
theorem groups_and_samples_apart (h : Aligned e s groups x map w bias) :
    ∃ (o : Orientation ℝ ℝ) (y : Tensor ℝ) (p : ForwardPass ℝ), forwardPass e s groups x map w bias = .ok (o, y, p) ∧
      GroupsApart e s groups x map w bias o y p ∧ SamplesApart e s groups x map w bias o y p := by
  obtain ⟨o, weights, horient, -, hpass⟩ := h.exists_pass
  exact ⟨o, _, _, hpass, h.groupsApart horient, h.samplesApart horient⟩

theorem groups_and_samples_apart_sample :
    ∃ (o : Orientation ℝ ℝ) (y : Tensor ℝ) (p : ForwardPass ℝ),
      forwardPass ⟨⟨.orientation, "torch", {}⟩, evenSmoother sampleGeometry⟩ sampleGeometry.sweep 2
        (fill [1, 4, 3, 2] 1) (fill [1, 2, 3, 2] 1) (fill [2, 2, 2, 2] 1) (some (fill [2] 1)) = .ok (o, y, p) ∧
      GroupsApart ⟨⟨.orientation, "torch", {}⟩, evenSmoother sampleGeometry⟩ sampleGeometry.sweep 2
        (fill [1, 4, 3, 2] 1) (fill [1, 2, 3, 2] 1) (fill [2, 2, 2, 2] 1) (some (fill [2] 1)) o y p ∧
      SamplesApart ⟨⟨.orientation, "torch", {}⟩, evenSmoother sampleGeometry⟩ sampleGeometry.sweep 2
        (fill [1, 4, 3, 2] 1) (fill [1, 2, 3, 2] 1) (fill [2, 2, 2, 2] 1) (some (fill [2] 1)) o y p :=
  groups_and_samples_apart accepted_sample.aligned

end Apart
end SteeredConv
