/-
# The oriented convolution and its adjoints

For arrays of fitting shapes the oriented convolution is the sum of four correlations,
one for each rotation of the kernel, weighted window by window, with the bias added
once. Its inner product with a cotangent is the inner product of the batch with the
gradient in the batch, and that of the kernel with the gradient in the kernel, each
plus what the bias contributes.

Key definitions: `Arranged`, `steered`, `batchAdjoint`, `kernelAdjoint`, `biasSums`.
Key theorems: `steer_eq`, `gradients_eq`, `at4_kernelAdjoint`, `inner_steered_batch`, `inner_steered_kernel`.
-/
import SteeredConv.Proofs.Adjoint
import SteeredConv.Proofs.Outcome
import SteeredConv.Proofs.Turning

namespace SteeredConv

open Finset Tensor

/-! ### Arrays of fitting shapes -/

/-- Arrays of one oriented convolution: a batch, square kernels, a bias with one entry for every
output channel, and the weights of the four rotations at every window. -/
structure Arranged {α : Type} (s : Sweep) (groups : ℕ) (x w : Tensor α) (bias : Option (Tensor α))
    (weights : Tensor α) : Prop where
  correlates : Correlates s groups x.shape w.shape
  square : IsSquare w.shape
  bias : ∀ b ∈ bias, b.shape = [w.extent 0]
  weights : weights.shape = [x.extent 0, rotations, (s.grid w.area x.area).1, (s.grid w.area x.area).2]

/-- The extents of arranged arrays. -/
structure Extents {α : Type} (s : Sweep) (groups : ℕ) (x w : Tensor α) (bias : Option (Tensor α))
    (weights : Tensor α) (N B P H W k : ℕ) : Prop where
  batch : x.shape = [N, groups * B, H, W]
  kernel : w.shape = [groups * P, B, k, k]
  bias : ∀ b ∈ bias, b.shape = [groups * P]
  weights : weights.shape = [N, 4, (s.grid (k, k) (H, W)).1, (s.grid (k, k) (H, W)).2]
  groups_pos : 0 < groups
  stride_pos : 0 < s.stride.1 ∧ 0 < s.stride.2

section Shapes

variable {α : Type} {s : Sweep} {groups : ℕ} {x w weights : Tensor α} {bias : Option (Tensor α)}

theorem Arranged.extents (h : Arranged s groups x w bias weights) :
    ∃ N B P H W k, Extents s groups x w bias weights N B P H W k := by
  obtain ⟨N, B, P, H, W, a, b, hx, hw, hG, hs⟩ := h.correlates.extents
  have hab : a = b := by
    have := h.square
    rw [hw] at this
    exact this
  subst hab
  refine ⟨N, B, P, H, W, a, hx, hw, ?_, ?_, hG, hs⟩
  · obtain ⟨w0, -, -, -⟩ := Tensor.extents hw
    rw [← w0]
    exact h.bias
  · obtain ⟨x0, -, -, -⟩ := Tensor.extents hx
    rw [h.weights, x0, area_batch hx, area_batch hw]
    rfl

theorem Extents.congr {N B P H W k : ℕ} (e : Extents s groups x w bias weights N B P H W k)
    {x' w' : Tensor α} {bias' : Option (Tensor α)} (hx : x'.shape = x.shape) (hw : w'.shape = w.shape)
    (hb : ∀ b ∈ bias', b.shape = [groups * P]) : Extents s groups x' w' bias' weights N B P H W k where
  batch := hx.trans e.batch
  kernel := hw.trans e.kernel
  bias := hb
  weights := e.weights
  groups_pos := e.groups_pos
  stride_pos := e.stride_pos

end Shapes

/-! ### Weighting window by window -/

section Weighting

variable {R : Type} [CommSemiring R]

/-- A batch weighted at every window with the weights of one rotation. -/
def weighted (y weights : Tensor R) (r : ℕ) : Tensor R :=
  ofImages (y.extent 0) (y.extent 1) (y.extent 2) (y.extent 3) fun n c i j =>
    y.at4 n c i j * weights.at4 n r i j

theorem shape_weighted {y : Tensor R} {N C I J : ℕ} (hy : y.shape = [N, C, I, J]) (weights : Tensor R)
    (r : ℕ) : (weighted y weights r).shape = [N, C, I, J] := by
  obtain ⟨e0, e1, e2, e3⟩ := Tensor.extents hy
  unfold weighted
  rw [e0, e1, e2, e3, shape_ofImages]

theorem at4_weighted {y : Tensor R} {N C I J : ℕ} (hy : y.shape = [N, C, I, J]) (weights : Tensor R)
    (r : ℕ) {n c i j : ℕ} (hn : n < N) (hc : c < C) (hi : i < I) (hj : j < J) :
    (weighted y weights r).at4 n c i j = y.at4 n c i j * weights.at4 n r i j := by
  obtain ⟨e0, e1, e2, e3⟩ := Tensor.extents hy
  unfold weighted
  rw [e0, e1, e2, e3, at4_ofImages hn hc hi hj]

theorem inner_weighted {y g : Tensor R} {N C I J : ℕ} (hy : y.shape = [N, C, I, J])
    (hg : g.shape = [N, C, I, J]) (weights : Tensor R) (r : ℕ) :
    (weighted y weights r).inner g = y.inner (weighted g weights r) := by
  rw [inner_eq_sum (shape_weighted hy weights r) hg, inner_eq_sum hy (shape_weighted hg weights r)]
  refine sum_congr rfl fun n hn => sum_congr rfl fun c hc => sum_congr rfl fun p hp => ?_
  rw [mem_range] at hn hc
  rw [mem_cells] at hp
  rw [at4_weighted hy weights r hn hc hp.1 hp.2, at4_weighted hg weights r hn hc hp.1 hp.2]
  ring

theorem sharedIndex_of_lt {extent i : ℕ} (h : i < extent) : sharedIndex extent i = i := by
  unfold sharedIndex
  split
  · omega
  · rfl

/-- A batch times one channel of the weights. -/
theorem combine_channel {y weights : Tensor R} {N C I J : ℕ} (hy : y.shape = [N, C, I, J])
    (hq : weights.shape = [N, 4, I, J]) (r : ℕ) :
    combine? (· * ·) y (weights.channel r) = some (weighted y weights r) := by
  obtain ⟨y0, y1, y2, y3⟩ := Tensor.extents hy
  obtain ⟨q0, q1, q2, q3⟩ := Tensor.extents hq
  have hch : (weights.channel r).shape = [N, 1, I, J] := by
    unfold channel
    rw [q0, q2, q3, shape_ofImages]
  obtain ⟨c0, c1, c2, c3⟩ := Tensor.extents hch
  unfold combine?
  rw [y0, y1, y2, y3, c0, c1, c2, c3]
  have same : ∀ a, commonExtent? a a = some a := fun a => if_pos (Or.inl rfl)
  have one : commonExtent? C 1 = some C := if_pos (Or.inr rfl)
  simp only [same, one, Option.bind_eq_bind, Option.bind_some, Option.pure_def, Option.some.injEq]
  unfold weighted
  rw [y0, y1, y2, y3]
  refine ofImages_congr fun n hn c hc i hi j hj => ?_
  unfold shared
  rw [y0, y1, y2, y3, c0, c1, c2, c3, sharedIndex_of_lt hn, sharedIndex_of_lt hc,
    sharedIndex_of_lt hi, sharedIndex_of_lt hj, show sharedIndex 1 c = 0 from rfl]
  congr 1
  unfold channel
  rw [q0, q2, q3, at4_ofImages hn (by omega) hi hj]

/-- A batch with the bias of each output channel added. -/
def withBias (y : Tensor R) (bias : Option (Tensor R)) : Tensor R :=
  match bias with
  | none => y
  | some b => ofImages (y.extent 0) (y.extent 1) (y.extent 2) (y.extent 3) fun n c i j =>
    y.at4 n c i j + b.flat c

theorem combine_bias {y b : Tensor R} {N C I J : ℕ} (hy : y.shape = [N, C, I, J])
    (hb : b.shape = [C]) : combine? (· + ·) y (biasImage b) = some (withBias y (some b)) := by
  obtain ⟨y0, y1, y2, y3⟩ := Tensor.extents hy
  have hbi : (biasImage b).shape = [1, C, 1, 1] := by
    unfold biasImage
    rw [shape_ofImages, size, hb]
    simp
  obtain ⟨c0, c1, c2, c3⟩ := Tensor.extents hbi
  unfold combine?
  rw [y0, y1, y2, y3, c0, c1, c2, c3]
  have same : commonExtent? C C = some C := if_pos (Or.inl rfl)
  have one : ∀ a, commonExtent? a 1 = some a := fun a => if_pos (Or.inr rfl)
  simp only [same, one, Option.bind_eq_bind, Option.bind_some, Option.pure_def, Option.some.injEq]
  unfold withBias
  rw [y0, y1, y2, y3]
  refine ofImages_congr fun n hn c hc i hi j hj => ?_
  unfold shared
  rw [y0, y1, y2, y3, c0, c1, c2, c3, sharedIndex_of_lt hn, sharedIndex_of_lt hc,
    sharedIndex_of_lt hi, sharedIndex_of_lt hj]
  congr 1
  unfold biasImage
  have hsize : b.size = C := by
    rw [size, hb]
    simp
  rw [hsize]
  exact at4_ofImages (by exact Nat.one_pos) hc (by exact Nat.one_pos) (by exact Nat.one_pos)

theorem shape_withBias {y : Tensor R} {N C I J : ℕ} (hy : y.shape = [N, C, I, J])
    (bias : Option (Tensor R)) : (withBias y bias).shape = [N, C, I, J] := by
  obtain ⟨y0, y1, y2, y3⟩ := Tensor.extents hy
  cases bias with
  | none => exact hy
  | some b =>
    unfold withBias
    rw [y0, y1, y2, y3, shape_ofImages]

theorem at4_withBias {y : Tensor R} {N C I J : ℕ} (hy : y.shape = [N, C, I, J]) (bias : Option (Tensor R))
    {n c i j : ℕ} (hn : n < N) (hc : c < C) (hi : i < I) (hj : j < J) :
    (withBias y bias).at4 n c i j = y.at4 n c i j + bias.elim 0 fun b => b.flat c := by
  cases bias with
  | none => exact (add_zero _).symm
  | some b =>
    obtain ⟨y0, y1, y2, y3⟩ := Tensor.extents hy
    unfold withBias
    rw [y0, y1, y2, y3, at4_ofImages hn hc hi hj]
    rfl

/-- The sum of a batch over its samples and cells, channel by channel. -/
def biasSums (g : Tensor R) : Tensor R :=
  ofFlat [g.extent 1] fun o => sumTo (g.extent 0) fun n => sumTaps g.area fun i j => g.at4 n o i j

theorem flat_biasSums {g : Tensor R} {N C I J : ℕ} (hg : g.shape = [N, C, I, J]) {c : ℕ} (hc : c < C) :
    (biasSums g).flat c = ∑ n ∈ range N, ∑ p ∈ cells (I, J), g.at4 n c p.1 p.2 := by
  obtain ⟨g0, g1, -, -⟩ := Tensor.extents hg
  unfold biasSums
  rw [flat_ofFlat (by simpa [g1] using hc), sumTo_eq_sum, g0, area_batch hg]
  exact sum_congr rfl fun n _ => sumTaps_eq_sum _ _

/-- The bias meets the sum of the cotangent in its channel. -/
theorem inner_withBias {y g : Tensor R} {N C I J : ℕ} (hy : y.shape = [N, C, I, J])
    (hg : g.shape = [N, C, I, J]) {bias : Option (Tensor R)} (hb : ∀ b ∈ bias, b.shape = [C]) :
    (withBias y bias).inner g = y.inner g + bias.elim 0 fun b => b.inner (biasSums g) := by
  cases bias with
  | none => exact (add_zero _).symm
  | some b =>
    have hbs : b.size = C := by
      rw [size, hb b rfl]
      simp
    have hsum : b.inner (biasSums g) =
        ∑ c ∈ range C, b.flat c * ∑ n ∈ range N, ∑ p ∈ cells (I, J), g.at4 n c p.1 p.2 := by
      rw [inner_eq_sum_flat, hbs]
      exact sum_congr rfl fun c hc => by rw [flat_biasSums hg (mem_range.mp hc)]
    show (withBias y (some b)).inner g = y.inner g + b.inner (biasSums g)
    rw [inner_eq_sum (shape_withBias hy (some b)) hg, inner_eq_sum hy hg, hsum]
    have terms : ∀ n ∈ range N, ∀ c ∈ range C, ∀ p ∈ cells (I, J),
        (withBias y (some b)).at4 n c p.1 p.2 * g.at4 n c p.1 p.2 =
          y.at4 n c p.1 p.2 * g.at4 n c p.1 p.2 + b.flat c * g.at4 n c p.1 p.2 := by
      intro n hn c hc p hp
      rw [mem_range] at hn hc
      rw [mem_cells] at hp
      rw [at4_withBias hy (some b) hn hc hp.1 hp.2, Option.elim_some, add_mul]
    rw [sum_congr rfl fun n hn => sum_congr rfl fun c hc => sum_congr rfl fun p hp =>
      terms n hn c hc p hp]
    simp only [sum_add_distrib, mul_sum]
    rw [sum_comm (s := range N) (t := range C) (f := fun n c => ∑ p ∈ cells (I, J), b.flat c * _)]

end Weighting

/-! ### The convolution and its gradients -/

section Steered

variable {R : Type} [CommSemiring R]

/-- The sum of the weighted responses to the four rotations of a kernel. -/
def blended (s : Sweep) (groups : ℕ) (x w weights : Tensor R) : Tensor R :=
  fourfold fun r => weighted (correlate s groups x (turned r w)) weights r

/-- The blended responses with the bias. -/
def steered (s : Sweep) (groups : ℕ) (x w : Tensor R) (bias : Option (Tensor R)) (weights : Tensor R) :
    Tensor R :=
  withBias (blended s groups x w weights) bias

/-- The gradient in a batch of the given shape for a cotangent. -/
def batchAdjoint (s : Sweep) (groups : ℕ) (shape : List ℕ) (w weights g : Tensor R) : Tensor R :=
  fourfold fun r => correlateInput s groups shape (turned r w) (weighted g weights r)

/-- The gradient in the kernels for a cotangent. -/
def kernelAdjoint (s : Sweep) (groups : ℕ) (shape : List ℕ) (x weights g : Tensor R) : Tensor R :=
  let part (r : ℕ) : Tensor R := correlateKernel s groups shape x (weighted g weights r)
  foldBank (stack shape [part 0, part 1, part 2, part 3])

variable {s : Sweep} {groups : ℕ} {x w weights g : Tensor R} {bias : Option (Tensor R)}
  {N B P H W k : ℕ}

theorem Extents.response (h : Extents s groups x w bias weights N B P H W k) (r : ℕ) :
    (correlate s groups x (turned r w)).shape =
      [N, groups * P, (s.grid (k, k) (H, W)).1, (s.grid (k, k) (H, W)).2] := by
  rw [shape_correlate, shape_turned, h.batch, h.kernel]
  rfl

theorem Extents.shape_blended (h : Extents s groups x w bias weights N B P H W k) :
    (blended s groups x w weights).shape =
      [N, groups * P, (s.grid (k, k) (H, W)).1, (s.grid (k, k) (H, W)).2] :=
  shape_weighted (h.response 0) weights 0

theorem Extents.shape_steered (h : Extents s groups x w bias weights N B P H W k) :
    (steered s groups x w bias weights).shape =
      [N, groups * P, (s.grid (k, k) (H, W)).1, (s.grid (k, k) (H, W)).2] :=
  shape_withBias h.shape_blended bias

theorem Extents.share (h : Extents s groups x w bias weights N B P H W k)
    (hg : g.shape = (steered s groups x w bias weights).shape) (r : ℕ) :
    (weighted g weights r).shape = correlationShape s x.shape (turned r w).shape :=
  (shape_weighted (hg.trans h.shape_steered) weights r).trans (h.response r).symm

/-- Arranged arrays are convolved. -/
theorem steer_eq (h : Arranged s groups x w bias weights) :
    steer s groups x w bias weights = .ok (steered s groups x w bias weights) := by
  obtain ⟨N, B, P, H, W, k, e⟩ := h.extents
  have hresponse : ∀ r, weightedResponse s groups x w weights r =
      .ok (weighted (correlate s groups x (turned r w)) weights r) := fun r => by
    unfold weightedResponse correlate?
    rw [if_pos (by exact h.correlates), ok_bind, combine_channel (e.response r) e.weights]
    rfl
  have hsum : steeredSum s groups x w weights = .ok (blended s groups x w weights) := by
    unfold steeredSum
    simp only [hresponse, ok_bind]
    rfl
  unfold steer requireSquare
  rw [if_pos h.square, toImages?_batch e.batch, fitting_some, ok_bind, ok_bind, hsum, ok_bind]
  cases hb : bias with
  | none => rfl
  | some b =>
    dsimp only
    rw [combine_bias e.shape_blended (e.bias b hb)]
    rfl

/-- A gradient, if it is asked for. -/
def ifAsked (asked : Bool) (a : Except Fault (Tensor R)) : Except Fault (Option (Tensor R)) :=
  if asked then some <$> a else .ok none

/-- Once the cotangent is weighted for every rotation, the gradients are computed one after the other. -/
theorem ForwardPass.gradients_eq_bind {p : ForwardPass R} {u : Tensor R} {C I J : ℕ} {v : ℕ → Tensor R}
    (hu : u.shape = [N, C, I, J]) (hshare : ∀ r, p.share u r = .ok (v r)) (requested : Requested) :
    p.gradients requested u =
      ifAsked requested.input (p.inputGradient u) >>= fun input =>
        ifAsked requested.weight (p.weightGradient u) >>= fun weight =>
          ifAsked requested.bias (biasGradient u) >>= fun bias => .ok ⟨input, weight, bias⟩ := by
  have hrange : List.range rotations = [0, 1, 2, 3] := rfl
  unfold ForwardPass.gradients
  rw [toImages?_batch hu, fitting_some, ok_bind, hrange]
  simp only [List.forIn_cons, List.forIn_nil, hshare, ok_bind, pure_bind]
  obtain ⟨input, weight, bias⟩ := requested
  cases input <;> cases weight <;> cases bias <;> rfl

/-- The gradients of arranged arrays are the adjoints that are asked for. -/
theorem gradients_eq (h : Arranged s groups x w bias weights)
    (hg : g.shape = (steered s groups x w bias weights).shape) (requested : Requested) :
    (⟨x, w, weights, s, groups⟩ : ForwardPass R).gradients requested g = .ok
      { input := if requested.input then some (batchAdjoint s groups x.shape w weights g) else none
        weight := if requested.weight then some (kernelAdjoint s groups w.shape x weights g) else none
        bias := if requested.bias then some (biasSums g) else none } := by
  obtain ⟨N, B, P, H, W, k, e⟩ := h.extents
  have hgr := e.share hg
  rw [e.shape_steered] at hg
  set p : ForwardPass R := ⟨x, w, weights, s, groups⟩ with hp
  have hshare : ∀ r, p.share g r = .ok (weighted g weights r) := fun r => by
    unfold ForwardPass.share
    rw [combine_channel hg e.weights]
    rfl
  have hbatch : p.inputGradient g = .ok (batchAdjoint s groups x.shape w weights g) := by
    have : ∀ r, p.inputShare g r =
        .ok (correlateInput s groups x.shape (turned r w) (weighted g weights r)) := fun r => by
      unfold ForwardPass.inputShare correlateInput?
      rw [hshare, ok_bind, if_pos (by exact ⟨h.correlates, hgr r⟩)]
    unfold ForwardPass.inputGradient
    simp only [this, ok_bind]
    rfl
  have hkernel : p.weightGradient g = .ok (kernelAdjoint s groups w.shape x weights g) := by
    have : ∀ r, p.weightShare g r = .ok (correlateKernel s groups w.shape x (weighted g weights r)) :=
      fun r => by
      unfold ForwardPass.weightShare correlateKernel?
      rw [hshare, ok_bind, if_pos (by exact ⟨h.correlates, hgr r⟩)]
    unfold ForwardPass.weightGradient
    simp only [this, ok_bind]
    rfl
  have hbias : biasGradient g = .ok (biasSums g) := by
    unfold biasGradient
    rw [if_neg (by simp [rank, hg])]
    rfl
  rw [ForwardPass.gradients_eq_bind hg hshare, hbatch, hkernel, hbias]
  obtain ⟨i, v, b⟩ := requested
  cases i <;> cases v <;> cases b <;> rfl

theorem Extents.shape_batchAdjoint (e : Extents s groups x w bias weights N B P H W k) (g : Tensor R) :
    (batchAdjoint s groups x.shape w weights g).shape = x.shape :=
  shape_correlateInput s groups e.batch (turned 0 w) (weighted g weights 0)

theorem shape_kernelAdjoint (s : Sweep) (groups : ℕ) (shape : List ℕ) (x weights g : Tensor R) :
    (kernelAdjoint s groups shape x weights g).shape = shape := rfl

theorem kernelAdjoint_eq (e : Extents s groups x w bias weights N B P H W k) (g : Tensor R) :
    kernelAdjoint s groups w.shape x weights g =
      fourfold fun r => turnedBack r (correlateKernel s groups w.shape x (weighted g weights r)) := by
  unfold kernelAdjoint
  dsimp only
  rw [foldBank_eq]
  refine fourfold_congr fun r hr => ?_
  rw [slice_stack (f := fun r => correlateKernel s groups w.shape x (weighted g weights r))
    (fun r _ => shape_correlateKernel s groups x _ e.kernel) hr]

/-- An entry of the gradient in the kernels comes from the entries that the rotations take there. -/
theorem at4_kernelAdjoint (e : Extents s groups x w bias weights N B P H W k) (g : Tensor R) {o c : ℕ}
    (ho : o < groups * P) (hc : c < B) {p : ℕ × ℕ} (hp : p ∈ cells (k, k)) :
    (kernelAdjoint s groups w.shape x weights g).at4 o c p.1 p.2 =
      ∑ r ∈ range 4, (correlateKernel s groups w.shape x (weighted g weights r)).at4 o c
        (turnedSource k (turnsOf (-(r : ℤ))) p).1 (turnedSource k (turnsOf (-(r : ℤ))) p).2 := by
  have hpart : ∀ r, (correlateKernel s groups w.shape x (weighted g weights r)).shape = [groups * P, B, k, k] :=
    fun r => (shape_correlateKernel s groups x _ e.kernel).trans e.kernel
  have hback : ∀ r, (turnedBack r (correlateKernel s groups w.shape x (weighted g weights r))).at4 o c p.1 p.2 = _ :=
    fun r => at4_turned (hpart r) (turnsOf (-(r : ℤ))) ho hc hp
  obtain ⟨hi, hj⟩ := mem_cells.mp hp
  rw [kernelAdjoint_eq e, at4_fourfold
    (f := fun r => turnedBack r (correlateKernel s groups w.shape x (weighted g weights r)))
    (fun r _ => hpart r) ho hc hi hj]
  simp only [hback, sum_range_succ, sum_range_zero, zero_add]

/-- The gradient in the batch is zero on rows and columns that no window reaches. -/
theorem at4_batchAdjoint_of_unreached (e : Extents s groups x w bias weights N B P H W k)
    (hg : g.shape = (steered s groups x w bias weights).shape) {n c u v : ℕ}
    (hout : ¬Reached (s.grid (k, k) (H, W)).1 k s.stride.1 s.pad.1 u ∨
      ¬Reached (s.grid (k, k) (H, W)).2 k s.stride.2 s.pad.2 v) :
    (batchAdjoint s groups x.shape w weights g).at4 n c u v = 0 := by
  have hpart : ∀ r, (correlateInput s groups x.shape (turned r w) (weighted g weights r)).at4 n c u v = 0 :=
    fun r => at4_correlateInput_of_unreached e.batch (show (turned r w).shape = _ from e.kernel) e.stride_pos
      (e.share hg r) hout
  have hshape := (e.shape_batchAdjoint g).trans e.batch
  by_cases hin : n < N ∧ c < groups * B ∧ u < H ∧ v < W
  · obtain ⟨hn, hc, hu, hv⟩ := hin
    unfold batchAdjoint
    rw [at4_fourfold (fun r _ => (shape_correlateInput s groups e.batch _ _).trans e.batch) hn hc hu hv,
      hpart, hpart, hpart, hpart, add_zero, add_zero, add_zero]
  · exact at4_of_not hshape hin

/-- A convolution paired with a cotangent is the batch paired with its gradient, and the bias. -/
theorem inner_steered_batch (e : Extents s groups x w bias weights N B P H W k)
    (hg : g.shape = (steered s groups x w bias weights).shape) :
    (steered s groups x w bias weights).inner g =
      x.inner (batchAdjoint s groups x.shape w weights g) +
        bias.elim 0 fun b => b.inner (biasSums g) := by
  have hgr := e.share hg
  rw [e.shape_steered] at hg
  have hwr : ∀ r, (turned r w).shape = [groups * P, B, k, k] := fun r => e.kernel
  have hin : ∀ r < 4, (correlateInput s groups x.shape (turned r w) (weighted g weights r)).shape =
      x.shape := fun r _ => shape_correlateInput s groups e.batch _ _
  have hfour : (batchAdjoint s groups x.shape w weights g).shape = x.shape := hin 0 (by omega)
  unfold steered
  rw [inner_withBias e.shape_blended hg e.bias, inner_comm hfour.symm]
  congr 1
  unfold blended batchAdjoint
  rw [inner_fourfold fun r _ => shape_weighted (e.response r) weights r]
  rw [inner_fourfold hin]
  refine sum_congr rfl fun r hr => ?_
  rw [mem_range] at hr
  rw [inner_weighted (e.response r) hg, inner_correlate_input e.batch (hwr r) e.groups_pos e.stride_pos
    (hgr r), inner_comm (hin r hr)]

/-- A convolution paired with a cotangent is the kernel paired with its gradient, and the bias. -/
theorem inner_steered_kernel (e : Extents s groups x w bias weights N B P H W k)
    (hg : g.shape = (steered s groups x w bias weights).shape) :
    (steered s groups x w bias weights).inner g =
      w.inner (kernelAdjoint s groups w.shape x weights g) +
        bias.elim 0 fun b => b.inner (biasSums g) := by
  have hgr := e.share hg
  rw [e.shape_steered] at hg
  have hwr : ∀ r, (turned r w).shape = [groups * P, B, k, k] := fun r => e.kernel
  have hpart : ∀ r < 4, (correlateKernel s groups w.shape x (weighted g weights r)).shape = w.shape :=
    fun r _ => shape_correlateKernel s groups x _ e.kernel
  have hstack : (stack w.shape [correlateKernel s groups w.shape x (weighted g weights 0),
      correlateKernel s groups w.shape x (weighted g weights 1),
      correlateKernel s groups w.shape x (weighted g weights 2),
      correlateKernel s groups w.shape x (weighted g weights 3)]).shape = 4 :: w.shape := rfl
  unfold steered
  rw [inner_withBias e.shape_blended hg e.bias]
  congr 1
  unfold blended kernelAdjoint
  rw [inner_fourfold fun r _ => shape_weighted (e.response r) weights r, inner_foldBank e.kernel hstack]
  refine sum_congr rfl fun r hr => ?_
  rw [mem_range] at hr
  rw [slice_stack (f := fun r => correlateKernel s groups w.shape x (weighted g weights r)) hpart hr,
    inner_weighted (e.response r) hg, inner_correlate_kernel e.batch (hwr r) (hgr r), shape_turned]

end Steered
end SteeredConv
