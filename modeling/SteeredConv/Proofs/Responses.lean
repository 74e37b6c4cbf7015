/-
# The output at a window

An entry of the output is the sum, over the four rotations, of the response there times the weight
there, plus the bias of its channel. Whether there is an output, and its shape, is decided by the
shapes of the arrays alone, so two convolutions of arrays of the same shapes agree at every window
where these sums agree.

Key definitions: `blendAt`, `Blends`, `Tensor.Holds`, `offset`, `vectorAt`, `Aligned`.
Key theorems: `steeredSum_eq_ok_iff`, `steer_congr`, `at4_output`, `orient_eq_ok`, `at4_weights`,
`at4_sinesAndCosines`, `Aligned.forwardPass_eq`, `Aligned.exists_pass`.
-/
import SteeredConv.Proofs.ConvolutionGradient
import SteeredConv.Proofs.QuarterTurns

namespace SteeredConv

open Finset Tensor

/-! ### Batches side by side -/

section Batches

theorem fitting_eq_ok_iff {β : Type} {x : Option β} {b : β} : fitting x = .ok b ↔ x = some b := by
  cases x <;> simp [fitting]

variable {α β γ : Type} [Zero α] [Zero β]

/-- Two batches that are combined have a common extent along each axis. -/
theorem combine?_eq_some_iff {f : α → β → γ} {s : Tensor α} {t : Tensor β} {u : Tensor γ} :
    combine? f s t = some u ↔ ∃ N C I J, commonExtent? (s.extent 0) (t.extent 0) = some N ∧
      commonExtent? (s.extent 1) (t.extent 1) = some C ∧ commonExtent? (s.extent 2) (t.extent 2) = some I ∧
      commonExtent? (s.extent 3) (t.extent 3) = some J ∧
      u = ofImages N C I J fun n c i j => f (s.shared n c i j) (t.shared n c i j) := by
  unfold combine?
  simp only [Option.bind_eq_bind, Option.bind_eq_some_iff, Option.pure_def, Option.some.injEq]
  constructor
  · rintro ⟨N, hN, C, hC, I, hI, J, hJ, rfl⟩
    exact ⟨N, C, I, J, hN, hC, hI, hJ, rfl⟩
  · rintro ⟨N, C, I, J, hN, hC, hI, hJ, rfl⟩
    exact ⟨N, hN, C, hC, I, hI, J, hJ, rfl⟩

theorem commonExtent?_one (a : ℕ) : commonExtent? a 1 = some a := if_pos (Or.inr rfl)

/-- A bias has a common extent with the channels, and is the same at every window of every sample. -/
theorem combine_biasImage_eq_some_iff [Add α] {t b y : Tensor α} : combine? (· + ·) t (biasImage b) = some y ↔
    ∃ C, commonExtent? (t.extent 1) ((biasImage b).extent 1) = some C ∧
      y = ofImages (t.extent 0) C (t.extent 2) (t.extent 3) fun n c i j =>
        t.shared n c i j + (biasImage b).shared n c i j := by
  rw [combine?_eq_some_iff]
  constructor
  · rintro ⟨N, C, I, J, hN, hC, hI, hJ, rfl⟩
    obtain rfl : t.extent 0 = N := Option.some.inj ((commonExtent?_one _).symm.trans hN)
    obtain rfl : t.extent 2 = I := Option.some.inj ((commonExtent?_one _).symm.trans hI)
    obtain rfl : t.extent 3 = J := Option.some.inj ((commonExtent?_one _).symm.trans hJ)
    exact ⟨C, hC, rfl⟩
  · rintro ⟨C, hC, rfl⟩
    exact ⟨_, C, _, _, commonExtent?_one _, hC, commonExtent?_one _, commonExtent?_one _, rfl⟩

theorem zipWith_ofImages [Zero γ] (f : α → β → γ) (N C I J : ℕ) (a : ℕ → ℕ → ℕ → ℕ → α) (b : ℕ → ℕ → ℕ → ℕ → β) :
    zipWith f (ofImages N C I J a) (ofImages N C I J b) =
      ofImages N C I J fun n c i j => f (a n c i j) (b n c i j) := by
  refine ext_flat rfl fun i hi => ?_
  have hi' : i < volume [N, C, I, J] := hi
  rw [flat_zipWith (by exact hi')]
  unfold ofImages
  rw [flat_ofFlat hi', flat_ofFlat hi', flat_ofFlat hi']

theorem at4_channel (t : Tensor α) (c n i j : ℕ) : (t.channel c).at4 n 0 i j = t.at4 n c i j := by
  have hchannel : (t.channel c).shape = [t.extent 0, 1, t.extent 2, t.extent 3] := rfl
  by_cases hin : n < t.extent 0 ∧ i < t.extent 2 ∧ j < t.extent 3
  · obtain ⟨hn, hi, hj⟩ := hin
    exact at4_ofImages hn Nat.one_pos hi hj
  · rw [at4_of_not hchannel (by omega)]
    unfold at4
    rw [if_neg (by omega)]

theorem shared_channel {t : Tensor α} (ht : t.extent 1 ≠ 1) (c n o i j : ℕ) :
    (t.channel c).shared n o i j = t.shared n c i j := by
  have hone : sharedIndex ((t.channel c).extent 1) o = 0 := rfl
  have hown : sharedIndex (t.extent 1) c = c := if_neg ht
  unfold shared
  rw [hone, at4_channel, hown]
  rfl

end Batches

/-! ### The sum over the rotations -/

/-- Shapes of a batch, kernels and weights for which the responses are blended. -/
structure Blends {α : Type} (s : Sweep) (groups : ℕ) (x w q : Tensor α) (N I J : ℕ) : Prop where
  correlates : Correlates s groups x.shape w.shape
  samples : commonExtent? (x.extent 0) (q.extent 0) = some N
  rows : commonExtent? (s.grid w.area x.area).1 (q.extent 2) = some I
  columns : commonExtent? (s.grid w.area x.area).2 (q.extent 3) = some J

theorem Blends.congr {α : Type} {s : Sweep} {groups : ℕ} {x w w' q q' : Tensor α} {N I J : ℕ}
    (h : Blends s groups x w q N I J) (hw : w'.shape = w.shape) (hq : q'.shape = q.shape) :
    Blends s groups x w' q' N I J where
  correlates := by rw [hw]; exact h.correlates
  samples := by unfold extent; rw [hq]; exact h.samples
  rows := by unfold area extent; rw [hw, hq]; exact h.rows
  columns := by unfold area extent; rw [hw, hq]; exact h.columns

section Blend

variable {R : Type} [CommSemiring R] {s : Sweep} {groups : ℕ} {x w w' q q' : Tensor R}

/-- The responses of the four rotations at a window, each with its weight there. -/
def blendAt (s : Sweep) (groups : ℕ) (x w q : Tensor R) (n o i j : ℕ) : R :=
  ∑ r ∈ range 4, (correlate s groups x (turned r w)).shared n o i j * q.shared n r i j

theorem weightedResponse_eq_ok_iff (hq : q.extent 1 = 4) {r : ℕ} {t : Tensor R} :
    weightedResponse s groups x w q r = .ok t ↔ ∃ N I J, Blends s groups x w q N I J ∧
      t = ofImages N (w.extent 0) I J fun n o i j =>
        (correlate s groups x (turned r w)).shared n o i j * q.shared n r i j := by
  have hchannel : q.extent 1 ≠ 1 := by omega
  unfold weightedResponse correlate?
  rw [bind_eq_ok_iff]
  constructor
  · rintro ⟨response, hresponse, h⟩
    split_ifs at hresponse with hc
    obtain rfl := Except.ok.inj hresponse
    obtain ⟨N, C, I, J, hN, hC, hI, hJ, rfl⟩ := combine?_eq_some_iff.mp (fitting_eq_ok_iff.mp h)
    obtain rfl : w.extent 0 = C := Option.some.inj ((commonExtent?_one _).symm.trans hC)
    refine ⟨N, I, J, ⟨hc, hN, hI, hJ⟩, ?_⟩
    simp only [shared_channel hchannel]
  · rintro ⟨N, I, J, ⟨hc, hN, hI, hJ⟩, rfl⟩
    refine ⟨_, if_pos (by exact hc), fitting_eq_ok_iff.mpr (combine?_eq_some_iff.mpr
      ⟨N, w.extent 0, I, J, hN, commonExtent?_one _, hI, hJ, ?_⟩)⟩
    simp only [shared_channel hchannel]

/-- The responses are blended exactly if the shapes fit. -/
theorem steeredSum_eq_ok_iff (hq : q.extent 1 = 4) {t : Tensor R} :
    steeredSum s groups x w q = .ok t ↔ ∃ N I J, Blends s groups x w q N I J ∧
      t = ofImages N (w.extent 0) I J (blendAt s groups x w q) := by
  -- with the shapes given every rotation responds
  have hsum : ∀ N I J, Blends s groups x w q N I J →
      steeredSum s groups x w q = .ok (ofImages N (w.extent 0) I J (blendAt s groups x w q)) := by
    intro N I J hb
    have hresponse : ∀ r, weightedResponse s groups x w q r = .ok (ofImages N (w.extent 0) I J fun n o i j =>
        (correlate s groups x (turned r w)).shared n o i j * q.shared n r i j) := fun r =>
      (weightedResponse_eq_ok_iff hq).mpr ⟨N, I, J, hb, rfl⟩
    unfold steeredSum
    simp only [hresponse, ok_bind, zipWith_ofImages]
    unfold blendAt
    simp only [sum_range_succ, sum_range_zero, zero_add]
    rfl
  constructor
  · intro h
    obtain ⟨p, hp, -⟩ := bind_eq_ok_iff.mp h
    obtain ⟨N, I, J, hb, -⟩ := (weightedResponse_eq_ok_iff hq).mp hp
    exact ⟨N, I, J, hb, Except.ok.inj (h.symm.trans (hsum N I J hb))⟩
  · rintro ⟨N, I, J, hb, rfl⟩
    exact hsum N I J hb

/-- Blends of arrays of the same shapes agree at a window if their sums over the rotations do. -/
theorem steeredSum_congr (hq : q.extent 1 = 4) (hw : w'.shape = w.shape) (hq' : q'.shape = q.shape)
    {t : Tensor R} (h : steeredSum s groups x w q = .ok t) : ∃ t', steeredSum s groups x w' q' = .ok t' ∧
      t'.shape = t.shape ∧ ∀ n i j, (∀ o, blendAt s groups x w' q' n o i j = blendAt s groups x w q n o i j) →
        ∀ o, t'.at4 n o i j = t.at4 n o i j := by
  have hq1 : q'.extent 1 = 4 := by
    unfold extent
    rw [hq']
    exact hq
  have hw0 : w'.extent 0 = w.extent 0 := by
    unfold extent
    rw [hw]
  obtain ⟨N, I, J, hb, rfl⟩ := (steeredSum_eq_ok_iff hq).mp h
  refine ⟨_, (steeredSum_eq_ok_iff hq1).mpr ⟨N, I, J, hb.congr hw hq', rfl⟩, ?_, fun n i j hat o => ?_⟩
  · rw [shape_ofImages, shape_ofImages, hw0]
  · rw [hw0]
    by_cases hin : n < N ∧ o < w.extent 0 ∧ i < I ∧ j < J
    · obtain ⟨hn, ho, hi, hj⟩ := hin
      rw [at4_ofImages hn ho hi hj, at4_ofImages hn ho hi hj, hat o]
    · rw [at4_of_not (shape_ofImages _ _ _ _ _) hin, at4_of_not (shape_ofImages _ _ _ _ _) hin]

/-- An output is the blended responses with the bias added, if there is one. -/
def Biased (bias : Option (Tensor R)) (t y : Tensor R) : Prop :=
  match bias with
  | none => t = y
  | some b => combine? (· + ·) t (biasImage b) = some y

/-- A convolution succeeds exactly if the kernels are square, the responses are blended and the bias
fits. -/
theorem steer_eq_ok_iff {bias : Option (Tensor R)} {y : Tensor R} : steer s groups x w bias q = .ok y ↔
    IsSquare w.shape ∧ ∃ x₁ t, x.toImages? = some x₁ ∧ steeredSum s groups x₁ w q = .ok t ∧ Biased bias t y := by
  unfold steer requireSquare
  constructor
  · intro h
    obtain ⟨_, hsquare, h⟩ := bind_eq_ok_iff.mp h
    obtain ⟨x₁, hx₁, h⟩ := bind_eq_ok_iff.mp h
    obtain ⟨t, ht, h⟩ := bind_eq_ok_iff.mp h
    split_ifs at hsquare with hsq
    refine ⟨hsq, x₁, t, fitting_eq_ok_iff.mp hx₁, ht, ?_⟩
    cases bias with
    | none => exact Except.ok.inj h
    | some b => exact fitting_eq_ok_iff.mp h
  · rintro ⟨hsq, x₁, t, hx₁, ht, hbias⟩
    rw [if_pos hsq, ok_bind, hx₁, fitting_some, ok_bind, ht, ok_bind]
    cases bias with
    | none => exact congrArg Except.ok hbias
    | some b => exact fitting_eq_ok_iff.mpr hbias

/-- Adding a bias keeps what two outputs of one shape have in common. -/
theorem Biased.congr {bias : Option (Tensor R)} {t t' y : Tensor R} (h : Biased bias t y)
    (ht : t'.shape = t.shape) : ∃ y', Biased bias t' y' ∧ y'.shape = y.shape ∧
      ∀ n i j, (∀ o, t'.at4 n o i j = t.at4 n o i j) → ∀ o, y'.at4 n o i j = y.at4 n o i j := by
  cases bias with
  | none =>
    obtain rfl : t = y := h
    exact ⟨t', rfl, ht, fun n i j hat => hat⟩
  | some b =>
    obtain ⟨C, hC, rfl⟩ := combine_biasImage_eq_some_iff.mp h
    have hext : ∀ a, t'.extent a = t.extent a := fun a => by
      unfold extent
      rw [ht]
    refine ⟨_, combine_biasImage_eq_some_iff.mpr ⟨C, ?_, rfl⟩, ?_, fun n i j hat o => ?_⟩
    · rw [hext]
      exact hC
    · rw [shape_ofImages, shape_ofImages, hext, hext, hext]
    · rw [hext, hext, hext]
      by_cases hin : n < t.extent 0 ∧ o < C ∧ i < t.extent 2 ∧ j < t.extent 3
      · obtain ⟨hn, ho, hi, hj⟩ := hin
        rw [at4_ofImages hn ho hi hj, at4_ofImages hn ho hi hj]
        -- along all axes but that of the channels the output has its own positions
        unfold shared
        rw [hext, hext, hext, hext, sharedIndex_of_lt hn, sharedIndex_of_lt hi, sharedIndex_of_lt hj, hat]
      · rw [at4_of_not (shape_ofImages _ _ _ _ _) hin, at4_of_not (shape_ofImages _ _ _ _ _) hin]

theorem kernels_of_steer {bias : Option (Tensor R)} {y : Tensor R} (hq : q.extent 1 = 4)
    (h : steer s groups x w bias q = .ok y) : ∃ O B k, w.shape = [O, B, k, k] := by
  obtain ⟨hsquare, _, _, -, ht, -⟩ := steer_eq_ok_iff.mp h
  obtain ⟨_, _, _, hb, -⟩ := (steeredSum_eq_ok_iff hq).mp ht
  obtain ⟨_, B, P, _, _, k, k', -, hw, -, -⟩ := hb.correlates.extents
  obtain rfl : k = k' := by
    rw [hw] at hsquare
    exact hsquare
  exact ⟨_, B, k, hw⟩

/-- Convolutions of one batch with kernels and weights of the same shapes agree at a window, in every
output channel, if the blended responses do. -/
theorem steer_congr {bias : Option (Tensor R)} {y : Tensor R} (hq : q.extent 1 = 4)
    (h : steer s groups x w bias q = .ok y) : ∃ x₁ : Tensor R, ∀ w' q' : Tensor R, w'.shape = w.shape →
      q'.shape = q.shape → ∃ y', steer s groups x w' bias q' = .ok y' ∧ y'.shape = y.shape ∧
        ∀ n i j, (∀ o, blendAt s groups x₁ w' q' n o i j = blendAt s groups x₁ w q n o i j) →
          ∀ o, y'.at4 n o i j = y.at4 n o i j := by
  obtain ⟨hsquare, x₁, t, hx₁, ht, hbias⟩ := steer_eq_ok_iff.mp h
  refine ⟨x₁, fun w' q' hw hq' => ?_⟩
  obtain ⟨t', ht', hshape, hat⟩ := steeredSum_congr hq hw hq' ht
  obtain ⟨y', hy', hy, hsame⟩ := hbias.congr hshape
  exact ⟨y', steer_eq_ok_iff.mpr ⟨hw ▸ hsquare, x₁, t', hx₁, ht', hy'⟩, hy,
    fun n i j hsum => hsame n i j (hat n i j hsum)⟩

end Blend

theorem Extents.at4_blended {R : Type} [CommSemiring R] {s : Sweep} {groups : ℕ} {x w q : Tensor R}
    {bias : Option (Tensor R)} {N B P H W k : ℕ} (e : Extents s groups x w bias q N B P H W k) {n o i j : ℕ}
    (hn : n < N) (ho : o < groups * P) (hi : i < (s.grid (k, k) (H, W)).1) (hj : j < (s.grid (k, k) (H, W)).2) :
    (blended s groups x w q).at4 n o i j =
      ∑ r ∈ range 4, (correlate s groups x (turned r w)).at4 n o i j * q.at4 n r i j := by
  unfold blended
  rw [at4_fourfold (fun r _ => shape_weighted (e.response r) q r) hn ho hi hj,
    at4_weighted (e.response 0) q 0 hn ho hi hj, at4_weighted (e.response 1) q 1 hn ho hi hj,
    at4_weighted (e.response 2) q 2 hn ho hi hj, at4_weighted (e.response 3) q 3 hn ho hi hj]
  simp only [sum_range_succ, sum_range_zero, zero_add]

/-! ### The entries of an output -/

section Output

variable {R : Type} [CommSemiring R] {s : Sweep} {groups : ℕ} {x w q y : Tensor R} {bias : Option (Tensor R)}
  {N I J : ℕ}

/-- The coordinates of a batch. -/
def Tensor.Holds {α : Type} (t : Tensor α) (n c i j : ℕ) : Prop :=
  n < t.extent 0 ∧ c < t.extent 1 ∧ i < t.extent 2 ∧ j < t.extent 3

theorem holds_ofImages {α : Type} [Zero α] {N C I J n c i j : ℕ} {f : ℕ → ℕ → ℕ → ℕ → α} :
    (ofImages N C I J f).Holds n c i j ↔ n < N ∧ c < C ∧ i < I ∧ j < J := by
  obtain ⟨e0, e1, e2, e3⟩ := extents (shape_ofImages N C I J f)
  unfold Tensor.Holds
  rw [e0, e1, e2, e3]

theorem sharedIndex_sharedIndex (extent i : ℕ) : sharedIndex extent (sharedIndex extent i) = sharedIndex extent i := by
  unfold sharedIndex
  split <;> rfl

theorem sharedIndex_lt {a b common i : ℕ} (h : commonExtent? a b = some common) (hi : i < common) :
    sharedIndex a i < a ∧ sharedIndex b i < b := by
  unfold commonExtent? at h
  unfold sharedIndex
  split_ifs at h ⊢ <;> cases h <;> omega

/-- What the bias adds at a window. -/
def offset (bias : Option (Tensor R)) (n c i j : ℕ) : R := bias.elim 0 fun b => (biasImage b).shared n c i j

/-- An entry with the bias is an entry without it and what the bias adds. -/
theorem Biased.at4_eq {O n c i j : ℕ} {f : ℕ → ℕ → ℕ → ℕ → R} (h : Biased bias (ofImages N O I J f) y)
    (hin : y.Holds n c i j) : (n < N ∧ i < I ∧ j < J) ∧
      y.at4 n c i j = f n (sharedIndex O c) i j + offset bias n c i j := by
  cases bias with
  | none =>
    obtain rfl : _ = y := h
    obtain ⟨hn, hc, hi, hj⟩ := holds_ofImages.mp hin
    refine ⟨⟨hn, hi, hj⟩, ?_⟩
    rw [at4_ofImages hn hc hi hj, sharedIndex_of_lt hc]
    exact (add_zero _).symm
  | some b =>
    obtain ⟨C, hC, rfl⟩ := combine_biasImage_eq_some_iff.mp h
    obtain ⟨e0, e1, e2, e3⟩ := extents (shape_ofImages N O I J f)
    obtain ⟨hn, hc, hi, hj⟩ := holds_ofImages.mp hin
    rw [e0] at hn
    rw [e1] at hC
    rw [e2] at hi
    rw [e3] at hj
    refine ⟨⟨hn, hi, hj⟩, ?_⟩
    rw [e0, e2, e3, at4_ofImages hn hc hi hj]
    congr 1
    unfold shared
    rw [e0, e1, e2, e3, sharedIndex_of_lt hn, sharedIndex_of_lt hi, sharedIndex_of_lt hj,
      at4_ofImages hn (sharedIndex_lt hC hc).1 hi hj]

theorem blendAt_sharedIndex (s : Sweep) (groups : ℕ) (x w q : Tensor R) (n c i j : ℕ) :
    blendAt s groups x w q n (sharedIndex (w.extent 0) c) i j = blendAt s groups x w q n c i j := by
  have hchannel (r : ℕ) : (correlate s groups x (turned r w)).extent 1 = w.extent 0 := rfl
  unfold blendAt shared
  simp only [hchannel, sharedIndex_sharedIndex]

/-- The entries of an output are the blended responses there and the bias, and the weights have entries there. -/
theorem at4_output (hq : q.shape = [N, 4, I, J]) (h : steer s groups x w bias q = .ok y) :
    ∃ x₁, x.toImages? = some x₁ ∧ ∀ n c i j, y.Holds n c i j →
      y.at4 n c i j = blendAt s groups x₁ w q n c i j + offset bias n c i j ∧
        sharedIndex N n < N ∧ sharedIndex I i < I ∧ sharedIndex J j < J := by
  obtain ⟨q0, q1, q2, q3⟩ := extents hq
  obtain ⟨-, x₁, t, hx₁, ht, hbias⟩ := steer_eq_ok_iff.mp h
  obtain ⟨N', I', J', hb, rfl⟩ := (steeredSum_eq_ok_iff q1).mp ht
  refine ⟨x₁, hx₁, fun n c i j hin => ?_⟩
  obtain ⟨⟨hn, hi, hj⟩, hentry⟩ := hbias.at4_eq hin
  rw [hentry, blendAt_sharedIndex, ← q0, ← q2, ← q3]
  exact ⟨rfl, (sharedIndex_lt hb.samples hn).2, (sharedIndex_lt hb.rows hi).2, (sharedIndex_lt hb.columns hj).2⟩

end Output

/-! ### Sines and cosines -/

section SinesAndCosines

variable {α : Type} [Scalar α] {angle : Tensor α} {N C I J : ℕ}

theorem shape_sinesAndCosines (h : angle.shape = [N, C, I, J]) : (sinesAndCosines angle).shape = [N, 2 * C, I, J] := by
  obtain ⟨a0, a1, a2, a3⟩ := extents h
  unfold sinesAndCosines
  rw [a0, a1, a2, a3, shape_ofImages]

theorem at4_sinesAndCosines (h : angle.shape = [N, C, I, J]) {n c i j : ℕ} (hn : n < N) (hc : c < 2 * C) (hi : i < I)
    (hj : j < J) : (sinesAndCosines angle).at4 n c i j =
      if c < C then Scalar.sin (angle.at4 n c i j) else Scalar.cos (angle.at4 n (c - C) i j) := by
  obtain ⟨a0, a1, a2, a3⟩ := extents h
  unfold sinesAndCosines
  rw [a0, a1, a2, a3, at4_ofImages hn hc hi hj]

end SinesAndCosines

/-! ### The weights at a window -/

section Weights

variable {t : Tensor ℝ} {N I J : ℕ}

/-- The vector of a gradient map at a pixel. -/
def vectorAt (t : Tensor ℝ) (n i j : ℕ) : ℝ × ℝ := (t.at4 n 0 i j, t.at4 n 1 i j)

theorem vectorAt_of_not (ht : t.shape = [N, 2, I, J]) {n i j : ℕ} (hout : ¬(n < N ∧ i < I ∧ j < J)) :
    vectorAt t n i j = 0 := by
  unfold vectorAt
  rw [at4_of_not ht (by omega), at4_of_not ht (by omega)]
  rfl

theorem at4_angles (ht : t.shape = [N, 2, I, J]) {n i j : ℕ} (hn : n < N) (hi : i < I) (hj : j < J) :
    (angles t : Tensor ℝ).at4 n 0 i j = heading (vectorAt t n i j) := by
  obtain ⟨t0, t1, t2, t3⟩ := extents ht
  unfold angles
  rw [t0, t1, t2, t3, at4_ofImages hn (by decide) hi hj]
  rfl

/-- A rotation has at a window the weight that the angles of all channels there give it. -/
theorem at4_blendWeights {angle : Tensor ℝ} {C : ℕ} (h : angle.shape = [N, C, I, J]) {n r i j : ℕ} (hn : n < N)
    (hr : r < 4) (hi : i < I) (hj : j < J) : (interpolationWeights angle).at4 n r i j =
      blendWeight ((List.range C).map fun c => angle.at4 n c i j) r := by
  have hcell : i * J + j < I * J := block_lt hi hj
  have hposition (c m : ℕ) : ((n * m + c) * I + i) * J + j = (n * m + c) * (I * J) + (i * J + j) := by ring
  have hlt := position_lt hn hr hi hj
  have hvolume : volume [I, J] = I * J := by simp
  obtain ⟨a0, a1, -, -⟩ := extents h
  rw [at4_eq_flat (interpolationWeights_eq h).2 hn hr hi hj]
  unfold interpolationWeights rotations
  rw [a0, a1, h, flat_ofFlat (by exact hlt)]
  simp only [List.drop_succ_cons, List.drop_zero, hvolume]
  rw [hposition, div_block hcell, mod_block hcell, div_block hr, mod_block hr]
  refine congrArg (blendWeight · r) (List.map_congr_left fun c hc => ?_)
  rw [at4_eq_flat h hn (List.mem_range.mp hc) hi hj, hposition]

theorem at4_interpolationWeights {angle : Tensor ℝ} (h : angle.shape = [N, 1, I, J]) {n r i j : ℕ}
    (hn : n < N) (hr : r < 4) (hi : i < I) (hj : j < J) :
    (interpolationWeights angle).at4 n r i j = slotWeight (angle.at4 n 0 i j) r :=
  (at4_blendWeights h hn hr hi hj).trans (blendWeight_singleton _ r)

/-- A rotation has at a window the weight that belongs to the angle of the vector there. -/
theorem at4_weights (ht : t.shape = [N, 2, I, J]) {n r i j : ℕ} (hn : n < N) (hr : r < 4) (hi : i < I)
    (hj : j < J) : (interpolationWeights (angles t : Tensor ℝ)).at4 n r i j =
      slotWeight (heading (vectorAt t n i j)) r := by
  rw [at4_interpolationWeights (shape_angles ht) hn hr hi hj, at4_angles ht hn hi hj]

variable {e : Estimator ℝ} {map q : Tensor ℝ} {o : Orientation ℝ ℝ}

/-- Where a map of vectors has an orientation, it is smoothed to a map of vectors. -/
theorem orient_eq_ok (h : orient e map = .ok (o, q)) (hmap : map.extent 1 = 2) :
    e.smoother.smooth map = .ok o.smoothed ∧ o = orientationOf o.smoothed ∧
      q = interpolationWeights (angles o.smoothed) ∧ ∃ N I J, o.smoothed.shape = [N, 2, I, J] := by
  obtain ⟨t, ht, hr⟩ := orient_eq_ok_iff.mp h
  obtain ⟨rfl, rfl⟩ := Prod.mk.inj hr
  obtain ⟨g, -, hg⟩ := bind_eq_ok_iff.mp ht
  refine ⟨ht, rfl, rfl, t.extent 0, t.extent 2, t.extent 3, ?_⟩
  obtain rfl := Except.ok.inj hg
  show [_, map.extent 1, _, _] = _
  rw [hmap]
  rfl

/-- A forward pass succeeds exactly if the map has an orientation and the convolution succeeds. -/
theorem forwardPass_eq_ok_iff {s : Sweep} {groups : ℕ} {x w y : Tensor ℝ} {bias : Option (Tensor ℝ)}
    {p : ForwardPass ℝ} : forwardPass e s groups x map w bias = .ok (o, y, p) ↔ ∃ q : Tensor ℝ,
      orient e map = .ok (o, q) ∧ steer s groups x w bias q = .ok y ∧ p = ⟨x, w, q, s, groups⟩ := by
  unfold forwardPass
  constructor
  · intro h
    obtain ⟨⟨o', q⟩, horient, h⟩ := bind_eq_ok_iff.mp h
    obtain ⟨y', hsteer, h⟩ := bind_eq_ok_iff.mp h
    cases h
    exact ⟨q, horient, hsteer, rfl⟩
  · rintro ⟨q, horient, hsteer, rfl⟩
    rw [horient, ok_bind]
    dsimp only
    rw [hsteer]
    rfl

end Weights

/-! ### Maps that belong to the windows -/

/-- Arguments of one forward pass: a batch and square kernels that can be correlated, a bias with one entry for
every output channel, and a map that is smoothed to one vector for every window of every sample. -/
structure Aligned (e : Estimator ℝ) (s : Sweep) (groups : ℕ) (x map w : Tensor ℝ) (bias : Option (Tensor ℝ)) :
    Prop where
  correlates : Correlates s groups x.shape w.shape
  square : IsSquare w.shape
  bias : ∀ b ∈ bias, b.shape = [w.extent 0]
  vectors : ∃ t, e.smoother.smooth map = .ok t ∧
    t.shape = [x.extent 0, 2, (s.grid w.area x.area).1, (s.grid w.area x.area).2]

section Aligned

variable {e : Estimator ℝ} {s : Sweep} {groups : ℕ} {x map w : Tensor ℝ} {bias : Option (Tensor ℝ)}

/-- The forward pass of aligned arguments; the weights of the rotations depend on the map alone. -/
theorem Aligned.forwardPass_eq (h : Aligned e s groups x map w bias) {o : Orientation ℝ ℝ} {q : Tensor ℝ}
    (horient : orient e map = .ok (o, q)) : Arranged s groups x w bias q ∧
      forwardPass e s groups x map w bias = .ok (o, steered s groups x w bias q, ⟨x, w, q, s, groups⟩) := by
  obtain ⟨t, ht, hshape⟩ := h.vectors
  obtain ⟨-, rfl⟩ := Prod.mk.inj (Except.ok.inj (horient.symm.trans (orient_of_smooth ht)))
  have harranged : Arranged s groups x w bias (interpolationWeights (angles t)) :=
    ⟨h.correlates, h.square, h.bias, (interpolationWeights_eq (shape_angles hshape)).2⟩
  exact ⟨harranged, forwardPass_eq_ok_iff.mpr ⟨_, horient, steer_eq harranged, rfl⟩⟩

/-- Aligned arguments have a forward pass. -/
theorem Aligned.exists_pass (h : Aligned e s groups x map w bias) : ∃ (o : Orientation ℝ ℝ) (q : Tensor ℝ),
    orient e map = .ok (o, q) ∧ Arranged s groups x w bias q ∧
      forwardPass e s groups x map w bias = .ok (o, steered s groups x w bias q, ⟨x, w, q, s, groups⟩) := by
  obtain ⟨t, ht, -⟩ := h.vectors
  exact ⟨_, _, orient_of_smooth ht, h.forwardPass_eq (orient_of_smooth ht)⟩

/-- What a layer has checked is aligned. -/
theorem Accepted.aligned {g : Geometry} (h : Accepted e g groups x map w bias) :
    Aligned e g.sweep groups x map w bias where
  correlates := h.correlates
  square := h.square
  bias := h.bias
  vectors := by
    have haccepts := h.accepts_map
    have hshape : (windowAverage g.sweep (e.smoother.table.map (Stored.narrow : ℝ → ℝ)) map).shape =
        correlationShape g.sweep map.shape (Smoother.kernelShape g (map.shape.getD 1 0)) :=
      Smoother.shape_smooth h.sound haccepts
    refine ⟨_, Smoother.smooth_eq haccepts, hshape.trans ?_⟩
    rw [h.map, h.footprint]
    rfl

end Aligned
end SteeredConv
