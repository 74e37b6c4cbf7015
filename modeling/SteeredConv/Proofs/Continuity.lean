/-
# Continuity in the orientation

Between two directions of the kernel an output is linear in the angle, and along a quarter turn it
changes by the difference of two responses. So it is Lipschitz in the angle on each such piece, on the
line, and around the circle, with a constant that the largest response decides: no seam between sectors
shows, and neither does the one at a half turn.

Key definitions: `hatBlend`, `largestResponse`, `LipschitzInAngle`.
Key theorems: `abs_sub_le_of_pieces`, `abs_hatBlend_sub_le`, `output_eq_hatBlend`, `output_lipschitz_in_angle`.
-/
import SteeredConv.Proofs.CircularWeights
import SteeredConv.Proofs.Direction

namespace SteeredConv

open Finset Tensor

/-! ### From pieces to the circle -/

section Pieces

variable {f : ℝ → ℝ} {L s u t : ℝ}

theorem abs_sub_le_of_between (hsu : s ≤ u) (hut : u ≤ t) (hleft : |f s - f u| ≤ L * |s - u|)
    (hright : |f u - f t| ≤ L * |u - t|) : |f s - f t| ≤ L * |s - t| := by
  rw [abs_of_nonpos (sub_nonpos.mpr hsu)] at hleft
  rw [abs_of_nonpos (sub_nonpos.mpr hut)] at hright
  rw [abs_of_nonpos (sub_nonpos.mpr (hsu.trans hut))]
  calc |f s - f t| ≤ |f s - f u| + |f u - f t| := abs_sub_le _ _ _
    _ ≤ L * -(s - u) + L * -(u - t) := add_le_add hleft hright
    _ = L * -(s - t) := by ring

/-- What is Lipschitz between any two neighbouring whole numbers is Lipschitz on the line. -/
theorem abs_sub_le_of_pieces
    (h : ∀ (k : ℤ) (s t : ℝ), k ≤ s → s ≤ k + 1 → k ≤ t → t ≤ k + 1 → |f s - f t| ≤ L * |s - t|) (s t : ℝ) :
    |f s - f t| ≤ L * |s - t| := by
  wlog hst : s ≤ t generalizing s t
  · rw [abs_sub_comm (f s), abs_sub_comm s]
    exact this t s (le_of_not_ge hst)
  -- the pieces after that of `s` are added one by one
  have hpieces : ∀ (n : ℕ) (t : ℝ), s ≤ t → t ≤ ⌊s⌋ + 1 + n → |f s - f t| ≤ L * |s - t| := by
    intro n
    induction n with
    | zero =>
      intro t hst ht
      have hfloor := Int.floor_le s
      rw [Nat.cast_zero, add_zero] at ht
      exact h ⌊s⌋ s t hfloor (Int.lt_floor_add_one s).le (hfloor.trans hst) ht
    | succ n ih =>
      intro t hst ht
      rcases le_total t (⌊s⌋ + 1 + n) with hle | hge
      · exact ih t hst hle
      · have hs : s ≤ ⌊s⌋ + 1 + n := (Int.lt_floor_add_one s).le.trans (le_add_of_nonneg_right (Nat.cast_nonneg n))
        have hlast := h (⌊s⌋ + 1 + n) (⌊s⌋ + 1 + n) t
        push_cast at hlast ht
        exact abs_sub_le_of_between hs hge (ih _ hs le_rfl) (hlast le_rfl (by linarith) hge (by linarith))
  obtain ⟨n, hn⟩ := exists_nat_ge (t - s)
  exact hpieces n t hst (by linarith [Int.lt_floor_add_one s])

/-- The sum of four responses, each with the hat of its rotation as weight. -/
noncomputable def hatBlend (response : ℕ → ℝ) (angle : ℝ) : ℝ := ∑ r ∈ range 4, response r * hat angle r

variable {response : ℕ → ℝ} {M : ℝ}

/-- Between two directions the blend of the responses goes from one of them to the next. -/
theorem hatBlend_eq {p : ℝ} {k : ℤ} (h0 : k ≤ p) (h1 : p ≤ k + 1) : hatBlend response (p * (Real.pi / 2)) =
    response (k % 4).toNat * (1 - (p - k)) + response ((k + 1) % 4).toNat * (p - k) := by
  have hterm : ∀ r ∈ range 4, response r * hat (p * (Real.pi / 2)) r =
      (if r = (k % 4).toNat then response r * (1 - (p - k)) else 0) +
        if r = ((k + 1) % 4).toNat then response r * (p - k) else 0 := by
    intro r hr
    rw [mem_range] at hr
    have hfirst : ((r : ℤ) - k) % 4 = 0 ↔ r = (k % 4).toNat := by omega
    have hsecond : ((r : ℤ) - k) % 4 = 1 ↔ r = ((k + 1) % 4).toNat := by omega
    rw [hat_eq h0 h1]
    simp only [hfirst, hsecond]
    split_ifs
    · omega
    · rw [add_zero]
    · rw [zero_add]
    · rw [mul_zero, add_zero]
  unfold hatBlend
  rw [sum_congr rfl hterm, sum_add_distrib, sum_ite_eq', sum_ite_eq', if_pos (mem_range.mpr (by omega)),
    if_pos (mem_range.mpr (by omega))]

theorem hatBlend_add_turns (m : ℤ) (angle : ℝ) :
    hatBlend response (angle + m * (2 * Real.pi)) = hatBlend response angle := by
  unfold hatBlend hat
  simp only [arc_add_turns]

/-- Between two directions a blend changes at most by twice the largest response for each quarter turn. -/
theorem abs_hatBlend_sub_le_piece (hM : ∀ r < 4, |response r| ≤ M) {k : ℤ} {p q : ℝ} (hp0 : k ≤ p) (hp1 : p ≤ k + 1)
    (hq0 : k ≤ q) (hq1 : q ≤ k + 1) :
    |hatBlend response (p * (Real.pi / 2)) - hatBlend response (q * (Real.pi / 2))| ≤ 2 * M * |p - q| := by
  have hslope : hatBlend response (p * (Real.pi / 2)) - hatBlend response (q * (Real.pi / 2)) =
      (response ((k + 1) % 4).toNat - response (k % 4).toNat) * (p - q) := by
    rw [hatBlend_eq hp0 hp1, hatBlend_eq hq0 hq1]
    ring
  have hresponses : |response ((k + 1) % 4).toNat - response (k % 4).toNat| ≤ 2 * M := by
    have hlast := hM ((k + 1) % 4).toNat (by omega)
    have hfirst := hM (k % 4).toNat (by omega)
    linarith [abs_sub (response ((k + 1) % 4).toNat) (response (k % 4).toNat)]
  rw [hslope, abs_mul]
  exact mul_le_mul_of_nonneg_right hresponses (abs_nonneg _)

/-- Along the line, too. -/
theorem abs_hatBlend_sub_le_line (hM : ∀ r < 4, |response r| ≤ M) (s t : ℝ) :
    |hatBlend response s - hatBlend response t| ≤ 4 / Real.pi * |s - t| * M := by
  have hquarter := Real.pi_div_two_pos
  have hquarters := abs_sub_le_of_pieces (f := fun p => hatBlend response (p * (Real.pi / 2))) (L := 2 * M)
    (fun k p q => abs_hatBlend_sub_le_piece hM) (s / (Real.pi / 2)) (t / (Real.pi / 2))
  rw [div_mul_cancel₀ _ hquarter.ne', div_mul_cancel₀ _ hquarter.ne', ← sub_div, abs_div, abs_of_pos hquarter]
    at hquarters
  calc |hatBlend response s - hatBlend response t| ≤ 2 * M * (|s - t| / (Real.pi / 2)) := hquarters
    _ = 4 / Real.pi * |s - t| * M := by
      field_simp
      ring

/-- Around the circle a blend changes at most by twice the largest response for each quarter turn. -/
theorem abs_hatBlend_sub_le (hM : ∀ r < 4, |response r| ≤ M) (s t : ℝ) :
    |hatBlend response s - hatBlend response t| ≤ 4 / Real.pi * arc s t * M := by
  obtain ⟨m, hm⟩ := exists_lift s t
  rw [hm, ← hatBlend_add_turns m t]
  exact abs_hatBlend_sub_le_line hM _ _

end Pieces

/-! ### Two gradient maps -/

section Maps

variable {e : Estimator ℝ} {s : Sweep} {groups : ℕ} {x w map y : Tensor ℝ} {bias : Option (Tensor ℝ)}
  {o : Orientation ℝ ℝ} {p : ForwardPass ℝ}

theorem shared_weights_eq_hat {t : Tensor ℝ} {N I J n i j r : ℕ} (ht : t.shape = [N, 2, I, J])
    (hin : sharedIndex N n < N ∧ sharedIndex I i < I ∧ sharedIndex J j < J) (hr : r < 4) :
    (interpolationWeights (angles t : Tensor ℝ)).shared n r i j = hat ((angles t : Tensor ℝ).shared n 0 i j) r := by
  rw [shared_weights ht hin hr, shared_angles ht hin]
  exact slotWeight_eq_hat (Set.Ioc_subset_Icc_self (heading_mem _)) hr

/-- The largest of the absolute values of the four responses at a window. -/
noncomputable def largestResponse (s : Sweep) (groups : ℕ) (x w : Tensor ℝ) (n c i j : ℕ) : ℝ :=
  (range 4).sup' ⟨0, mem_range.mpr (Nat.succ_pos 3)⟩ fun r => |(correlate s groups x (turned r w)).shared n c i j|

theorem abs_response_le (s : Sweep) (groups : ℕ) (x w : Tensor ℝ) (n c i j : ℕ) {r : ℕ} (hr : r < 4) :
    |(correlate s groups x (turned r w)).shared n c i j| ≤ largestResponse s groups x w n c i j :=
  le_sup' (fun r => |(correlate s groups x (turned r w)).shared n c i j|) (mem_range.mpr hr)

/-- An output blends the responses at the angle of its orientation. -/
theorem output_eq_hatBlend (hmap : map.extent 1 = 2) (h : forwardPass e s groups x map w bias = .ok (o, y, p)) :
    ∃ x₁, x.toImages? = some x₁ ∧ ∀ n c i j, y.Holds n c i j → y.at4 n c i j =
      hatBlend (fun r => (correlate s groups x₁ (turned r w)).shared n c i j) (o.angle.shared n 0 i j) +
        offset bias n c i j := by
  obtain ⟨q, horient, hsteer, -⟩ := forwardPass_eq_ok_iff.mp h
  obtain ⟨-, ho, rfl, N, I, J, hs⟩ := orient_eq_ok horient hmap
  obtain ⟨x₁, hx₁, hentries⟩ := at4_output (interpolationWeights_eq (shape_angles hs)).2 hsteer
  refine ⟨x₁, hx₁, fun n c i j hin => ?_⟩
  obtain ⟨hentry, hweights⟩ := hentries n c i j hin
  have hangle : o.angle = angles o.smoothed := congrArg Orientation.angle ho
  rw [hentry, hangle]
  congr 1
  exact sum_congr rfl fun r hr => congrArg _ (shared_weights_eq_hat hs hweights (mem_range.mp hr))

/-- Accepted maps have outputs of one shape. -/
theorem Accepted.forwardPass_pair {g : Geometry} {map' : Tensor ℝ} (h : Accepted e g groups x map w bias)
    (h' : Accepted e g groups x map' w bias) : ∃ (o o' : Orientation ℝ ℝ) (y y' : Tensor ℝ) (p p' : ForwardPass ℝ),
      forwardPass e g.sweep groups x map w bias = .ok (o, y, p) ∧
      forwardPass e g.sweep groups x map' w bias = .ok (o', y', p') ∧ y.shape = y'.shape := by
  obtain ⟨o, q, horient⟩ := h.exists_orient
  obtain ⟨o', q', horient'⟩ := h'.exists_orient
  obtain ⟨arranged, hpass⟩ := h.forwardPass_eq horient
  obtain ⟨arranged', hpass'⟩ := h'.forwardPass_eq horient'
  obtain ⟨N, B, P, H, W, k, ext⟩ := arranged.extents
  have ext' : Extents g.sweep groups x w bias q' N B P H W k :=
    { ext with weights := arranged'.weights.trans (arranged.weights.symm.trans ext.weights) }
  exact ⟨o, o', _, _, _, _, hpass, hpass', ext.shape_steered.trans ext'.shape_steered.symm⟩

/-- Outputs with two orientations differ, at every window of both, by at most the largest response there for
each `π / 4` that the angles lie apart on the circle. -/
def LipschitzInAngle (s : Sweep) (groups : ℕ) (x w : Tensor ℝ) (o₁ o₂ : Orientation ℝ ℝ) (y₁ y₂ : Tensor ℝ) : Prop :=
  ∃ x₁, x.toImages? = some x₁ ∧ ∀ n c i j, y₁.Holds n c i j → y₂.Holds n c i j →
    |y₁.at4 n c i j - y₂.at4 n c i j| ≤ 4 / Real.pi *
      arc (o₁.angle.shared n 0 i j) (o₂.angle.shared n 0 i j) * largestResponse s groups x₁ w n c i j

/-- The outputs for two maps of vectors are Lipschitz in the angle, whatever is convolved; for accepted arguments
there are outputs, and they have the same windows. -/
theorem output_lipschitz_in_angle (e : Estimator ℝ) (s : Sweep) (groups : ℕ) (x w : Tensor ℝ)
    (bias : Option (Tensor ℝ)) {map₁ map₂ : Tensor ℝ} (hmap₁ : map₁.extent 1 = 2) (hmap₂ : map₂.extent 1 = 2) :
    (∀ g : Geometry, s = g.sweep → Accepted e g groups x map₁ w bias → Accepted e g groups x map₂ w bias →
      ∃ (o₁ o₂ : Orientation ℝ ℝ) (y₁ y₂ : Tensor ℝ) (p₁ p₂ : ForwardPass ℝ),
        forwardPass e s groups x map₁ w bias = .ok (o₁, y₁, p₁) ∧
        forwardPass e s groups x map₂ w bias = .ok (o₂, y₂, p₂) ∧ y₁.shape = y₂.shape) ∧
    ∀ (o₁ o₂ : Orientation ℝ ℝ) (y₁ y₂ : Tensor ℝ) (p₁ p₂ : ForwardPass ℝ),
      forwardPass e s groups x map₁ w bias = .ok (o₁, y₁, p₁) →
      forwardPass e s groups x map₂ w bias = .ok (o₂, y₂, p₂) → LipschitzInAngle s groups x w o₁ o₂ y₁ y₂ := by
  refine ⟨?_, fun o₁ o₂ y₁ y₂ p₁ p₂ h₁ h₂ => ?_⟩
  · rintro g rfl ha₁ ha₂
    exact ha₁.forwardPass_pair ha₂
  · obtain ⟨x₁, hx₁, hfirst⟩ := output_eq_hatBlend hmap₁ h₁
    obtain ⟨x₂, hx₂, hsecond⟩ := output_eq_hatBlend hmap₂ h₂
    obtain rfl : x₁ = x₂ := Option.some.inj (hx₁.symm.trans hx₂)
    refine ⟨x₁, hx₁, fun n c i j hin₁ hin₂ => ?_⟩
    rw [hfirst n c i j hin₁, hsecond n c i j hin₂, add_sub_add_right_eq_sub]
    exact abs_hatBlend_sub_le (fun r hr => abs_response_le s groups x₁ w n c i j hr) _ _

/-- Maps of opposite vectors. -/
theorem output_lipschitz_in_angle_sample : ∃ (o₁ o₂ : Orientation ℝ ℝ) (y₁ y₂ : Tensor ℝ) (p₁ p₂ : ForwardPass ℝ),
    forwardPass ⟨⟨.orientation, "torch", {}⟩, evenSmoother sampleGeometry⟩ sampleGeometry.sweep 2
      (fill [1, 4, 3, 2] 1) (fill [1, 2, 3, 2] 1) (fill [2, 2, 2, 2] 1) (some (fill [2] 1)) = .ok (o₁, y₁, p₁) ∧
    forwardPass ⟨⟨.orientation, "torch", {}⟩, evenSmoother sampleGeometry⟩ sampleGeometry.sweep 2
      (fill [1, 4, 3, 2] 1) (fill [1, 2, 3, 2] (-1)) (fill [2, 2, 2, 2] 1) (some (fill [2] 1)) = .ok (o₂, y₂, p₂) ∧
    LipschitzInAngle sampleGeometry.sweep 2 (fill [1, 4, 3, 2] 1) (fill [2, 2, 2, 2] 1) o₁ o₂ y₁ y₂ := by
  obtain ⟨hpasses, hbound⟩ := output_lipschitz_in_angle ⟨⟨.orientation, "torch", {}⟩, evenSmoother sampleGeometry⟩
    sampleGeometry.sweep 2 (fill [1, 4, 3, 2] 1) (fill [2, 2, 2, 2] 1) (some (fill [2] 1))
    (show (fill [1, 2, 3, 2] (1 : ℝ)).extent 1 = 2 from rfl) (show (fill [1, 2, 3, 2] (-1 : ℝ)).extent 1 = 2 from rfl)
  obtain ⟨o₁, o₂, y₁, y₂, p₁, p₂, h₁, h₂, -⟩ := hpasses sampleGeometry rfl accepted_sample
    { accepted_sample with map := rfl }
  exact ⟨o₁, o₂, y₁, y₂, p₁, p₂, h₁, h₂, hbound o₁ o₂ y₁ y₂ p₁ p₂ h₁ h₂⟩

end Maps
end SteeredConv
