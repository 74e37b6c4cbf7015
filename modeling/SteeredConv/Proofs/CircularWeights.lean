/-
# Weights on the circle

The weight of a rotation at an angle of a full turn is the hat of its own direction: it falls from one
there to zero a quarter turn away, along the circle. Sectors, shares and the seam at a half turn do not
show any more. The weights of any angle, also of one beyond a half turn, are those of a blend of two
neighbouring rotations.

Key definitions: `arc`, `hat`, `IsBlend`.
Key theorems: `arc_of_lift`, `hat_eq`, `slotWeight_eq_hat`, `isBlend_slotWeight`, `weights_are_hats`.
-/
import SteeredConv.Proofs.Responses

namespace SteeredConv

open Finset Tensor

/-! ### Distances on the circle -/

/-- The distance of two angles on the circle, whose length is a full turn. -/
noncomputable def arc (s t : ℝ) : ℝ := dist (s : Real.Angle) t

section Arc

variable {s t d : ℝ}

theorem arc_eq_norm (s t : ℝ) : arc s t = ‖((s - t : ℝ) : AddCircle (2 * Real.pi))‖ := by
  unfold arc
  rw [dist_eq_norm]
  rfl

theorem coe_turns (m : ℤ) : ((m * (2 * Real.pi) : ℝ) : AddCircle (2 * Real.pi)) = 0 :=
  (AddCircle.coe_eq_zero_iff _).mpr ⟨m, zsmul_eq_mul _ _⟩

theorem arc_add_turns (m : ℤ) (s t : ℝ) : arc (s + m * (2 * Real.pi)) t = arc s t := by
  rw [arc_eq_norm, arc_eq_norm, add_sub_right_comm, AddCircle.coe_add, coe_turns, add_zero]

/-- Angles whose difference, up to full turns, is half a turn at most have that difference as distance. -/
theorem arc_of_lift (m : ℤ) (h : s - t = d + m * (2 * Real.pi)) (hd : |d| ≤ Real.pi) : arc s t = |d| := by
  rw [arc_eq_norm, h, AddCircle.coe_add, coe_turns, add_zero, AddCircle.norm_coe_eq_abs_iff _ Real.two_pi_pos.ne',
    abs_of_pos Real.two_pi_pos]
  linarith

theorem exists_lift (s t : ℝ) : ∃ m : ℤ, arc s t = |s - (t + m * (2 * Real.pi))| := by
  refine ⟨round ((2 * Real.pi)⁻¹ * (s - t)), ?_⟩
  rw [arc_eq_norm, AddCircle.norm_eq, sub_sub]

end Arc

/-! ### Hats -/

/-- The hat of a rotation: one in its own direction and zero from a quarter turn away. -/
noncomputable def hat (angle : ℝ) (r : ℕ) : ℝ := max 0 (1 - arc angle (r * (Real.pi / two)) / (Real.pi / two))

section Hat

variable {angle c p : ℝ} {k : ℤ} {r : ℕ}

/-- The hat of a rotation that is `c` quarter turns away, up to full turns. -/
theorem hat_of_offset (m : ℤ) (h : p - r = c + 4 * m) (hc : |c| ≤ 2) :
    hat (p * (Real.pi / 2)) r = max 0 (1 - |c|) := by
  have hquarter := Real.pi_div_two_pos
  have habs : |c * (Real.pi / 2)| = |c| * (Real.pi / 2) := by rw [abs_mul, abs_of_pos hquarter]
  have hlift : p * (Real.pi / 2) - r * (Real.pi / 2) = c * (Real.pi / 2) + m * (2 * Real.pi) := by
    linear_combination (Real.pi / 2) * h
  have hhalf : |c * (Real.pi / 2)| ≤ Real.pi := by
    rw [habs]
    nlinarith
  unfold hat
  rw [two_real, arc_of_lift m hlift hhalf, habs, mul_div_cancel_right₀ _ hquarter.ne']

/-- The hats between two directions: those of the two directions are linear, the others are zero. -/
theorem hat_eq (h0 : k ≤ p) (h1 : p ≤ k + 1) : hat (p * (Real.pi / 2)) r =
    if (r - k) % 4 = 0 then 1 - (p - k) else if (r - k) % 4 = 1 then p - k else 0 := by
  -- `r` is `e` places after the first of the two directions, and full turns
  obtain ⟨m, e, he0, he4, hr⟩ : ∃ m e : ℤ, 0 ≤ e ∧ e < 4 ∧ (r : ℤ) = k + e + 4 * m :=
    ⟨(r - k) / 4, (r - k) % 4, by omega, by omega, by omega⟩
  have hmod : ((r : ℤ) - k) % 4 = e := by omega
  have hr' : (r : ℝ) = k + e + 4 * m := by exact_mod_cast hr
  have hoffset (c : ℝ) (m' : ℤ) (h : p - (k + e + 4 * m) = c + 4 * m') (hlow : -2 ≤ c) (hhigh : c ≤ 2) :
      hat (p * (Real.pi / 2)) r = max 0 (1 - |c|) :=
    hat_of_offset m' (by rw [hr', h]) (abs_le.mpr ⟨hlow, hhigh⟩)
  rw [hmod]
  obtain rfl | rfl | rfl | rfl : e = 0 ∨ e = 1 ∨ e = 2 ∨ e = 3 := by omega
  · rw [hoffset (p - k) (-m) (by push_cast; ring) (by linarith) (by linarith), abs_of_nonneg (by linarith),
      max_eq_right (by linarith), if_pos rfl]
  · rw [hoffset (p - k - 1) (-m) (by push_cast; ring) (by linarith) (by linarith), abs_of_nonpos (by linarith),
      max_eq_right (by linarith), if_neg (by decide), if_pos rfl]
    ring
  · rw [hoffset (p - k - 2) (-m) (by push_cast; ring) (by linarith) (by linarith), abs_of_nonpos (by linarith),
      max_eq_left (by linarith), if_neg (by decide), if_neg (by decide)]
  · -- the last direction is nearer the other way round
    rw [hoffset (p - k + 1) (-m - 1) (by push_cast; ring) (by linarith) (by linarith), abs_of_nonneg (by linarith),
      max_eq_left (by linarith), if_neg (by decide), if_neg (by decide)]

/-- At an angle of a full turn around zero, both ends included, the weight of a rotation is its hat. -/
theorem slotWeight_eq_hat (h : angle ∈ Set.Icc (-Real.pi) Real.pi) (hr : r < 4) : slotWeight angle r = hat angle r := by
  obtain ⟨hlow, hhigh⟩ := h
  have h0 : -2 + 2 ≤ quarterTurns angle := le_quarterTurns (by linarith)
  have h4 : quarterTurns angle ≤ 2 + 2 := quarterTurns_le (by linarith)
  have hangle : angle = (quarterTurns angle - 2) * (Real.pi / 2) := by
    rw [quarterTurns_eq, add_sub_cancel_right, div_mul_cancel₀ _ Real.pi_div_two_pos.ne']
  obtain ⟨k, hk, hle, hge⟩ := exists_sector (p := quarterTurns angle) (by linarith) (by linarith)
  -- the positions of the sectors start a half turn backwards
  have hhat := hat_eq (p := quarterTurns angle - 2) (k := k - 2) (r := r) (by push_cast; linarith)
    (by push_cast; linarith)
  rw [← hangle] at hhat
  rw [slotWeight_eq_weightAt, weightAt_eq hk hr hle hge, hhat]
  have hlower : (r - (k - 2 : ℤ)) % 4 = 0 ↔ (k + 2) % 4 = r := by omega
  have hupper : (r - (k - 2 : ℤ)) % 4 = 1 ↔ (k + 3) % 4 = r := by omega
  have hshare : quarterTurns angle - 2 - ((k - 2 : ℤ) : ℝ) = quarterTurns angle - k := by
    push_cast
    ring
  simp only [hlower, hupper, hshare]
  split_ifs <;> first | rfl | omega

end Hat

/-! ### Blends -/

/-- The weights of a blend of two neighbouring rotations. -/
structure IsBlend (weight : ℕ → ℝ) : Prop where
  mem : ∀ r < 4, weight r ∈ Set.Icc (0 : ℝ) 1
  sum : ∑ r ∈ range 4, weight r = 1
  neighbours : ∃ k < 4, ∀ r < 4, weight r ≠ 0 → r = k ∨ r = (k + 1) % 4

theorem IsBlend.congr {weight weight' : ℕ → ℝ} (h : IsBlend weight) (heq : ∀ r < 4, weight' r = weight r) :
    IsBlend weight' where
  mem r hr := by
    rw [heq r hr]
    exact h.mem r hr
  sum := (sum_congr rfl fun r hr => heq r (mem_range.mp hr)).trans h.sum
  neighbours := by
    obtain ⟨k, hk, hzero⟩ := h.neighbours
    exact ⟨k, hk, fun r hr hne => hzero r hr (by rwa [← heq r hr])⟩

theorem sectorOf_lt (position : ℝ) : sectorOf position < 4 := by
  unfold sectorOf
  split_ifs <;> decide

theorem shareOf_mem (position : ℝ) : shareOf position ∈ Set.Icc (0 : ℝ) 1 := by
  unfold shareOf clamp atMost atLeast
  split_ifs <;> constructor <;> linarith

/-- The weights at any angle are those of a blend. -/
theorem isBlend_slotWeight (angle : ℝ) : IsBlend (slotWeight angle) := by
  have hsector := sectorOf_lt (quarterTurns angle)
  obtain ⟨hlow, hhigh⟩ := shareOf_mem (quarterTurns angle)
  have hweight : slotWeight angle = fun r => if (sectorOf (quarterTurns angle) + 3) % 4 = r then
      shareOf (quarterTurns angle) else if (sectorOf (quarterTurns angle) + 2) % 4 = r then
        1 - shareOf (quarterTurns angle) else 0 := by
    funext r
    rw [slotWeight_eq_weightAt]
    unfold weightAt
    rw [upperSlot_eq]
    rfl
  generalize sectorOf (quarterTurns angle) = k at hsector hweight
  generalize shareOf (quarterTurns angle) = share at hlow hhigh hweight
  rw [hweight]
  refine ⟨fun r _ => ?_, ?_, (k + 2) % 4, by omega, fun r _ hne => ?_⟩
  · split_ifs <;> constructor <;> linarith
  · interval_cases k <;> simp [sum_range_succ]
  · by_contra hno
    rw [if_neg (by omega), if_neg (by omega)] at hne
    exact hne rfl

/-! ### Weights of angles -/

section Angles

variable {angle : Tensor ℝ} {N I J : ℕ}

/-- A batch of angles has weights. At every pixel they are those of a blend, and those of an angle of a full
turn around zero are the hats of the rotations. -/
theorem weights_are_hats (h : angle.shape = [N, 1, I, J]) : ∃ q, interpolationWeights? angle = .ok q ∧
    q.shape = [N, 4, I, J] ∧ ∀ n < N, ∀ i < I, ∀ j < J, IsBlend (fun r => q.at4 n r i j) ∧
      (angle.at4 n 0 i j ∈ Set.Icc (-Real.pi) Real.pi → ∀ r < 4, q.at4 n r i j = hat (angle.at4 n 0 i j) r) := by
  obtain ⟨hq, hshape⟩ := interpolationWeights_eq h
  refine ⟨_, hq, hshape, fun n hn i hi j hj => ?_⟩
  have hweights : ∀ r < 4, (interpolationWeights angle).at4 n r i j = slotWeight (angle.at4 n 0 i j) r :=
    fun r hr => at4_interpolationWeights h hn hr hi hj
  exact ⟨(isBlend_slotWeight _).congr hweights,
    fun hangle r hr => (hweights r hr).trans (slotWeight_eq_hat hangle hr)⟩

/-- No turn, half a turn and a full turn, which is out of range. -/
theorem weights_are_hats_sample : ∃ q, interpolationWeights? (ofImages 1 1 1 3 fun _ _ _ j => j * Real.pi) = .ok q ∧
    (∀ r < 4, q.at4 0 r 0 1 = hat Real.pi r) ∧ IsBlend fun r => q.at4 0 r 0 2 := by
  obtain ⟨q, hq, -, h⟩ := weights_are_hats (shape_ofImages 1 1 1 3 fun _ _ _ j => (j : ℝ) * Real.pi)
  have hpi := Real.pi_pos
  have hhalf : (ofImages 1 1 1 3 fun _ _ _ j => (j : ℝ) * Real.pi).at4 0 0 0 1 = Real.pi := by
    rw [at4_ofImages (by decide) (by decide) (by decide) (by decide), Nat.cast_one, one_mul]
  have hhats := (h 0 (by decide) 0 (by decide) 1 (by decide)).2
  rw [hhalf] at hhats
  exact ⟨q, hq, hhats ⟨by linarith, le_rfl⟩, (h 0 (by decide) 0 (by decide) 2 (by decide)).1⟩

end Angles

end SteeredConv
