/-
# Quarter turns of a vector

A vector that is turned by a quarter turn has its angle a quarter turn further on, and the weights of
the four rotations move on by one place. At a position between two whole quarter turns the weights are
linear in the position, so the formula of one sector holds on its closed interval and no seam, not even
the one at a half turn, needs a case of its own.

Key definitions: `quarterTurn`, `heading`, `weightAt`.
Key theorems: `weightAt_eq`, `heading_smul`, `slotWeight_quarterTurn`.
-/
import SteeredConv.Proofs.Reals
import SteeredConv.Interpolation

namespace SteeredConv

/-! ### Weights at a position -/

section Weights

variable {p : ℝ} {k r : ℕ}

/-- The weight of rotation `r` at a position, counted in quarter turns from a half turn backwards. -/
noncomputable def weightAt (position : ℝ) (r : ℕ) : ℝ :=
  if upperSlot (sectorOf position) = r then shareOf position
  else if lowerSlot (sectorOf position) = r then 1 - shareOf position
  else 0

theorem slotWeight_eq_weightAt (angle : ℝ) (r : ℕ) : slotWeight angle r = weightAt (quarterTurns angle) r :=
  rfl

theorem quarterTurns_eq (angle : ℝ) : quarterTurns angle = angle / (Real.pi / 2) + 2 := by
  have hpi : (Scalar.pi : ℝ) = Real.pi := rfl
  unfold quarterTurns
  rw [hpi]
  push_cast
  field_simp
  ring

theorem quarterTurns_add (angle c : ℝ) :
    quarterTurns (angle + c * (Real.pi / 2)) = quarterTurns angle + c := by
  have hquarter : Real.pi / 2 ≠ 0 := Real.pi_div_two_pos.ne'
  rw [quarterTurns_eq, quarterTurns_eq, add_div, mul_div_cancel_right₀ c hquarter]
  ring

theorem quarterTurns_le {angle c : ℝ} (h : angle ≤ c * (Real.pi / 2)) : quarterTurns angle ≤ c + 2 := by
  rw [quarterTurns_eq]
  exact add_le_add_left ((div_le_iff₀ Real.pi_div_two_pos).mpr h) 2

theorem le_quarterTurns {angle c : ℝ} (h : c * (Real.pi / 2) ≤ angle) : c + 2 ≤ quarterTurns angle := by
  rw [quarterTurns_eq]
  exact add_le_add_left ((le_div_iff₀ Real.pi_div_two_pos).mpr h) 2

theorem sectorOf_eq (hk : k < 4) (h0 : k ≤ p) (h1 : p < k + 1) : sectorOf p = k := by
  unfold sectorOf
  rw [two_real]
  interval_cases k <;> push_cast at h0 h1 ⊢ <;> split_ifs <;> first | rfl | linarith

theorem shareOf_eq (hs : sectorOf p = k) (h0 : k ≤ p) (h1 : p ≤ k + 1) : shareOf p = p - k := by
  unfold shareOf clamp atMost atLeast
  rw [hs]
  split_ifs <;> linarith

/-- The weights at the positions of a sector, both ends included. -/
theorem weightAt_eq (hk : k < 4) (hr : r < 4) (h0 : k ≤ p) (h1 : p ≤ k + 1) : weightAt p r =
    if (k + 3) % 4 = r then p - k else if (k + 2) % 4 = r then 1 - (p - k) else 0 := by
  unfold weightAt
  rcases h1.lt_or_eq with hlt | rfl
  · rw [sectorOf_eq hk h0 hlt, shareOf_eq (sectorOf_eq hk h0 hlt) h0 h1, upperSlot_eq]
    rfl
  · -- the seam belongs to the next sector, or to the last one at the very end
    rcases Nat.lt_or_ge (k + 1) 4 with hk' | hk'
    · have hs : sectorOf (k + 1 : ℝ) = k + 1 := sectorOf_eq hk' (by push_cast; exact le_rfl) (by push_cast; linarith)
      rw [hs, shareOf_eq hs (by push_cast; exact le_rfl) (by push_cast; linarith), upperSlot_eq]
      unfold lowerSlot rotations
      push_cast
      interval_cases k <;> interval_cases r <;> norm_num
    · obtain rfl : k = 3 := by omega
      have hs : sectorOf ((3 : ℕ) + 1 : ℝ) = 3 := by
        unfold sectorOf
        rw [two_real]
        norm_num
      rw [hs, shareOf_eq hs (by norm_num) le_rfl, upperSlot_eq]
      rfl

theorem exists_sector (h0 : 0 ≤ p) (h4 : p ≤ 4) : ∃ k : ℕ, k < 4 ∧ k ≤ p ∧ p ≤ k + 1 := by
  rcases h4.lt_or_eq with h | rfl
  · exact ⟨⌊p⌋₊, (Nat.floor_lt h0).mpr h, Nat.floor_le h0, (Nat.lt_floor_add_one p).le⟩
  · exact ⟨3, by omega, by norm_num, by norm_num⟩

/-- One quarter turn further on every weight stands one place further on. -/
theorem weightAt_add_one (hr : r < 4) (h0 : 0 ≤ p) (h3 : p ≤ 3) :
    weightAt (p + 1) ((r + 1) % 4) = weightAt p r := by
  obtain ⟨k, hk, hle, hge⟩ : ∃ k : ℕ, k < 3 ∧ k ≤ p ∧ p ≤ k + 1 := by
    obtain ⟨k, hk, hle, hge⟩ := exists_sector h0 (by linarith)
    rcases Nat.lt_or_ge k 3 with h | h
    · exact ⟨k, h, hle, hge⟩
    · obtain rfl : k = 3 := by omega
      exact ⟨2, by omega, by push_cast at hle ⊢; linarith, by push_cast; linarith⟩
  rw [weightAt_eq (by omega) hr hle hge, weightAt_eq (k := k + 1) (by omega) (by omega)
    (by push_cast; linarith) (by push_cast; linarith)]
  have hupper : (k + 1 + 3) % 4 = (r + 1) % 4 ↔ (k + 3) % 4 = r := by omega
  have hlower : (k + 1 + 2) % 4 = (r + 1) % 4 ↔ (k + 2) % 4 = r := by omega
  have hshare : p + 1 - ((k + 1 : ℕ) : ℝ) = p - k := by
    push_cast
    ring
  simp only [hupper, hlower, hshare]

theorem weightAt_sub_three (hr : r < 4) (h3 : 3 ≤ p) (h4 : p ≤ 4) :
    weightAt (p - 3) ((r + 1) % 4) = weightAt p r := by
  rw [weightAt_eq (k := 3) (by omega) hr (by push_cast; linarith) (by push_cast; linarith),
    weightAt_eq (k := 0) (by omega) (by omega) (by push_cast; linarith) (by push_cast; linarith)]
  have hupper : (0 + 3) % 4 = (r + 1) % 4 ↔ (3 + 3) % 4 = r := by omega
  have hlower : (0 + 2) % 4 = (r + 1) % 4 ↔ (3 + 2) % 4 = r := by omega
  simp only [hupper, hlower, Nat.cast_zero, sub_zero, Nat.cast_ofNat]

end Weights

/-! ### Angles of vectors -/

/-- The quarter turn that takes the horizontal direction to the vertical one. -/
def quarterTurn : (ℝ × ℝ) ≃ₗ[ℝ] (ℝ × ℝ) where
  toFun v := (-v.2, v.1)
  invFun v := (v.2, -v.1)
  map_add' u v := Prod.ext (neg_add u.2 v.2) rfl
  map_smul' c v := Prod.ext (mul_neg c v.2).symm rfl
  left_inv v := Prod.ext rfl (neg_neg v.2)
  right_inv v := Prod.ext (neg_neg v.1) rfl

theorem quarterTurn_apply (v : ℝ × ℝ) : quarterTurn v = (-v.2, v.1) := rfl

theorem quarterTurn_symm_apply (v : ℝ × ℝ) : quarterTurn.symm v = (v.2, -v.1) := rfl

/-- The angle of a vector, zero for the vector zero. -/
noncomputable def heading (v : ℝ × ℝ) : ℝ := Scalar.atan2 v.2 v.1

theorem heading_eq_arg (v : ℝ × ℝ) : heading v = Complex.arg ⟨v.1, v.2⟩ := rfl

/-- A positive factor does not change the angle. -/
theorem heading_smul {c : ℝ} (hc : 0 < c) (v : ℝ × ℝ) : heading (c • v) = heading v := by
  have : (⟨c * v.1, c * v.2⟩ : ℂ) = c * ⟨v.1, v.2⟩ := by
    apply Complex.ext <;> simp
  rw [heading_eq_arg, heading_eq_arg, Prod.smul_fst, Prod.smul_snd, smul_eq_mul, smul_eq_mul, this,
    Complex.arg_real_mul _ hc]

theorem heading_mem (v : ℝ × ℝ) : heading v ∈ Set.Ioc (-Real.pi) Real.pi :=
  Complex.arg_mem_Ioc _

theorem heading_of_polar {c θ : ℝ} (hc : 0 < c) (hθ : θ ∈ Set.Ioc (-Real.pi) Real.pi) :
    heading (c * Real.cos θ, c * Real.sin θ) = θ := by
  have hz : (⟨c * Real.cos θ, c * Real.sin θ⟩ : ℂ) = c * (Complex.cos θ + Complex.sin θ * Complex.I) := by
    apply Complex.ext <;> simp [Complex.cos_ofReal_re, Complex.sin_ofReal_re]
  rw [heading_eq_arg, hz, Complex.arg_mul_cos_add_sin_mul_I hc hθ]

theorem exists_polar {v : ℝ × ℝ} (hv : v ≠ 0) :
    ∃ c : ℝ, 0 < c ∧ v = (c * Real.cos (heading v), c * Real.sin (heading v)) := by
  have hz : (⟨v.1, v.2⟩ : ℂ) ≠ 0 := fun h => hv (Prod.ext (congrArg Complex.re h) (congrArg Complex.im h))
  refine ⟨‖(⟨v.1, v.2⟩ : ℂ)‖, norm_pos_iff.mpr hz, Prod.ext ?_ ?_⟩
  · exact (Complex.norm_mul_cos_arg ⟨v.1, v.2⟩).symm
  · exact (Complex.norm_mul_sin_arg ⟨v.1, v.2⟩).symm

/-- The angle of a turned vector is a quarter turn further on, or three quarters back. -/
theorem heading_quarterTurn {v : ℝ × ℝ} (hv : v ≠ 0) : heading (quarterTurn v) =
    if heading v ≤ Real.pi / 2 then heading v + Real.pi / 2 else heading v - 3 * (Real.pi / 2) := by
  obtain ⟨c, hc, hpolar⟩ := exists_polar hv
  obtain ⟨hlow, hhigh⟩ := heading_mem v
  set θ := heading v
  have hpi := Real.pi_pos
  have hturned : quarterTurn v = (c * Real.cos (θ + Real.pi / 2), c * Real.sin (θ + Real.pi / 2)) := by
    rw [hpolar, quarterTurn_apply, Real.cos_add_pi_div_two, Real.sin_add_pi_div_two, mul_neg]
  rw [hturned]
  split_ifs with h
  · exact heading_of_polar hc ⟨by linarith, by linarith⟩
  · have hback : θ + Real.pi / 2 = θ - 3 * (Real.pi / 2) + 2 * Real.pi := by ring
    rw [hback, Real.cos_add_two_pi, Real.sin_add_two_pi]
    exact heading_of_polar hc ⟨by linarith, by linarith⟩

/-- The weights at the angle of a turned vector stand one place further on. -/
theorem slotWeight_quarterTurn {v : ℝ × ℝ} (hv : v ≠ 0) {r : ℕ} (hr : r < 4) :
    slotWeight (heading (quarterTurn v)) ((r + 1) % 4) = slotWeight (heading v) r := by
  obtain ⟨hlow, hhigh⟩ := heading_mem v
  rw [slotWeight_eq_weightAt, slotWeight_eq_weightAt, heading_quarterTurn hv]
  split_ifs with h
  · have hnext := quarterTurns_add (heading v) 1
    rw [one_mul] at hnext
    have h0 : -2 + 2 ≤ quarterTurns (heading v) := le_quarterTurns (by linarith)
    have h3 : quarterTurns (heading v) ≤ 1 + 2 := quarterTurns_le (by linarith)
    rw [hnext]
    exact weightAt_add_one hr (by linarith) (by linarith)
  · have hnext : quarterTurns (heading v - 3 * (Real.pi / 2)) = quarterTurns (heading v) - 3 := by
      rw [sub_eq_add_neg, ← neg_mul, quarterTurns_add, ← sub_eq_add_neg]
    have h3 : 1 + 2 ≤ quarterTurns (heading v) := le_quarterTurns (by linarith)
    have h4 : quarterTurns (heading v) ≤ 2 + 2 := quarterTurns_le (by linarith)
    rw [hnext]
    exact weightAt_sub_three hr (by linarith) (by linarith)

end SteeredConv
