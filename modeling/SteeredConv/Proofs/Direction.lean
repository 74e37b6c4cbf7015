/-
# Steering by direction

Smoothing is linear, an angle does not depend on the length of its vector, and quarter turns of a
vector move its weights on by as many places. A positive factor of a gradient map therefore changes
nothing but the smoothed map, and quarter turns of its vectors amount to quarter turns of the kernel.

Key definitions: `Orientation.scaled`, `mapVectors`, `turnedVectors`, `SteersAlike`, `VectorsTurnKernel`.
Key theorems: `windowAverage_mapVectors`, `slotWeight_turned`, `shared_weights`, `vectors_turn_kernel`,
`steering_by_direction`.
-/
import SteeredConv.Proofs.Responses

namespace SteeredConv

open Finset Tensor

/-! ### Positive factors -/

section Factors

variable {c : ℝ}

theorem flat_map_of_zero {f : ℝ → ℝ} (hf : f 0 = 0) (t : Tensor ℝ) (i : ℕ) :
    (t.map f).flat i = f (t.flat i) := by
  by_cases hi : i < t.size
  · exact flat_map hi
  · have hsize : (t.map f).size = t.size := rfl
    rw [flat_of_le (by omega), flat_of_le (by omega), hf]

theorem at4_map_of_zero {f : ℝ → ℝ} (hf : f 0 = 0) (t : Tensor ℝ) (n k i j : ℕ) :
    (t.map f).at4 n k i j = f (t.at4 n k i j) := by
  have hext : ∀ a, (t.map f).extent a = t.extent a := fun _ => rfl
  unfold at4
  rw [hext, hext, hext, hext]
  split_ifs
  · exact flat_map_of_zero hf t _
  · exact hf.symm

theorem padded_map_mul (c : ℝ) (t : Tensor ℝ) (pad : ℕ × ℕ) (n k i j : ℕ) :
    (t.map (c * ·)).padded pad n k i j = c * t.padded pad n k i j := by
  unfold padded
  split_ifs
  · exact at4_map_of_zero (mul_zero c) t _ _ _ _
  · exact (mul_zero c).symm

/-- The average of a multiple is the multiple of the average. -/
theorem windowAverage_map_mul (c : ℝ) (s : Sweep) (table x : Tensor ℝ) :
    windowAverage s table (x.map (c * ·)) = (windowAverage s table x).map (c * ·) := by
  have hshape : (windowAverage s table (x.map (c * ·))).shape =
      ((windowAverage s table x).map (c * ·)).shape := rfl
  refine ext_flat hshape fun i hi => ?_
  have hi' : i < (windowAverage s table x).size := hi
  rw [flat_map hi']
  unfold windowAverage ofImages
  rw [flat_ofFlat (by exact hi'), flat_ofFlat (by exact hi')]
  simp only [sumTaps_eq_sum, mul_sum, padded_map_mul, mul_assoc]
  rfl

theorem angles_map_mul (hc : 0 < c) (t : Tensor ℝ) : (angles (t.map (c * ·)) : Tensor ℝ) = angles t := by
  unfold angles
  refine ofImages_congr fun n _ k _ i _ j _ => ?_
  rw [at4_map_of_zero (mul_zero c), at4_map_of_zero (mul_zero c)]
  exact heading_smul hc (vectorAt t n i j)

/-- An orientation whose smoothed map is multiplied by a factor. -/
def Orientation.scaled (c : ℝ) (o : Orientation ℝ ℝ) : Orientation ℝ ℝ :=
  { o with smoothed := o.smoothed.map (c * ·) }

theorem orientationOf_map_mul (hc : 0 < c) (t : Tensor ℝ) :
    (orientationOf (t.map (c * ·)) : Orientation ℝ ℝ) = (orientationOf t).scaled c := by
  unfold orientationOf
  rw [angles_map_mul hc]
  rfl

theorem smooth_map_mul (s : Smoother ℝ) (c : ℝ) (map : Tensor ℝ) :
    s.smooth (map.map (c * ·)) = (fun t => t.map (c * ·)) <$> s.smooth map := by
  have hshape : (map.map (c * ·)).shape = map.shape := rfl
  unfold Smoother.smooth
  rw [hshape]
  cases s.accepts map.shape with
  | error _ => rfl
  | ok g => exact congrArg Except.ok (windowAverage_map_mul c g.sweep _ map)

/-- Only the smoothed map knows a positive factor. -/
theorem orient_map_mul (hc : 0 < c) (e : Estimator ℝ) (map : Tensor ℝ) :
    (orient e (map.map (c * ·)) : Except Fault (Orientation ℝ ℝ × Tensor ℝ)) =
      (fun r => (r.1.scaled c, r.2)) <$> orient e map := by
  unfold orient Estimator.estimate
  rw [smooth_map_mul]
  cases e.smoother.smooth map with
  | error _ => rfl
  | ok t =>
    show (interpolationWeights? (orientationOf (t.map (c * ·))).angle >>= fun weights =>
      Except.ok (orientationOf (t.map (c * ·)), weights.map fun x => Stored.narrow (Stored.widen x))) =
        (fun r : Orientation ℝ ℝ × Tensor ℝ => (r.1.scaled c, r.2)) <$>
          (interpolationWeights? (orientationOf t).angle >>= fun weights =>
            Except.ok (orientationOf t, weights.map fun x => Stored.narrow (Stored.widen x)))
    rw [orientationOf_map_mul hc]
    show (interpolationWeights? (orientationOf t).angle >>= _) = _
    cases interpolationWeights? (orientationOf t : Orientation ℝ ℝ).angle <;> rfl

theorem forwardPass_map_mul (hc : 0 < c) (e : Estimator ℝ) (s : Sweep) (groups : ℕ) (x map w : Tensor ℝ)
    (bias : Option (Tensor ℝ)) : forwardPass e s groups x (map.map (c * ·)) w bias =
      (fun r => (r.1.scaled c, r.2)) <$> forwardPass e s groups x map w bias := by
  unfold forwardPass
  rw [orient_map_mul hc]
  cases (orient e map : Except Fault (Orientation ℝ ℝ × Tensor ℝ)) with
  | error _ => rfl
  | ok r =>
    show (steer s groups x w bias r.2 >>= _) = _ <$> (steer s groups x w bias r.2 >>= _)
    cases steer s groups x w bias r.2 <;> rfl

end Factors

/-! ### Turned vectors -/

section Vectors

variable {f : ℝ × ℝ →ₗ[ℝ] ℝ × ℝ} {t : Tensor ℝ} {N I J : ℕ}

/-- The gradient map whose vectors are the images of those of a map. -/
def mapVectors (f : ℝ × ℝ →ₗ[ℝ] ℝ × ℝ) (t : Tensor ℝ) : Tensor ℝ :=
  ofImages (t.extent 0) 2 (t.extent 2) (t.extent 3) fun n c i j =>
    if c = 0 then (f (vectorAt t n i j)).1 else (f (vectorAt t n i j)).2

theorem shape_mapVectors (f : ℝ × ℝ →ₗ[ℝ] ℝ × ℝ) (ht : t.shape = [N, 2, I, J]) :
    (mapVectors f t).shape = [N, 2, I, J] := by
  obtain ⟨t0, -, t2, t3⟩ := extents ht
  unfold mapVectors
  rw [t0, t2, t3, shape_ofImages]

theorem vectorAt_mapVectors (f : ℝ × ℝ →ₗ[ℝ] ℝ × ℝ) (ht : t.shape = [N, 2, I, J]) (n i j : ℕ) :
    vectorAt (mapVectors f t) n i j = f (vectorAt t n i j) := by
  by_cases hin : n < N ∧ i < I ∧ j < J
  · obtain ⟨hn, hi, hj⟩ := hin
    obtain ⟨t0, -, t2, t3⟩ := extents ht
    have h0 : (mapVectors f t).at4 n 0 i j = (f (vectorAt t n i j)).1 := by
      unfold mapVectors
      rw [t0, t2, t3, at4_ofImages hn (by decide) hi hj]
      rfl
    have h1 : (mapVectors f t).at4 n 1 i j = (f (vectorAt t n i j)).2 := by
      unfold mapVectors
      rw [t0, t2, t3, at4_ofImages hn (by decide) hi hj]
      rfl
    exact Prod.ext h0 h1
  · rw [vectorAt_of_not (shape_mapVectors f ht) hin, vectorAt_of_not ht hin, map_zero]

theorem ext_vectorAt {s : Tensor ℝ} (hs : s.shape = [N, 2, I, J]) (ht : t.shape = [N, 2, I, J])
    (h : ∀ n < N, ∀ i < I, ∀ j < J, vectorAt s n i j = vectorAt t n i j) : s = t := by
  refine ext_at4 hs ht fun n hn c hc i hi j hj => ?_
  have hv := h n hn i hi j hj
  rcases Nat.lt_or_ge c 1 with h0 | h1
  · obtain rfl : c = 0 := by omega
    exact congrArg Prod.fst hv
  · obtain rfl : c = 1 := by omega
    exact congrArg Prod.snd hv

/-- The vector at a row and column of a map with a border of zeros. -/
def paddedVector (t : Tensor ℝ) (pad : ℕ × ℕ) (n i j : ℕ) : ℝ × ℝ :=
  (t.padded pad n 0 i j, t.padded pad n 1 i j)

theorem paddedVector_mapVectors (f : ℝ × ℝ →ₗ[ℝ] ℝ × ℝ) (ht : t.shape = [N, 2, I, J]) (pad : ℕ × ℕ)
    (n i j : ℕ) : paddedVector (mapVectors f t) pad n i j = f (paddedVector t pad n i j) := by
  unfold paddedVector padded
  split_ifs
  · exact vectorAt_mapVectors f ht n _ _
  · exact (map_zero f).symm

/-- A smoothed vector is the sum of the vectors of its window with the weights of the table. -/
theorem vectorAt_windowAverage {s : Sweep} {table : Tensor ℝ} (ht : t.shape = [N, 2, I, J]) {n : ℕ}
    (hn : n < N) {p : ℕ × ℕ} (hp : p ∈ cells (s.grid table.footprint (I, J))) :
    vectorAt (windowAverage s table t) n p.1 p.2 = ∑ u ∈ cells table.footprint, table.at2 u.1 u.2 •
      paddedVector t s.pad n (p.1 * s.stride.1 + u.1) (p.2 * s.stride.2 + u.2) := by
  unfold vectorAt
  rw [at4_windowAverage ht hn (by decide) hp, at4_windowAverage ht hn (by decide) hp]
  refine Prod.ext ?_ ?_
  · rw [Prod.fst_sum]
    exact sum_congr rfl fun u _ => mul_comm _ _
  · rw [Prod.snd_sum]
    exact sum_congr rfl fun u _ => mul_comm _ _

/-- Smoothing commutes with every linear map of the vectors. -/
theorem windowAverage_mapVectors (f : ℝ × ℝ →ₗ[ℝ] ℝ × ℝ) (s : Sweep) (table : Tensor ℝ)
    (ht : t.shape = [N, 2, I, J]) :
    windowAverage s table (mapVectors f t) = mapVectors f (windowAverage s table t) := by
  have hshape : ∀ u : Tensor ℝ, u.shape = [N, 2, I, J] → (windowAverage s table u).shape =
      [N, 2, (s.grid table.footprint (I, J)).1, (s.grid table.footprint (I, J)).2] := fun u hu => by
    obtain ⟨u0, u1, -, -⟩ := extents hu
    rw [shape_windowAverage, u0, u1, area_batch hu]
  have hmapped := shape_mapVectors f ht
  refine ext_vectorAt (hshape _ hmapped) (shape_mapVectors f (hshape _ ht)) fun n hn i hi j hj => ?_
  have hp : (i, j) ∈ cells (s.grid table.footprint (I, J)) := mem_cells.mpr ⟨hi, hj⟩
  have hleft : vectorAt (windowAverage s table (mapVectors f t)) n i j = _ := vectorAt_windowAverage hmapped hn hp
  have hright : vectorAt (windowAverage s table t) n i j = _ := vectorAt_windowAverage ht hn hp
  rw [vectorAt_mapVectors f (hshape _ ht), hleft, hright, map_sum]
  refine sum_congr rfl fun u _ => ?_
  rw [map_smul, paddedVector_mapVectors f ht]

theorem smooth_mapVectors (f : ℝ × ℝ →ₗ[ℝ] ℝ × ℝ) {s : Smoother ℝ} {smoothed : Tensor ℝ}
    (ht : t.shape = [N, 2, I, J]) (h : s.smooth t = .ok smoothed) :
    s.smooth (mapVectors f t) = .ok (mapVectors f smoothed) := by
  obtain ⟨g, hg, h⟩ := bind_eq_ok_iff.mp h
  obtain rfl := Except.ok.inj h
  unfold Smoother.smooth
  rw [shape_mapVectors f ht, ← ht, hg, ok_bind, windowAverage_mapVectors f _ _ ht]
  rfl

/-- A gradient map whose vectors are turned by a number of quarter turns. -/
noncomputable def turnedVectors (d : ℤ) (t : Tensor ℝ) : Tensor ℝ := mapVectors (quarterTurn ^ d).toLinearMap t

theorem vectorAt_turnedVectors (d : ℤ) (ht : t.shape = [N, 2, I, J]) (n i j : ℕ) :
    vectorAt (turnedVectors d t) n i j = (quarterTurn ^ d) (vectorAt t n i j) :=
  vectorAt_mapVectors _ ht n i j

theorem vectorAt_turnedVectors_ne_zero {d : ℤ} (ht : t.shape = [N, 2, I, J]) {n i j : ℕ} :
    vectorAt (turnedVectors d t) n i j ≠ 0 ↔ vectorAt t n i j ≠ 0 := by
  rw [vectorAt_turnedVectors d ht]
  exact LinearEquiv.map_ne_zero_iff _

/-- Quarter turns of a vector move its weights on by as many places. -/
theorem slotWeight_turned {v : ℝ × ℝ} (hv : v ≠ 0) (d : ℤ) {r : ℕ} (hr : r < 4) :
    slotWeight (heading ((quarterTurn ^ d) v)) ((r + turnsOf d) % 4) = slotWeight (heading v) r := by
  have hne : ∀ d : ℤ, (quarterTurn ^ d) v ≠ 0 := fun d => (LinearEquiv.map_ne_zero_iff _).mpr hv
  have hstep : ∀ d : ℤ, (quarterTurn ^ (d + 1)) v = quarterTurn ((quarterTurn ^ d) v) := fun d => by
    rw [add_comm, zpow_one_add]
    rfl
  have hplace : ∀ d : ℤ, (r + turnsOf (d + 1)) % 4 = ((r + turnsOf d) % 4 + 1) % 4 := fun d => by
    unfold turnsOf rotations
    omega
  induction d using Int.induction_on with
  | zero =>
    have h0 : (r + turnsOf 0) % 4 = r := Nat.mod_eq_of_lt hr
    rw [zpow_zero, h0]
    rfl
  | succ d ih =>
    rw [hstep, hplace, slotWeight_quarterTurn (hne d) (by omega), ih]
  | pred d ih =>
    rw [← ih]
    have hnext : -(d : ℤ) = -d - 1 + 1 := by ring
    rw [hnext, hstep, hplace, slotWeight_quarterTurn (hne _) (by omega)]
    simp

end Vectors

/-! ### Turned vectors and turned kernels -/

section Kernels

variable {e : Estimator ℝ} {s : Sweep} {groups : ℕ} {x map w : Tensor ℝ} {bias : Option (Tensor ℝ)}

theorem sum_rotated {M : Type} [AddCommMonoid M] {t : ℕ} (ht : t < 4) (f : ℕ → M) :
    ∑ r ∈ range 4, f ((r + t) % 4) = ∑ r ∈ range 4, f r := by
  refine sum_nbij' (fun r => (r + t) % 4) (fun r => (r + (4 - t)) % 4) ?_ ?_ ?_ ?_ fun _ _ => rfl
  all_goals
    intro r hr
    simp only [mem_range] at hr ⊢
    omega

theorem turnsOf_lt (d : ℤ) : turnsOf d < 4 := by
  unfold turnsOf rotations
  omega

theorem turnCount_emod (d : ℤ) : TurnCount (d % 4) := by
  have h : Int.pow 2 63 = 9223372036854775808 := rfl
  unfold TurnCount
  omega

/-- The vector of a gradient map used at given coordinates of a batch that it is combined to. -/
def sharedVector (t : Tensor ℝ) (n i j : ℕ) : ℝ × ℝ := (t.shared n 0 i j, t.shared n 1 i j)

theorem shared_eq_at4 {t : Tensor ℝ} (ht : t.extent 1 ≠ 1) (n c i j : ℕ) : t.shared n c i j =
    t.at4 (sharedIndex (t.extent 0) n) c (sharedIndex (t.extent 2) i) (sharedIndex (t.extent 3) j) := by
  have hown : sharedIndex (t.extent 1) c = c := if_neg ht
  unfold shared
  rw [hown]

section Shared

variable {t : Tensor ℝ} {N I J n i j r : ℕ}

theorem sharedVector_eq (ht : t.shape = [N, 2, I, J]) (n i j : ℕ) :
    sharedVector t n i j = vectorAt t (sharedIndex N n) (sharedIndex I i) (sharedIndex J j) := by
  obtain ⟨t0, t1, t2, t3⟩ := extents ht
  unfold sharedVector vectorAt
  rw [shared_eq_at4 (by omega), shared_eq_at4 (by omega), t0, t2, t3]

theorem sharedVector_of_lt (ht : t.shape = [N, 2, I, J]) (hn : n < N) (hi : i < I) (hj : j < J) :
    sharedVector t n i j = vectorAt t n i j := by
  rw [sharedVector_eq ht, sharedIndex_of_lt hn, sharedIndex_of_lt hi, sharedIndex_of_lt hj]

theorem shared_angles (ht : t.shape = [N, 2, I, J])
    (hin : sharedIndex N n < N ∧ sharedIndex I i < I ∧ sharedIndex J j < J) :
    (angles t : Tensor ℝ).shared n 0 i j = heading (sharedVector t n i j) := by
  obtain ⟨hn, hi, hj⟩ := hin
  obtain ⟨a0, a1, a2, a3⟩ := extents (shape_angles ht : (angles t : Tensor ℝ).shape = _)
  rw [sharedVector_eq ht, ← at4_angles ht hn hi hj]
  unfold shared
  rw [a0, a1, a2, a3]
  rfl

/-- The weights used at given coordinates are those of the vector used there. -/
theorem shared_weights (ht : t.shape = [N, 2, I, J])
    (hin : sharedIndex N n < N ∧ sharedIndex I i < I ∧ sharedIndex J j < J) (hr : r < 4) :
    (interpolationWeights (angles t : Tensor ℝ)).shared n r i j = slotWeight (heading (sharedVector t n i j)) r := by
  obtain ⟨hn, hi, hj⟩ := hin
  have hq : (interpolationWeights (angles t : Tensor ℝ)).shape = [N, 4, I, J] :=
    (interpolationWeights_eq (shape_angles ht)).2
  obtain ⟨q0, q1, q2, q3⟩ := extents hq
  rw [shared_eq_at4 (by omega), q0, q2, q3, at4_weights ht hn hr hi hj, sharedVector_eq ht]

theorem shared_weights_turned (ht : t.shape = [N, 2, I, J]) (d : ℤ) (hv : sharedVector t n i j ≠ 0) (hr : r < 4) :
    (interpolationWeights (angles (turnedVectors d t) : Tensor ℝ)).shared n ((r + turnsOf d) % 4) i j =
      (interpolationWeights (angles t : Tensor ℝ)).shared n r i j := by
  have hturned : (turnedVectors d t).shape = [N, 2, I, J] := shape_mapVectors _ ht
  -- a vector that is not zero lies inside the map
  have hin : sharedIndex N n < N ∧ sharedIndex I i < I ∧ sharedIndex J j < J := by
    by_contra hout
    exact hv ((sharedVector_eq ht n i j).trans (vectorAt_of_not ht hout))
  rw [shared_weights hturned hin (by omega), shared_weights ht hin hr, sharedVector_eq hturned,
    vectorAt_turnedVectors d ht, ← sharedVector_eq ht, slotWeight_turned hv d hr]

end Shared

/-- The responses to a kernel with the weights of turned vectors are those to the turned kernel with the
weights of the vectors. -/
theorem blendAt_turned {q q' : Tensor ℝ} {O B k : ℕ} (hw : w.shape = [O, B, k, k]) (d : ℤ) {n i j : ℕ}
    (hq : ∀ r < 4, q'.shared n ((r + turnsOf d) % 4) i j = q.shared n r i j) (o : ℕ) :
    blendAt s groups x w q' n o i j = blendAt s groups x (turned (turnsOf d) w) q n o i j := by
  unfold blendAt
  rw [← sum_rotated (turnsOf_lt d)]
  refine sum_congr rfl fun r hr => ?_
  rw [mem_range] at hr
  rw [hq r hr, turned_turned hw, turned_mod hw, Nat.add_comm]

/-- A forward pass with a kernel `v` and one with `w` and a number of quarter turns of the vectors succeed,
the smoothed map has its vectors turned, and the outputs have the same shape and are the same, in every
channel, at each window with a smoothed vector that is not zero. -/
def SteersAlike (e : Estimator ℝ) (s : Sweep) (groups : ℕ) (x map w : Tensor ℝ) (bias : Option (Tensor ℝ))
    (d : ℤ) (v : Tensor ℝ) : Prop :=
  ∃ (y y' : Tensor ℝ) (o o' : Orientation ℝ ℝ) (p p' : ForwardPass ℝ),
    forwardPass e s groups x map v bias = .ok (o, y, p) ∧
    forwardPass e s groups x (turnedVectors d map) w bias = .ok (o', y', p') ∧
    o'.smoothed = turnedVectors d o.smoothed ∧ y'.shape = y.shape ∧
    ∀ n i j, sharedVector o.smoothed n i j ≠ 0 → ∀ c, y'.at4 n c i j = y.at4 n c i j

/-- Turning the vectors of a gradient map amounts to turning the kernel by what remains of the number of
turns modulo four. This is the kernel turned by the number itself if that has 64 bits, other numbers are
refused. -/
def VectorsTurnKernel (e : Estimator ℝ) (s : Sweep) (groups : ℕ) (x map w : Tensor ℝ)
    (bias : Option (Tensor ℝ)) (d : ℤ) : Prop :=
  ∃ v : Tensor ℝ, rotate w (d % 4) = .ok v ∧ (TurnCount d → rotate w d = .ok v) ∧
    (¬TurnCount d → rotate w d = .error (.badValue "")) ∧ SteersAlike e s groups x map w bias d v

/-- The orientation of a map with turned vectors. -/
theorem orient_turnedVectors {o : Orientation ℝ ℝ} {q : Tensor ℝ} (h : orient e map = .ok (o, q))
    (hmap : map.extent 1 = 2) (d : ℤ) : ∃ (o' : Orientation ℝ ℝ) (q' : Tensor ℝ),
      orient e (turnedVectors d map) = .ok (o', q') ∧ o'.smoothed = turnedVectors d o.smoothed ∧
        q.extent 1 = 4 ∧ q'.shape = q.shape ∧ ∀ n i j, sharedVector o.smoothed n i j ≠ 0 →
          ∀ r < 4, q'.shared n ((r + turnsOf d) % 4) i j = q.shared n r i j := by
  obtain ⟨hsmooth, -, rfl, N, I, J, hs⟩ := orient_eq_ok h hmap
  obtain ⟨M, H, W, hmap'⟩ : ∃ M H W, map.shape = [M, 2, H, W] := by
    obtain ⟨g, hg, -⟩ := bind_eq_ok_iff.mp hsmooth
    obtain ⟨M, C, H, W, hshape, -⟩ := Smoother.extents_of_accepts hg
    obtain rfl : C = 2 := (extents hshape).2.1.symm.trans hmap
    exact ⟨M, H, W, hshape⟩
  have hturned : (turnedVectors d o.smoothed).shape = [N, 2, I, J] := shape_mapVectors _ hs
  have hsmooth' : e.smoother.smooth (turnedVectors d map) = .ok (turnedVectors d o.smoothed) :=
    smooth_mapVectors _ hmap' hsmooth
  have hq := (interpolationWeights_eq (shape_angles (γ := ℝ) hs)).2
  have hq' := (interpolationWeights_eq (shape_angles (γ := ℝ) hturned)).2
  exact ⟨_, _, orient_of_smooth hsmooth', rfl, (extents hq).2.1, hq'.trans hq.symm,
    fun n i j hv r hr => shared_weights_turned hs d hv hr⟩

/-- Turned vectors and turned kernels, for everything with which a forward pass succeeds. -/
theorem steersAlike_turned {r : Orientation ℝ ℝ × Tensor ℝ × ForwardPass ℝ}
    (h : forwardPass e s groups x map w bias = .ok r) (hmap : map.extent 1 = 2) (d : ℤ) :
    SteersAlike e s groups x map w bias d (turned (turnsOf d) w) := by
  obtain ⟨o, y, p⟩ := r
  obtain ⟨q, horient, hsteer, -⟩ := forwardPass_eq_ok_iff.mp h
  obtain ⟨o', q', horient', hsmoothed, hq4, hqs, hweights⟩ := orient_turnedVectors horient hmap d
  obtain ⟨O, B, k, hw⟩ := kernels_of_steer hq4 hsteer
  -- from the kernel to the turned kernel, and from there to the turned vectors
  obtain ⟨_, hkernel⟩ := steer_congr hq4 hsteer
  obtain ⟨y₁, hy₁, -, -⟩ := hkernel (turned (turnsOf d) w) q rfl rfl
  obtain ⟨_, hvectors⟩ := steer_congr hq4 hy₁
  obtain ⟨y₂, hy₂, hshape, hat⟩ := hvectors w q' rfl hqs
  exact ⟨y₁, y₂, o, o', _, _, forwardPass_eq_ok_iff.mpr ⟨q, horient, hy₁, rfl⟩,
    forwardPass_eq_ok_iff.mpr ⟨q', horient', hy₂, rfl⟩, hsmoothed, hshape,
    fun n i j hv => hat n i j (blendAt_turned hw d (hweights n i j hv))⟩

/-- The kernel of a pass that succeeds can be turned by every number of turns of 64 bits. -/
theorem vectors_turn_kernel {r : Orientation ℝ ℝ × Tensor ℝ × ForwardPass ℝ}
    (h : forwardPass e s groups x map w bias = .ok r) (hmap : map.extent 1 = 2) (d : ℤ) :
    VectorsTurnKernel e s groups x map w bias d := by
  obtain ⟨q, horient, hsteer, -⟩ := forwardPass_eq_ok_iff.mp h
  obtain ⟨-, -, -, -, hq4, -⟩ := orient_turnedVectors horient hmap d
  obtain ⟨O, B, k, hw⟩ := kernels_of_steer hq4 hsteer
  have hplanes : w.shape = [O, B] ++ [k, k] := hw
  have hrest : turnsOf (d % 4) = turnsOf d := congrArg Int.toNat (Int.emod_emod_of_dvd d (dvd_refl 4))
  exact ⟨turned (turnsOf d) w, hrest ▸ rotate_eq_ok hplanes (turnCount_emod d), rotate_eq_ok hplanes,
    fun hd => (rotate_of_square hplanes d).trans (if_neg hd), steersAlike_turned h hmap d⟩

/-- Steering depends on the direction of the gradient alone, and is interchangeable with turning the
kernel: for every estimator, sweep, number of groups, batch, map, kernel and bias, a positive factor of
the map multiplies the smoothed map and changes nothing else, and where a forward pass with a map of
vectors succeeds, any number of quarter turns of its vectors amounts to as many of the kernel. -/
theorem steering_by_direction (e : Estimator ℝ) (s : Sweep) (groups : ℕ) (x map w : Tensor ℝ)
    (bias : Option (Tensor ℝ)) :
    (∀ c : ℝ, 0 < c → forwardPass e s groups x (map.map (c * ·)) w bias =
      (fun r => (r.1.scaled c, r.2)) <$> forwardPass e s groups x map w bias) ∧
    ∀ r : Orientation ℝ ℝ × Tensor ℝ × ForwardPass ℝ, forwardPass e s groups x map w bias = .ok r →
      map.extent 1 = 2 → ∀ d : ℤ, VectorsTurnKernel e s groups x map w bias d :=
  ⟨fun _ hc => forwardPass_map_mul hc e s groups x map w bias,
    fun _ h hmap d => vectors_turn_kernel h hmap d⟩

theorem steering_by_direction_sample :
    VectorsTurnKernel ⟨⟨.orientation, "torch", {}⟩, evenSmoother sampleGeometry⟩ sampleGeometry.sweep 2
      (fill [1, 4, 3, 2] 1) (fill [1, 2, 3, 2] 1) (fill [2, 2, 2, 2] 1) (some (fill [2] 1)) (-3) := by
  obtain ⟨_, _, horient⟩ := accepted_sample.exists_orient
  obtain ⟨-, hpass⟩ := accepted_sample.forwardPass_eq horient
  exact (steering_by_direction _ _ _ _ _ _ _).2 _ hpass rfl (-3)

/-- Images of one pixel, and windows of that pixel. -/
theorem accepted_pixel : Accepted ⟨⟨.orientation, "torch", {}⟩, evenSmoother (squareWindows 1 0 (by decide))⟩
    (squareWindows 1 0 (by decide)) 1 (fill [1, 1, 1, 1] 1) (fill [1, 2, 1, 1] 1) (fill [1, 1, 1, 1] 1) none where
  options := ⟨.null, rfl⟩
  sound := sound_evenSmoother _
  correlates := by
    show Correlates _ _ [1, 1, 1, 1] [1, 1, 1, 1]
    decide
  square := rfl
  footprint := rfl
  map := rfl
  bias := by rintro _ ⟨⟩

/-- Of one pixel the smoothed vector is the vector itself. -/
theorem smoothed_pixel : vectorAt (windowAverage (squareWindows 1 0 (by decide)).sweep
    (evenSmoother (squareWindows 1 0 (by decide))).table (fill [1, 2, 1, 1] (1 : ℝ))) 0 0 0 = (1, 1) := by
  have hmap : (fill [1, 2, 1, 1] (1 : ℝ)).shape = [1, 2, 1, 1] := rfl
  have hcell : ((0, 0) : ℕ × ℕ) ∈ cells ((squareWindows 1 0 (by decide)).sweep.grid
      (evenSmoother (squareWindows 1 0 (by decide))).table.footprint (1, 1)) := by decide
  refine (vectorAt_windowAverage hmap Nat.one_pos hcell).trans ?_
  have hcells : cells (evenSmoother (squareWindows 1 0 (by decide))).table.footprint = {(0, 0)} := rfl
  have hweight : (evenSmoother (squareWindows 1 0 (by decide))).table.at2 0 0 = 1 :=
    (flat_fill (by decide) _).trans (by norm_num [squareWindows])
  have hvector : paddedVector (fill [1, 2, 1, 1] (1 : ℝ)) (0, 0) 0 0 0 = (1, 1) :=
    Prod.ext (flat_fill (show 0 < volume [1, 2, 1, 1] by decide) 1)
      (flat_fill (show 1 < volume [1, 2, 1, 1] by decide) 1)
  rw [hcells, sum_singleton]
  exact (congrArg₂ (· • ·) hweight hvector).trans (one_smul ℝ _)

/-- A pass with a smoothed vector that is not zero, and a number of turns for which its kernel is refused. -/
theorem turned_kernel_refused : ∃ (o : Orientation ℝ ℝ) (y : Tensor ℝ) (p : ForwardPass ℝ),
    forwardPass ⟨⟨.orientation, "torch", {}⟩, evenSmoother (squareWindows 1 0 (by decide))⟩
      (squareWindows 1 0 (by decide)).sweep 1 (fill [1, 1, 1, 1] 1) (fill [1, 2, 1, 1] 1) (fill [1, 1, 1, 1] 1)
      none = .ok (o, y, p) ∧ sharedVector o.smoothed 0 0 0 ≠ 0 ∧
    rotate (fill [1, 1, 1, 1] (1 : ℝ)) 9223372036854775808 = .error (.badValue "") := by
  obtain ⟨o, q, horient⟩ := accepted_pixel.exists_orient
  obtain ⟨-, hpass⟩ := accepted_pixel.forwardPass_eq horient
  obtain ⟨hsmooth, -⟩ := orient_eq_ok horient rfl
  rw [Smoother.smooth_eq accepted_pixel.accepts_map, Except.ok.injEq, map_narrow_real] at hsmooth
  refine ⟨o, _, _, hpass, ?_, ?_⟩
  · have hs : o.smoothed.shape = [1, 2, 1, 1] := by
      rw [← hsmooth]
      rfl
    rw [sharedVector_of_lt hs Nat.one_pos Nat.one_pos Nat.one_pos, ← hsmooth, smoothed_pixel]
    simp
  · have hshape : (fill [1, 1, 1, 1] (1 : ℝ)).shape = [1, 1] ++ [1, 1] := rfl
    exact (rotate_of_square hshape _).trans (if_neg (by decide))

end Kernels
end SteeredConv
