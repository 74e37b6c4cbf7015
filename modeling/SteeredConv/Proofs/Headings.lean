/-
# Headings of smoothed vectors

The orientation of a map of vectors has three parts at every window: the sum of the vectors of the window
with the weights of the table, each component for itself; the angle of that vector, above minus half a turn
and at most half a turn; and the sine and the cosine of the angle, which are the height and the width of the
unit vector that points the same way. A smoothed vector of zero has the angle zero. A vector has exactly one
such angle, sine and cosine, so these properties leave no choice in the order of its components.

Key definitions: `vectorLength`, `HasHeading`, `Orientation.Follows`.
Key theorems: `polar_heading`, `hasHeading_iff`, `Orientation.follows_windowAverage`, `orientations_follow_vectors`.
-/
import SteeredConv.Proofs.Spreading

namespace SteeredConv

open Finset Tensor

/-! ### The unit vector of an angle -/

section Headings

variable {v : ℝ × ℝ} {angle sine cosine : ℝ}

noncomputable def vectorLength (v : ℝ × ℝ) : ℝ := Real.sqrt (v.1 ^ 2 + v.2 ^ 2)

/-- The angle of a vector with its sine and its cosine, the height and the width of the unit vector that
points the same way. -/
structure HasHeading (v : ℝ × ℝ) (angle sine cosine : ℝ) : Prop where
  range : angle ∈ Set.Ioc (-Real.pi) Real.pi
  sine_eq : sine = Real.sin angle
  cosine_eq : cosine = Real.cos angle
  unit : sine ^ 2 + cosine ^ 2 = 1
  horizontal : v.1 = vectorLength v * cosine
  vertical : v.2 = vectorLength v * sine
  rest : v = 0 → angle = 0 ∧ sine = 0 ∧ cosine = 1

theorem heading_zero : heading 0 = 0 := Complex.arg_zero

theorem vectorLength_polar {c : ℝ} (hc : 0 ≤ c) (θ : ℝ) : vectorLength (c * Real.cos θ, c * Real.sin θ) = c := by
  have hsquares : (c * Real.cos θ) ^ 2 + (c * Real.sin θ) ^ 2 = c ^ 2 := by
    linear_combination c ^ 2 * Real.cos_sq_add_sin_sq θ
  unfold vectorLength
  rw [hsquares, Real.sqrt_sq hc]

theorem vectorLength_pos (hv : v ≠ 0) : 0 < vectorLength v := by
  obtain ⟨c, hc, hpolar⟩ := exists_polar hv
  rw [hpolar, vectorLength_polar hc.le]
  exact hc

/-- A vector is its length in the direction of its angle, in all quadrants, on the axes and at zero. -/
theorem polar_heading (v : ℝ × ℝ) :
    v = (vectorLength v * Real.cos (heading v), vectorLength v * Real.sin (heading v)) := by
  by_cases hv : v = 0
  · subst hv
    exact Prod.ext (by simp [vectorLength]) (by simp [vectorLength])
  · obtain ⟨c, hc, hpolar⟩ := exists_polar hv
    have hlength : vectorLength v = c := by
      rw [hpolar]
      exact vectorLength_polar hc.le _
    rw [hlength]
    exact hpolar

/-- A vector has exactly one heading. -/
theorem hasHeading_iff : HasHeading v angle sine cosine ↔
    angle = heading v ∧ sine = Real.sin (heading v) ∧ cosine = Real.cos (heading v) := by
  constructor
  · rintro ⟨hrange, rfl, rfl, -, hhorizontal, hvertical, hrest⟩
    -- away from zero the length leaves one direction and the range one angle of it; at zero every angle
    -- has the right components and only `rest` decides
    have hangle : angle = heading v := by
      by_cases hv : v = 0
      · rw [(hrest hv).1, hv, heading_zero]
      · have hpolar : v = (vectorLength v * Real.cos angle, vectorLength v * Real.sin angle) :=
          Prod.ext hhorizontal hvertical
        rw [hpolar]
        exact (heading_of_polar (vectorLength_pos hv) hrange).symm
    rw [hangle]
    exact ⟨rfl, rfl, rfl⟩
  · rintro ⟨rfl, rfl, rfl⟩
    refine ⟨heading_mem v, rfl, rfl, Real.sin_sq_add_cos_sq _, congrArg Prod.fst (polar_heading v),
      congrArg Prod.snd (polar_heading v), ?_⟩
    rintro rfl
    rw [heading_zero]
    exact ⟨rfl, Real.sin_zero, Real.cos_zero⟩

end Headings

/-! ### Orientations -/

section Orientations

variable {g : Geometry} {table map : Tensor ℝ} {N H W : ℕ}

/-- An orientation belongs to a map of vectors and the windows of a geometry. A component of a smoothed vector
is the sum of that component over the pixels of the window, each with the entry of the table whose tap is on it. -/
structure Orientation.Follows (r : Orientation ℝ ℝ) (g : Geometry) (table map : Tensor ℝ) (N H W : ℕ) : Prop where
  shape_smoothed : r.smoothed.shape =
    [N, 2, (g.sweep.grid g.kernel (H, W)).1, (g.sweep.grid g.kernel (H, W)).2]
  shape_angle : r.angle.shape = [N, 1, (g.sweep.grid g.kernel (H, W)).1, (g.sweep.grid g.kernel (H, W)).2]
  shape_sinCos : r.sinCos.shape = [N, 2, (g.sweep.grid g.kernel (H, W)).1, (g.sweep.grid g.kernel (H, W)).2]
  component : ∀ n < N, ∀ c < 2, ∀ p ∈ cells (g.sweep.grid g.kernel (H, W)), r.smoothed.at4 n c p.1 p.2 =
    ∑ t ∈ cells g.kernel, ∑ q ∈ cells (H, W),
      if g.sweep.Meets p t q then table.at2 t.1 t.2 * map.at4 n c q.1 q.2 else 0
  heading : ∀ n < N, ∀ p ∈ cells (g.sweep.grid g.kernel (H, W)), HasHeading (vectorAt r.smoothed n p.1 p.2)
    (r.angle.at4 n 0 p.1 p.2) (r.sinCos.at4 n 0 p.1 p.2) (r.sinCos.at4 n 1 p.1 p.2)

/-- At every window the angle, its sine and its cosine are those of the smoothed vector. -/
theorem hasHeading_orientationOf {smoothed : Tensor ℝ} {I J : ℕ} (hs : smoothed.shape = [N, 2, I, J]) {n i j : ℕ}
    (hn : n < N) (hi : i < I) (hj : j < J) : HasHeading (vectorAt smoothed n i j)
      ((orientationOf smoothed : Orientation ℝ ℝ).angle.at4 n 0 i j)
      ((orientationOf smoothed : Orientation ℝ ℝ).sinCos.at4 n 0 i j)
      ((orientationOf smoothed : Orientation ℝ ℝ).sinCos.at4 n 1 i j) := by
  have hangle : (angles smoothed : Tensor ℝ).at4 n 0 i j = heading (vectorAt smoothed n i j) := at4_angles hs hn hi hj
  have hsine : (sinesAndCosines (angles smoothed : Tensor ℝ)).at4 n 0 i j =
      Real.sin ((angles smoothed : Tensor ℝ).at4 n 0 i j) :=
    at4_sinesAndCosines (shape_angles hs) hn (by decide) hi hj
  have hcosine : (sinesAndCosines (angles smoothed : Tensor ℝ)).at4 n 1 i j =
      Real.cos ((angles smoothed : Tensor ℝ).at4 n 0 i j) :=
    at4_sinesAndCosines (shape_angles hs) hn (by decide) hi hj
  rw [hangle] at hsine hcosine
  exact hasHeading_iff.mpr ⟨hangle, hsine, hcosine⟩

/-- The orientation of a map that is averaged with a table of the size of the windows. -/
theorem Orientation.follows_windowAverage (hmap : map.shape = [N, 2, H, W]) (htable : table.footprint = g.kernel) :
    (orientationOf (windowAverage g.sweep table map) : Orientation ℝ ℝ).Follows g table map N H W := by
  obtain ⟨m0, m1, -, -⟩ := extents hmap
  have hs : (windowAverage g.sweep table map).shape =
      [N, 2, (g.sweep.grid g.kernel (H, W)).1, (g.sweep.grid g.kernel (H, W)).2] := by
    rw [shape_windowAverage, m0, m1, area_batch hmap, htable]
  refine ⟨hs, shape_angles hs, shape_sinesAndCosines (shape_angles hs), fun n hn c hc p hp => ?_, fun n hn p hp => ?_⟩
  · rw [← htable] at hp ⊢
    exact at4_windowAverage_eq_sum hmap hn hc hp
  · obtain ⟨hi, hj⟩ := mem_cells.mp hp
    exact hasHeading_orientationOf hs hn hi hj

/-- Every map of vectors that the windows of an estimator fit has an orientation, and it follows the vectors
of the map under the table of the options, for every footprint, stride, border and deviation, normalized or not. -/
theorem orientations_follow_vectors {sigma normalize : Value} {globals : GlobalOptions} {e : Estimator ℝ}
    (he : (Estimator.create (g.windowOptions sigma normalize) globals).Gives e) (hmap : map.shape = [N, 2, H, W]) :
    (g.windowOptions sigma normalize).table ℝ = .ok e.smoother.table ∧
    ((∃ r : Orientation ℝ ℝ, e.estimate map = .ok r) ↔
      Whole N H W ∧ g.kernel.1 ≤ H + 2 * g.pad.1 ∧ g.kernel.2 ≤ W + 2 * g.pad.2) ∧
    ∀ r : Orientation ℝ ℝ, e.estimate map = .ok r → r.Follows g e.smoother.table map N H W := by
  have hsmoother := Estimator.smoother_of_create he
  obtain ⟨hoptions, hsound⟩ := Smoother.sound_of_create hsmoother
  have hg : e.smoother.geometry = .ok g := by
    rw [Smoother.geometry_eq_ok_iff, hoptions]
    exact ⟨rfl, rfl, rfl, rfl, rfl, rfl⟩
  refine ⟨?_, ?_, fun r hr => ?_⟩
  · obtain ⟨_, table, -, -, htable, hparts⟩ := Smoother.parts_of_create hsmoother
    rw [hparts]
    exact htable
  · have hsmooths : (∃ r : Orientation ℝ ℝ, e.estimate map = .ok r) ↔ ∃ t, e.smoother.smooth map = .ok t := by
      constructor
      · rintro ⟨r, hr⟩
        obtain ⟨t, ht, -⟩ := Estimator.estimate_eq_ok_iff.mp hr
        exact ⟨t, ht⟩
      · rintro ⟨t, ht⟩
        exact ⟨_, Estimator.estimate_eq_ok_iff.mpr ⟨t, ht, rfl⟩⟩
    rw [hsmooths, Smoother.smooths_iff hg hmap]
    exact and_iff_right Nat.two_pos
  · obtain ⟨t, ht, rfl⟩ := Estimator.estimate_eq_ok_iff.mp hr
    obtain ⟨-, rfl⟩ := (Smoother.smooth_eq_ok_iff hg hmap).mp ht
    rw [map_narrow_real]
    exact Orientation.follows_windowAverage hmap (hsound.footprint hg)

/-- An estimator whose first row of windows holds nothing but the border. -/
noncomputable def overhangingEstimator : Estimator ℝ where
  operator := ⟨.orientation, "torch", {}⟩
  smoother :=
    { operator := ⟨.smoother, "torch", {}⟩
      options := overhangingWindows.windowOptions .null (.bool false)
      table := gaussianTable 2 3 (middle 2, middle 3) (footprintDeviation 2 3) false }

/-- Five rows of four vectors have headings at four rows of four windows, which in the first row are those of
the vector zero. -/
theorem orientations_follow_vectors_sample : ∃ r : Orientation ℝ ℝ,
    overhangingEstimator.estimate (fill [2, 2, 5, 4] 1) = .ok r ∧
    r.Follows overhangingWindows overhangingEstimator.smoother.table (fill [2, 2, 5, 4] 1) 2 5 4 ∧
    r.angle.shape = [2, 1, 4, 4] ∧
    r.angle.at4 1 0 0 2 = 0 ∧ r.sinCos.at4 1 0 0 2 = 0 ∧ r.sinCos.at4 1 1 0 2 = 1 := by
  have hcreate : (Estimator.create (overhangingWindows.windowOptions .null (.bool false)) {}).Gives
      overhangingEstimator := ⟨Journal.empty, by with_unfolding_all rfl⟩
  obtain ⟨-, hestimates, hfollows⟩ := orientations_follow_vectors hcreate
    (show (fill [2, 2, 5, 4] (1 : ℝ)).shape = [2, 2, 5, 4] from shape_fill _ _)
  obtain ⟨r, hr⟩ := hestimates.mpr ⟨.inr (by decide), by decide, by decide⟩
  have hp : ((0, 2) : ℕ × ℕ) ∈ cells (overhangingWindows.sweep.grid overhangingWindows.kernel (5, 4)) :=
    mem_cells.mpr (by decide)
  -- the two taps of the first row of windows lie in the first two of the three rows above the image
  have hborder (c : ℕ) (hc : c < 2) : r.smoothed.at4 1 c 0 2 = 0 := by
    rw [(hfollows r hr).component 1 (by decide) c hc (0, 2) hp]
    refine sum_eq_zero fun t ht => sum_eq_zero fun q _ => if_neg fun hmeets => ?_
    obtain ⟨hrow, -⟩ := mem_cells.mp ht
    have hreads : t.1 < 2 := hrow
    have hmeets' : 0 * 3 + t.1 = q.1 + 3 := hmeets.1
    omega
  have hzero : vectorAt r.smoothed 1 0 2 = 0 := Prod.ext (hborder 0 (by decide)) (hborder 1 (by decide))
  exact ⟨r, hr, hfollows r hr, (hfollows r hr).shape_angle,
    ((hfollows r hr).heading 1 (by decide) (0, 2) hp).rest hzero⟩

end Orientations
end SteeredConv
