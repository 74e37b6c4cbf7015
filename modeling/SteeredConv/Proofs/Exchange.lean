/-
# Exchanging and scaling compared batches

Which of two batches comes first makes no difference to their similarity: numerators and
denominators stay as they are, so the two gradients change places with the batches. The
similarity has no unit either. Batches in another unit, with stabilizers in the square of
that unit, have numerators and denominators in it, and every quotient stays; what the
gradients carry back is divided by the unit.

Key definitions: `WindowAverages.exchanged`, `SimilarityPass.exchanged`, `Tensor.scaled`,
`SimilarityPass.Exchanges`, `SimilarityPass.Scales`.
Key theorems: `factors_exchanged`, `comparison_exchanged`, `factors_scaled`, `cotangents_scaled`,
`gradientIn_scaled`, `exchanged_and_scaled`.
-/
import SteeredConv.Proofs.FixedPoints

namespace SteeredConv

open Finset Tensor

/-! ### Exchanging two batches -/

section Exchange

/-- The averages of two batches in the other order. -/
def WindowAverages.exchanged {β : Type} (w : WindowAverages β) : WindowAverages β :=
  ⟨w.meanB, w.meanA, w.varianceB, w.varianceA, w.covariance⟩

theorem zipWith_exchanged {R S : Type} [Zero R] [Zero S] {f : R → R → S} (hf : ∀ x y, f x y = f y x) {s t : Tensor R}
    (h : t.shape = s.shape) : zipWith f t s = zipWith f s t := by
  have hsize : t.size = s.size := congrArg volume h
  refine ext_flat h fun i hi => ?_
  have ht : i < t.size := hi
  rw [flat_zipWith ht, flat_zipWith (ht.trans_eq hsize), hf]

theorem products_exchanged {R : Type} [CommRing R] {a b : Tensor R} (h : b.shape = a.shape) :
    products b a = products a b := zipWith_exchanged mul_comm h

theorem averagesOver_exchanged {R : Type} [CommRing R] {a b : Tensor R} (h : b.shape = a.shape) (s : Sweep)
    (table : Tensor R) : averagesOver s table b a = (averagesOver s table a b).exchanged := by
  have hmeans : (windowAverage s table b).shape = (windowAverage s table a).shape := by
    simp only [shape_windowAverage, extent, area, h]
  unfold averagesOver WindowAverages.exchanged centred
  dsimp only
  rw [products_exchanged h, products_exchanged hmeans]

/-- Averages of two batches of one shape. -/
structure WindowAverages.Matched (w : WindowAverages ℝ) : Prop where
  means : w.meanB.shape = w.meanA.shape
  variances : w.varianceB.shape = w.varianceA.shape

theorem matched_averagesOver {a b : Tensor ℝ} (h : b.shape = a.shape) (s : Sweep) (table : Tensor ℝ) :
    (averagesOver s table a b).Matched := by
  have hmeans (x y : Tensor ℝ) (h : y.shape = x.shape) :
      (windowAverage s table y).shape = (windowAverage s table x).shape := by
    simp only [shape_windowAverage, extent, area, h]
  exact ⟨hmeans a b h, hmeans (products a a) (products b b) h⟩

/-- Numerators and denominators do not know the order. -/
theorem factors_exchanged {w : WindowAverages ℝ} (h : w.Matched) (c1 c2 : ℝ) :
    (w.exchanged.factors c1 c2 : SimilarityFactors ℝ) = w.factors c1 c2 := by
  unfold WindowAverages.factors WindowAverages.exchanged
  dsimp only [coordinate_real]
  congr 1
  · exact zipWith_exchanged (fun x y => by ring) h.means
  · exact zipWith_exchanged (fun x y => by ring) h.means
  · exact zipWith_exchanged (fun x y => by ring) h.variances

/-- A comparison in the other order. -/
def SimilarityPass.exchanged (p : SimilarityPass ℝ ℝ) : SimilarityPass ℝ ℝ :=
  ⟨p.smoother, p.second, p.first, p.averages.exchanged, p.factors⟩

theorem comparison_exchanged (m : Smoother ℝ) (g : Geometry) (c1 c2 : ℝ) {a b : Tensor ℝ} (h : b.shape = a.shape) :
    comparison m g c1 c2 b a = (comparison m g c1 c2 a b).exchanged := by
  unfold comparison SimilarityPass.exchanged
  dsimp only
  rw [averagesOver_exchanged h, factors_exchanged (matched_averagesOver h _ _)]

end Exchange

/-! ### Batches in another unit -/

/-- A batch whose entries are multiplied by a number. -/
noncomputable def Tensor.scaled (s : ℝ) (t : Tensor ℝ) : Tensor ℝ := t.map (s * ·)

section Scale

variable {s : ℝ}

theorem flat_scaled (s : ℝ) (t : Tensor ℝ) (i : ℕ) : (t.scaled s).flat i = s * t.flat i :=
  flat_map_of_zero (mul_zero s) t i

theorem products_scaled (s : ℝ) (a b : Tensor ℝ) :
    products (a.scaled s) (b.scaled s) = (products a b).scaled (s ^ 2) := by
  refine ext_flat rfl fun i hi => ?_
  unfold products
  rw [flat_zipWith (by exact hi), flat_scaled, flat_scaled, flat_scaled, flat_zipWith (by exact hi)]
  ring

theorem centred_scaled (s : ℝ) (t a b : Tensor ℝ) :
    centred (t.scaled (s ^ 2)) (a.scaled s) (b.scaled s) = (centred t a b).scaled (s ^ 2) := by
  unfold centred
  rw [products_scaled]
  refine ext_flat rfl fun i hi => ?_
  rw [flat_zipWith (by exact hi), flat_scaled, flat_scaled, flat_scaled, flat_zipWith (by exact hi), mul_sub]

/-- Averages in another unit. -/
noncomputable def WindowAverages.scaled (s : ℝ) (w : WindowAverages ℝ) : WindowAverages ℝ :=
  ⟨w.meanA.scaled s, w.meanB.scaled s, w.varianceA.scaled (s ^ 2), w.varianceB.scaled (s ^ 2),
    w.covariance.scaled (s ^ 2)⟩

/-- Numerators and denominators in the square of another unit. -/
noncomputable def SimilarityFactors.scaled (s : ℝ) (f : SimilarityFactors ℝ) : SimilarityFactors ℝ :=
  ⟨f.lumNum.scaled (s ^ 2), f.lumDen.scaled (s ^ 2), f.csNum.scaled (s ^ 2), f.csDen.scaled (s ^ 2)⟩

theorem averagesOver_scaled (s : ℝ) (sweep : Sweep) (table a b : Tensor ℝ) :
    averagesOver sweep table (a.scaled s) (b.scaled s) = (averagesOver sweep table a b).scaled s := by
  have hmean (c : ℝ) (x : Tensor ℝ) : windowAverage sweep table (x.scaled c) = (windowAverage sweep table x).scaled c :=
    windowAverage_map_mul c sweep table x
  unfold averagesOver WindowAverages.scaled
  dsimp only
  simp only [products_scaled, hmean, centred_scaled]

/-- With stabilizers in the square of the unit all numerators and denominators are in it. -/
theorem factors_scaled (s : ℝ) (w : WindowAverages ℝ) (c1 c2 : ℝ) :
    ((w.scaled s).factors (s ^ 2 * c1) (s ^ 2 * c2) : SimilarityFactors ℝ) = (w.factors c1 c2).scaled s := by
  unfold WindowAverages.factors WindowAverages.scaled SimilarityFactors.scaled
  dsimp only [coordinate_real]
  congr 1 <;> refine ext_flat rfl fun i hi => ?_
  · rw [flat_zipWith (by exact hi), flat_scaled, flat_scaled, flat_scaled, flat_zipWith (by exact hi)]
    ring
  · rw [flat_zipWith (by exact hi), flat_scaled, flat_scaled, flat_scaled, flat_zipWith (by exact hi)]
    ring
  · rw [flat_map (by exact hi), flat_scaled, flat_scaled, flat_map (by exact hi)]
    ring
  · rw [flat_zipWith (by exact hi), flat_scaled, flat_scaled, flat_scaled, flat_zipWith (by exact hi)]
    ring

theorem regular_scaled (hs : s ≠ 0) {f : SimilarityFactors ℝ} (h : f.Regular) : (f.scaled s).Regular := by
  refine ⟨fun i hi => ?_, fun i hi => ?_⟩
  · rw [show (f.scaled s).lumDen.flat i = s ^ 2 * f.lumDen.flat i from flat_scaled _ _ i]
    exact mul_ne_zero (pow_ne_zero 2 hs) (h.1 i hi)
  · rw [show (f.scaled s).csDen.flat i = s ^ 2 * f.csDen.flat i from flat_scaled _ _ i]
    exact mul_ne_zero (pow_ne_zero 2 hs) (h.2 i hi)

theorem zipWith_div_scaled (hs : s ≠ 0) (t d : Tensor ℝ) :
    zipWith (· / ·) (t.scaled (s ^ 2)) (d.scaled (s ^ 2)) = zipWith (· / ·) t d := by
  refine ext_flat rfl fun i hi => ?_
  rw [flat_zipWith (by exact hi), flat_scaled, flat_scaled, flat_zipWith (by exact hi),
    mul_div_mul_left _ _ (pow_ne_zero 2 hs)]

theorem luminance_scaled (hs : s ≠ 0) (f : SimilarityFactors ℝ) : (f.scaled s).luminance = f.luminance :=
  zipWith_div_scaled hs f.lumNum f.lumDen

theorem contrastStructure_scaled (hs : s ≠ 0) (f : SimilarityFactors ℝ) :
    (f.scaled s).contrastStructure = f.contrastStructure := zipWith_div_scaled hs f.csNum f.csDen

theorem map_factors_scaled (hs : s ≠ 0) (f : SimilarityFactors ℝ) : (f.scaled s).map = f.map := by
  unfold SimilarityFactors.map
  rw [luminance_scaled hs, contrastStructure_scaled hs]

/-- A comparison in another unit. -/
noncomputable def SimilarityPass.scaled (s : ℝ) (p : SimilarityPass ℝ ℝ) : SimilarityPass ℝ ℝ :=
  ⟨p.smoother, p.first.scaled s, p.second.scaled s, p.averages.scaled s, p.factors.scaled s⟩

theorem comparison_scaled (s : ℝ) (m : Smoother ℝ) (g : Geometry) (c1 c2 : ℝ) (a b : Tensor ℝ) :
    comparison m g (s ^ 2 * c1) (s ^ 2 * c2) (a.scaled s) (b.scaled s) = (comparison m g c1 c2 a b).scaled s := by
  unfold comparison SimilarityPass.scaled
  dsimp only
  rw [averagesOver_scaled, factors_scaled]

/-- What is carried back from the squares and the product is divided by the square of the unit, what is carried back
from a mean by the unit. -/
theorem cotangents_scaled (hs : s ≠ 0) (p : SimilarityPass ℝ ℝ) (own other : Tensor ℝ) (u : ℝ) :
    (p.scaled s).inSquare u = (p.inSquare u).scaled (s ^ 2)⁻¹ ∧
      (p.scaled s).inCross u = (p.inCross u).scaled (s ^ 2)⁻¹ ∧
      (p.scaled s).inMean (own.scaled s) (other.scaled s) u = (p.inMean own other u).scaled s⁻¹ := by
  have hluminance : (p.scaled s).factors.luminance = p.factors.luminance := luminance_scaled hs p.factors
  have hcontrast : (p.scaled s).factors.contrastStructure = p.factors.contrastStructure :=
    contrastStructure_scaled hs p.factors
  have hlumNum (i : ℕ) : (p.scaled s).factors.lumNum.flat i = s ^ 2 * p.factors.lumNum.flat i := flat_scaled _ _ i
  have hlumDen (i : ℕ) : (p.scaled s).factors.lumDen.flat i = s ^ 2 * p.factors.lumDen.flat i := flat_scaled _ _ i
  have hcsNum (i : ℕ) : (p.scaled s).factors.csNum.flat i = s ^ 2 * p.factors.csNum.flat i := flat_scaled _ _ i
  have hcsDen (i : ℕ) : (p.scaled s).factors.csDen.flat i = s ^ 2 * p.factors.csDen.flat i := flat_scaled _ _ i
  have hweight : (p.scaled s).perWindow u = p.perWindow u := rfl
  refine ⟨?_, ?_, ?_⟩ <;> refine ext_flat rfl fun i hi => ?_ <;> rw [flat_scaled]
  · unfold SimilarityPass.inSquare
    rw [flat_ofFlat (by exact hi), flat_ofFlat (by exact hi), hweight, hluminance, hcsNum, hcsDen]
    field_simp
  · unfold SimilarityPass.inCross
    rw [flat_ofFlat (by exact hi), flat_ofFlat (by exact hi), hweight, hluminance, hcsDen]
    field_simp
  · unfold SimilarityPass.inMean
    rw [flat_ofFlat (by exact hi), flat_ofFlat (by exact hi), hweight, hluminance, hcontrast, hlumNum, hlumDen, hcsNum,
      hcsDen, flat_scaled, flat_scaled]
    field_simp

/-- The gradient in a batch is divided by the unit. -/
theorem gradientIn_scaled (hs : s ≠ 0) {p : SimilarityPass ℝ ℝ} {g : Geometry} {own : Tensor ℝ}
    (h : p.smoother.accepts own.shape = .ok g) (hnum : p.factors.lumNum.shape =
      correlationShape g.sweep own.shape (Smoother.kernelShape g (own.shape.getD 1 0)))
    (other ownMean otherMean : Tensor ℝ) (u : ℝ) : (p.scaled s).gradientIn (own.scaled s) (other.scaled s)
      (ownMean.scaled s) (otherMean.scaled s) u =
        (p.gradientIn own other ownMean otherMean u).map fun t => t.map (· / s) := by
  obtain ⟨N, C, H, W, hshape, -, -⟩ := Smoother.extents_of_accepts h
  obtain ⟨hsquare, hcross, hmean⟩ := cotangents_scaled hs p ownMean otherMean u
  have hspread (c : ℝ) (t : Tensor ℝ) : windowSpread g.sweep p.smoother.table [N, C, H, W] (t.scaled c) =
      (windowSpread g.sweep p.smoother.table [N, C, H, W] t).scaled c := windowSpread_map_mul c _ _ t N C H W
  have hsmoother : (p.scaled s).smoother = p.smoother := rfl
  have hown : (own.scaled s).shape = [N, C, H, W] := hshape
  rw [gradientIn_eq rfl own other _ _ u h hnum,
    gradientIn_eq (p := p.scaled s) rfl (own.scaled s) (other.scaled s) _ _ u h hnum, hsquare, hcross, hmean, hown,
    hshape,
    hsmoother, hspread, hspread, hspread]
  refine congrArg Except.ok (ext_flat rfl fun i hi => ?_)
  rw [flat_map (by exact hi), flat_ofFlat (by exact hi), flat_ofFlat (by exact hi), flat_scaled, flat_scaled,
    flat_scaled, flat_scaled, flat_scaled]
  field_simp

end Scale

/-! ### The whole comparison -/

namespace SimilarityPass

/-- A comparison and the one in the other order: the same similarities and the same loss, all quotients defined, and
for every cotangent of the loss both gradients exist and change places. -/
structure Exchanges (p q : SimilarityPass ℝ ℝ) : Prop where
  regular : q.factors.Regular
  map : q.factors.map = p.factors.map
  loss : q.loss = p.loss
  gradients : ∀ u, ∃ ga gb, p.firstGradient u = .ok ga ∧ p.secondGradient u = .ok gb ∧
    q.firstGradient u = .ok gb ∧ q.secondGradient u = .ok ga

/-- A comparison and the one in another unit: the same similarities and the same loss, all quotients defined, and for
every cotangent of the loss both gradients exist and are divided by the unit. -/
structure Scales (s : ℝ) (p q : SimilarityPass ℝ ℝ) : Prop where
  regular : q.factors.Regular
  map : q.factors.map = p.factors.map
  loss : q.loss = p.loss
  gradients : ∀ u, ∃ ga gb, p.firstGradient u = .ok ga ∧ p.secondGradient u = .ok gb ∧
    q.firstGradient u = .ok (ga.map (· / s)) ∧ q.secondGradient u = .ok (gb.map (· / s))

end SimilarityPass

/-- The similarity of two batches does not depend on their order, and the two gradients change places with them. In
another unit, with stabilizers in its square, similarity and loss are the same and both gradients are divided by the
unit. -/
theorem exchanged_and_scaled {m : Smoother ℝ} (hm : m.Sound) {c1 c2 : ℝ} {a b : Tensor ℝ} {p : SimilarityPass ℝ ℝ}
    (hp : similarityPass m c1 c2 a b = .ok p) (hregular : p.factors.Regular) :
    (∃ q, similarityPass m c1 c2 b a = .ok q ∧ p.Exchanges q) ∧
      ∀ s : ℝ, s ≠ 0 → ∃ q, similarityPass m (s ^ 2 * c1) (s ^ 2 * c2) (a.map (s * ·)) (b.map (s * ·)) = .ok q ∧
        p.Scales s q := by
  obtain ⟨g, ha, hb⟩ := accepts_of_similarityPass hp
  have hba : m.accepts b.shape = .ok g := by rw [hb, ha]
  rw [similarityPass_eq ha hb] at hp
  obtain rfl := Except.ok.inj hp
  have hnum : (comparison m g c1 c2 a b).factors.lumNum.shape =
      correlationShape g.sweep a.shape (Smoother.kernelShape g (a.shape.getD 1 0)) := Smoother.shape_smooth hm ha
  have hnum' : (comparison m g c1 c2 a b).factors.lumNum.shape =
      correlationShape g.sweep b.shape (Smoother.kernelShape g (b.shape.getD 1 0)) := by rw [hb, hnum]
  have hgradients (u : ℝ) : ∃ ga gb, (comparison m g c1 c2 a b).firstGradient u = .ok ga ∧
      (comparison m g c1 c2 a b).secondGradient u = .ok gb :=
    ⟨_, _, gradientIn_eq rfl a b _ _ u ha hnum, gradientIn_eq rfl b a _ _ u hba hnum'⟩
  constructor
  · refine ⟨_, similarityPass_eq hba hb.symm, ?_⟩
    rw [comparison_exchanged m g c1 c2 hb]
    refine ⟨hregular, rfl, rfl, fun u => ?_⟩
    obtain ⟨ga, gb, hga, hgb⟩ := hgradients u
    exact ⟨ga, gb, hga, hgb, hgb, hga⟩
  · intro s hs
    refine ⟨comparison m g (s ^ 2 * c1) (s ^ 2 * c2) (a.scaled s) (b.scaled s), similarityPass_eq ha hb, ?_⟩
    rw [comparison_scaled]
    have hmap : ((comparison m g c1 c2 a b).scaled s).factors.map = (comparison m g c1 c2 a b).factors.map :=
      map_factors_scaled hs _
    refine ⟨regular_scaled hs hregular, hmap, ?_, fun u => ?_⟩
    · unfold SimilarityPass.loss
      rw [hmap]
    · obtain ⟨ga, gb, hga, hgb⟩ := hgradients u
      refine ⟨ga, gb, hga, hgb, ?_, ?_⟩
      · exact (gradientIn_scaled hs ha hnum b _ _ u).trans (congrArg (Except.map _) hga)
      · exact (gradientIn_scaled hs hba hnum' a _ _ u).trans (congrArg (Except.map _) hgb)

/-- Two batches whose last row no window reaches, and the same batches in half the unit. -/
theorem exchanged_and_scaled_sample :
    ∃ p : SimilarityPass ℝ ℝ,
      similarityPass (evenSmoother sampleGeometry) 1 1 (fill [1, 4, 3, 2] 1) (fill [1, 4, 3, 2] 2) = .ok p ∧
      (∃ q, similarityPass (evenSmoother sampleGeometry) 1 1 (fill [1, 4, 3, 2] 2) (fill [1, 4, 3, 2] 1) = .ok q ∧
        p.Exchanges q) ∧
      ∃ q, similarityPass (evenSmoother sampleGeometry) (2 ^ 2 * 1) (2 ^ 2 * 1) ((fill [1, 4, 3, 2] 1).map (2 * ·))
        ((fill [1, 4, 3, 2] 2).map (2 * ·)) = .ok q ∧ p.Scales 2 q := by
  have hb : (fill [1, 4, 3, 2] (2 : ℝ)).shape = (fill [1, 4, 3, 2] (1 : ℝ)).shape := by
    rw [shape_fill, shape_fill]
  have ha : (evenSmoother sampleGeometry).accepts (fill [1, 4, 3, 2] (1 : ℝ)).shape = .ok sampleGeometry :=
    Smoother.accepts_gaussian rfl (by decide)
  have hp : similarityPass (evenSmoother sampleGeometry) 1 1 (fill [1, 4, 3, 2] (1 : ℝ)) (fill [1, 4, 3, 2] 2) =
      .ok _ :=
    similarityPass_eq ha hb
  have hregular := regular_comparison (sound_evenSmoother _) (weighs_evenSmoother _) ha hb one_pos one_pos
  obtain ⟨hexchanged, hscaled⟩ := exchanged_and_scaled (sound_evenSmoother _) hp hregular
  exact ⟨_, hp, hexchanged, hscaled 2 two_ne_zero⟩

end SteeredConv
