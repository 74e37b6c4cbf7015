/-
# The gradient of the similarity loss

The loss of two batches is a quotient of their window averages and of the averages of
their products, window by window. Along families of batches its derivative is therefore
five cotangents, one for each average, pulled back through the adjoint of the smoother
and the rule for products. Together they are the two gradients that `SimilarityPass`
returns.

Key definitions: `averagesOver`, `comparison`, `similarityAt`, `SimilarityFactors.Regular`.
Key theorems: `similarityPass_eq`, `gradientIn_eq`, `hasFDerivAt_loss`, `gradients_of_loss_exact`.
-/
import SteeredConv.Proofs.Derivative
import SteeredConv.Proofs.Weighting

namespace SteeredConv

open Finset Tensor

/-! ### Comparing accepted batches -/

section Averages

variable {R ω : Type} [CommRing R]

def averagesOver (s : Sweep) (table a b : Tensor R) : WindowAverages R :=
  let mean (x : Tensor R) : Tensor R := windowAverage s table x
  ⟨mean a, mean b, centred (mean (products a a)) (mean a) (mean a),
    centred (mean (products b b)) (mean b) (mean b), centred (mean (products a b)) (mean a) (mean b)⟩

theorem windowAverages_eq [Stored R ω] {s : Smoother ω} {g : Geometry} {a b : Tensor R}
    (h : s.accepts a.shape = .ok g) (hb : b.shape = a.shape) : windowAverages s a b =
      .ok (averagesOver g.sweep (s.table.map Stored.narrow) a b) := by
  have smooth : ∀ x : Tensor R, x.shape = a.shape →
      s.smooth x = .ok (windowAverage g.sweep (s.table.map Stored.narrow) x) := fun x hx =>
    Smoother.smooth_eq (by rw [hx]; exact h)
  unfold windowAverages
  rw [if_neg (not_not.mpr hb.symm), smooth a rfl, smooth b hb, smooth (products a a) rfl,
    smooth (products b b) hb, smooth (products a b) rfl]
  rfl

end Averages

noncomputable def comparison (s : Smoother ℝ) (g : Geometry) (c1 c2 : ℝ) (a b : Tensor ℝ) :
    SimilarityPass ℝ ℝ :=
  let averages := averagesOver g.sweep s.table a b
  ⟨s, a, b, averages, averages.factors c1 c2⟩

/-- No denominator of the similarity is zero. -/
def SimilarityFactors.Regular (f : SimilarityFactors ℝ) : Prop :=
  (∀ i < f.lumDen.size, f.lumDen.flat i ≠ 0) ∧ ∀ i < f.csDen.size, f.csDen.flat i ≠ 0

section Comparison

variable {s : Smoother ℝ} {g : Geometry} {c1 c2 u : ℝ} {a b : Tensor ℝ}

/-- Batches of one accepted shape are compared. -/
theorem similarityPass_eq (h : s.accepts a.shape = .ok g) (hb : b.shape = a.shape) :
    similarityPass s c1 c2 a b = .ok (comparison s g c1 c2 a b) := by
  unfold similarityPass
  rw [windowAverages_eq h hb, map_narrow_real]
  rfl

theorem flat_centred {t first second : Tensor ℝ} {i : ℕ} (ht : i < t.size) (hfirst : i < first.size) :
    (centred t first second).flat i = t.flat i - first.flat i * second.flat i := by
  unfold centred products
  rw [flat_zipWith ht, flat_zipWith hfirst]

/-- The averages of a batch and of two others, read at one window. -/
theorem flat_factors {sweep : Sweep} {table : Tensor ℝ} (c1 c2 : ℝ) (hb : b.shape = a.shape) {i : ℕ}
    (hi : i < (windowAverage sweep table a).size) :
    let f := (averagesOver sweep table a b).factors c1 c2
    let x := (windowAverage sweep table a).flat i
    let y := (windowAverage sweep table b).flat i
    let p := (windowAverage sweep table (products a a)).flat i
    let q := (windowAverage sweep table (products b b)).flat i
    let r := (windowAverage sweep table (products a b)).flat i
    f.lumNum.flat i = 2 * x * y + c1 ∧ f.lumDen.flat i = x * x + y * y + c1 ∧
      f.csNum.flat i = 2 * (r - x * y) + c2 ∧ f.csDen.flat i = p - x * x + (q - y * y) + c2 := by
  have same : ∀ x : Tensor ℝ, x.shape = a.shape → i < (windowAverage sweep table x).size := fun x hx =>
    hi.trans_eq (size_windowAverage_congr hx).symm
  have haa := same (products a a) rfl
  have hbb := same (products b b) hb
  have hab := same (products a b) rfl
  refine ⟨?_, ?_, ?_, ?_⟩
  · unfold WindowAverages.factors averagesOver
    rw [flat_zipWith hi, two_real]
    rfl
  · unfold WindowAverages.factors averagesOver
    rw [flat_zipWith hi]
    rfl
  · unfold WindowAverages.factors averagesOver
    rw [flat_map (by exact hab), two_real]
    dsimp only
    rw [coordinate_real, flat_centred hab hi]
  · unfold WindowAverages.factors averagesOver
    rw [flat_zipWith (by exact haa)]
    dsimp only
    rw [coordinate_real, flat_centred haa hi, flat_centred hbb (same b hb)]

/-- No denominator of a comparison is below its stabilizer. -/
theorem stabilizers_le (hs : s.Sound) (ht : s.table.Weighs) (h : s.accepts a.shape = .ok g)
    (hb : b.shape = a.shape) (c1 c2 : ℝ) :
    (∀ i < (windowAverage g.sweep s.table a).size, c1 ≤ (comparison s g c1 c2 a b).factors.lumDen.flat i) ∧
      ∀ i < (windowAverage g.sweep s.table a).size, c2 ≤ (comparison s g c1 c2 a b).factors.csDen.flat i := by
  obtain ⟨N, C, H, W, ha, -, -⟩ := Smoother.extents_of_accepts h
  have hshape : s.table.shape.length = 2 := congrArg List.length (Smoother.table_of_accepts hs h)
  refine ⟨fun i hi => ?_, fun i hi => ?_⟩
  · obtain ⟨-, lum, -, -⟩ := flat_factors c1 c2 hb hi
    have hsq := add_nonneg (mul_self_nonneg ((windowAverage g.sweep s.table a).flat i))
      (mul_self_nonneg ((windowAverage g.sweep s.table b).flat i))
    exact lum ▸ le_add_of_nonneg_left hsq
  · obtain ⟨-, -, -, cs⟩ := flat_factors c1 c2 hb hi
    have varA := sq_windowAverage_le ht hshape ha hi
    have varB := sq_windowAverage_le ht hshape (hb.trans ha) (hi.trans_eq (size_windowAverage_congr hb).symm)
    have hvar := add_nonneg (sub_nonneg.mpr varA) (sub_nonneg.mpr varB)
    exact cs ▸ le_add_of_nonneg_left hvar

theorem regular_comparison (hs : s.Sound) (ht : s.table.Weighs) (h : s.accepts a.shape = .ok g)
    (hb : b.shape = a.shape) (h1 : 0 < c1) (h2 : 0 < c2) : (comparison s g c1 c2 a b).factors.Regular := by
  obtain ⟨hlum, hcs⟩ := stabilizers_le hs ht h hb c1 c2
  exact ⟨fun i hi => (h1.trans_le (hlum i hi)).ne', fun i hi => (h2.trans_le (hcs i hi)).ne'⟩

end Comparison

/-! ### One window -/

/-- The similarity at a window, from the means `x` and `y` and the averages `p`, `q` of the squares
and `r` of the product. -/
noncomputable def similarityAt (c1 c2 x y p q r : ℝ) : ℝ :=
  (two * x * y + c1) / (x * x + y * y + c1) *
    ((two * (r - x * y) + c2) / (p - x * x + (q - y * y) + c2))

/-- The derivative of the similarity in the first mean. -/
noncomputable def slopeInMean (c1 c2 x y p q r : ℝ) : ℝ :=
  let lumNum := two * x * y + c1
  let lumDen := x * x + y * y + c1
  let csNum := two * (r - x * y) + c2
  let csDen := p - x * x + (q - y * y) + c2
  (two * y * lumDen - lumNum * two * x) / (lumDen * lumDen) * (csNum / csDen) +
    lumNum / lumDen * ((-two * y * csDen + two * x * csNum) / (csDen * csDen))

/-- The derivative of the similarity in the average of a square. -/
noncomputable def slopeInSquare (c1 c2 x y p q r : ℝ) : ℝ :=
  let luminance := (two * x * y + c1) / (x * x + y * y + c1)
  let csDen := p - x * x + (q - y * y) + c2
  (-luminance * (two * (r - x * y) + c2) / (csDen * csDen))

/-- The derivative of the similarity in the average of the product. -/
noncomputable def slopeInCross (c1 c2 x y p q : ℝ) : ℝ :=
  two * ((two * x * y + c1) / (x * x + y * y + c1)) / (p - x * x + (q - y * y) + c2)

section Window

variable {E : Type} [NormedAddCommGroup E] [NormedSpace ℝ E]

/-- The rule for quotients. -/
theorem hasFDerivAt_quotient {θ : E} {n d : E → ℝ} {n' d' : E →L[ℝ] ℝ} (hn : HasFDerivAt n n' θ)
    (hd : HasFDerivAt d d' θ) (h : d θ ≠ 0) :
    HasFDerivAt (fun η => n η / d η) ((d θ)⁻¹ • n' - (n θ / (d θ * d θ)) • d') θ := by
  have hinv : HasFDerivAt (fun η => (d η)⁻¹) (-(d θ ^ 2)⁻¹ • d') θ :=
    (hasDerivAt_inv h).comp_hasFDerivAt θ hd
  simp only [div_eq_mul_inv]
  refine (hn.mul hinv).congr_fderiv ?_
  ext v
  simp only [add_apply, sub_apply, smul_apply, smul_eq_mul]
  field_simp
  ring

theorem hasFDerivAt_similarityAt {c1 c2 : ℝ} {θ : E} {x y p q r : E → ℝ} {x' y' p' q' r' : E →L[ℝ] ℝ}
    (hx : HasFDerivAt x x' θ) (hy : HasFDerivAt y y' θ) (hp : HasFDerivAt p p' θ)
    (hq : HasFDerivAt q q' θ) (hr : HasFDerivAt r r' θ) (hlum : x θ * x θ + y θ * y θ + c1 ≠ 0)
    (hcs : p θ - x θ * x θ + (q θ - y θ * y θ) + c2 ≠ 0) :
    HasFDerivAt (fun η => similarityAt c1 c2 (x η) (y η) (p η) (q η) (r η))
      (slopeInMean c1 c2 (x θ) (y θ) (p θ) (q θ) (r θ) • x' +
        slopeInMean c1 c2 (y θ) (x θ) (q θ) (p θ) (r θ) • y' +
        (slopeInSquare c1 c2 (x θ) (y θ) (p θ) (q θ) (r θ) • p' +
          slopeInSquare c1 c2 (x θ) (y θ) (p θ) (q θ) (r θ) • q') +
        slopeInCross c1 c2 (x θ) (y θ) (p θ) (q θ) • r') θ := by
  have lumNum := ((hx.const_mul two).mul hy).add_const c1
  have lumDen := ((hx.mul hx).add (hy.mul hy)).add_const c1
  have csNum := ((hr.sub (hx.mul hy)).const_mul two).add_const c2
  have csDen := ((hp.sub (hx.mul hx)).add (hq.sub (hy.mul hy))).add_const c2
  have hmap := (hasFDerivAt_quotient lumNum lumDen hlum).mul (hasFDerivAt_quotient csNum csDen hcs)
  refine hmap.congr_fderiv ?_
  ext v
  simp only [add_apply, sub_apply, smul_apply, smul_eq_mul]
  unfold slopeInMean slopeInSquare slopeInCross
  simp only [Pi.mul_apply, Pi.add_apply, Pi.sub_apply, two_real]
  rw [add_comm (y θ * y θ) (x θ * x θ), add_comm (q θ - y θ * y θ) (p θ - x θ * x θ)]
  -- each denominator is one nonzero number
  generalize x θ * x θ + y θ * y θ + c1 = lumDen at *
  generalize p θ - x θ * x θ + (q θ - y θ * y θ) + c2 = csDen at *
  field_simp
  ring

end Window

/-! ### The whole loss -/

section Cotangents

variable {s : Smoother ℝ} {g : Geometry} {c1 c2 u : ℝ} {a b : Tensor ℝ}

/-- The cotangents of the averages at a window: the derivatives of the similarity there, each times
the derivative of the loss in that similarity. -/
theorem flat_cotangents (c1 c2 u : ℝ) (hb : b.shape = a.shape) {i : ℕ}
    (hi : i < (windowAverage g.sweep s.table a).size) :
    let k := (comparison s g c1 c2 a b).perWindow u
    let x := (windowAverage g.sweep s.table a).flat i
    let y := (windowAverage g.sweep s.table b).flat i
    let p := (windowAverage g.sweep s.table (products a a)).flat i
    let q := (windowAverage g.sweep s.table (products b b)).flat i
    let r := (windowAverage g.sweep s.table (products a b)).flat i
    ((comparison s g c1 c2 a b).inMean (windowAverage g.sweep s.table a)
        (windowAverage g.sweep s.table b) u).flat i = k * slopeInMean c1 c2 x y p q r ∧
      ((comparison s g c1 c2 a b).inMean (windowAverage g.sweep s.table b)
        (windowAverage g.sweep s.table a) u).flat i = k * slopeInMean c1 c2 y x q p r ∧
      ((comparison s g c1 c2 a b).inSquare u).flat i = k * slopeInSquare c1 c2 x y p q r ∧
      ((comparison s g c1 c2 a b).inCross u).flat i = k * slopeInCross c1 c2 x y p q := by
  intro k x y p q r
  set f := (comparison s g c1 c2 a b).factors with hf
  have entries : f.lumNum.flat i = 2 * x * y + c1 ∧ f.lumDen.flat i = x * x + y * y + c1 ∧
      f.csNum.flat i = 2 * (r - x * y) + c2 ∧ f.csDen.flat i = p - x * x + (q - y * y) + c2 :=
    flat_factors c1 c2 hb hi
  obtain ⟨h1, h2, h3, h4⟩ := entries
  have hi' : i < volume f.lumNum.shape := hi
  have hcs : i < f.csNum.size := hi
  have hlum : f.luminance.flat i = (2 * x * y + c1) / (x * x + y * y + c1) := by
    unfold SimilarityFactors.luminance
    rw [flat_zipWith hi', h1, h2]
  have hcon : f.contrastStructure.flat i = (2 * (r - x * y) + c2) / (p - x * x + (q - y * y) + c2) := by
    unfold SimilarityFactors.contrastStructure
    rw [flat_zipWith hcs, h3, h4]
  refine ⟨?_, ?_, ?_, ?_⟩
  · unfold SimilarityPass.inMean slopeInMean
    rw [flat_ofFlat hi', ← hf, two_real, hlum, hcon, h1, h2, h3, h4]
  · unfold SimilarityPass.inMean slopeInMean
    rw [flat_ofFlat hi', ← hf, two_real, hlum, hcon, h1, h2, h3, h4]
    dsimp only
    rw [mul_right_comm 2 y x, add_comm (y * y) (x * x), mul_comm y x, add_comm (q - y * y) (p - x * x)]
  · unfold SimilarityPass.inSquare slopeInSquare
    rw [flat_ofFlat hi', ← hf, two_real, hlum, h3, h4]
  · unfold SimilarityPass.inCross slopeInCross
    rw [flat_ofFlat hi', ← hf, two_real, hlum, h4]

/-- The similarity at a window. -/
theorem flat_map_comparison (hb : b.shape = a.shape) {i : ℕ} (hi : i < (windowAverage g.sweep s.table a).size) :
    (comparison s g c1 c2 a b).factors.map.flat i = similarityAt c1 c2
      ((windowAverage g.sweep s.table a).flat i) ((windowAverage g.sweep s.table b).flat i)
      ((windowAverage g.sweep s.table (products a a)).flat i)
      ((windowAverage g.sweep s.table (products b b)).flat i)
      ((windowAverage g.sweep s.table (products a b)).flat i) := by
  obtain ⟨h1, h2, h3, h4⟩ := flat_factors c1 c2 hb hi
  unfold SimilarityFactors.map SimilarityFactors.luminance SimilarityFactors.contrastStructure
  rw [flat_zipWith (by exact hi), flat_zipWith (by exact hi), flat_zipWith (by exact hi)]
  unfold comparison similarityAt
  dsimp only
  rw [h1, h2, h3, h4, two_real]

/-- The loss is one less the mean of the similarities. -/
theorem loss_comparison (hb : b.shape = a.shape) : (comparison s g c1 c2 a b).loss =
    1 - (∑ i ∈ range (windowAverage g.sweep s.table a).size, similarityAt c1 c2
      ((windowAverage g.sweep s.table a).flat i) ((windowAverage g.sweep s.table b).flat i)
      ((windowAverage g.sweep s.table (products a a)).flat i)
      ((windowAverage g.sweep s.table (products b b)).flat i)
      ((windowAverage g.sweep s.table (products a b)).flat i)) /
        ((windowAverage g.sweep s.table a).size : ℝ) := by
  have hsum : (comparison s g c1 c2 a b).factors.map.sum =
      ∑ i ∈ range (windowAverage g.sweep s.table a).size, (comparison s g c1 c2 a b).factors.map.flat i :=
    sumTo_eq_sum _ _
  unfold SimilarityPass.loss mean
  rw [hsum]
  congr 2
  exact sum_congr rfl fun i hi => flat_map_comparison hb (mem_range.mp hi)

/-- The three cotangents are spread over the pixels and combined by the rule for products. -/
theorem gradientIn_eq {p : SimilarityPass ℝ ℝ} (hp : p.smoother = s) (own other ownMean otherMean : Tensor ℝ)
    (u : ℝ) (h : s.accepts own.shape = .ok g) (hnum : p.factors.lumNum.shape =
      correlationShape g.sweep own.shape (Smoother.kernelShape g (own.shape.getD 1 0))) :
    p.gradientIn own other ownMean otherMean u = .ok (ofFlat own.shape fun i =>
      (windowSpread g.sweep s.table own.shape (p.inMean ownMean otherMean u)).flat i +
        2 * own.flat i * (windowSpread g.sweep s.table own.shape (p.inSquare u)).flat i +
        other.flat i * (windowSpread g.sweep s.table own.shape (p.inCross u)).flat i) := by
  subst hp
  have back : ∀ t : Tensor ℝ, t.shape = p.factors.lumNum.shape → p.smoother.adjoint own.shape t =
      .ok (windowSpread g.sweep p.smoother.table own.shape t) := fun t ht => by
    rw [Smoother.adjoint_eq h (ht.trans hnum), map_narrow_real]
  unfold SimilarityPass.gradientIn
  dsimp only
  rw [back (p.inSquare u) rfl, back (p.inCross u) rfl, back (p.inMean ownMean otherMean u) rfl, two_real]
  rfl

end Cotangents

section Derivative

variable {E : Type} [NormedAddCommGroup E] [NormedSpace ℝ E]
variable {s : Smoother ℝ} {g : Geometry} {c1 c2 : ℝ} {θ : E} {A B X : E → Tensor ℝ} {shape : List ℕ}

/-- The averages of a family of accepted batches pull a cotangent back by spreading it. -/
theorem Varies.windowAverage (hs : s.Sound) (h : s.accepts shape = .ok g) (hX : Varies X shape θ) :
    Varies (fun η => SteeredConv.windowAverage g.sweep s.table (X η))
        (correlationShape g.sweep shape (Smoother.kernelShape g (shape.getD 1 0))) θ ∧
      ∀ c, c.shape = correlationShape g.sweep shape (Smoother.kernelShape g (shape.getD 1 0)) →
        pull (fun η => SteeredConv.windowAverage g.sweep s.table (X η)) θ c =
          pull X θ (windowSpread g.sweep s.table shape c) := by
  obtain ⟨N, C, H, W, hshape, hC, -⟩ := Smoother.extents_of_accepts h
  have hout : ∀ η, (SteeredConv.windowAverage g.sweep s.table (X η)).shape =
      correlationShape g.sweep shape (Smoother.kernelShape g (shape.getD 1 0)) := fun η => by
    have := Smoother.shape_smooth (x := X η) hs (show s.accepts (X η).shape = .ok g by rw [hX.shaped, h])
    rwa [map_narrow_real, hX.shaped] at this
  refine hX.image hout (windowSpread g.sweep s.table shape) (fun c _ => ?_) fun c hc η => ?_
  · rw [hshape]
    rfl
  · have hin := inner_windowAverage ((hX.shaped η).trans hshape) hC g.stride_pos
      (hc.trans (hout η).symm)
    rwa [hX.shaped] at hin

/-- What the two gradients are put together from. -/
theorem pull_combination {mean own square other cross : Tensor ℝ} (hm : mean.shape = shape)
    (ho : own.shape = shape) (h : other.shape = shape) :
    pull X θ (ofFlat shape fun i =>
        mean.flat i + 2 * own.flat i * square.flat i + other.flat i * cross.flat i) =
      pull X θ mean + (pull X θ (zipWith (· * ·) own square) + pull X θ (zipWith (· * ·) own square)) +
        pull X θ (zipWith (· * ·) other cross) := by
  have hz : (ofFlat shape fun i => mean.flat i + 2 * own.flat i * square.flat i +
      other.flat i * cross.flat i).shape = shape := rfl
  have hos : (zipWith (· * ·) own square).shape = shape := ho
  have hoc : (zipWith (· * ·) other cross).shape = shape := h
  rw [pull_eq_sum hz, pull_eq_sum hm, pull_eq_sum hos, pull_eq_sum hoc, ← sum_add_distrib,
    ← sum_add_distrib, ← sum_add_distrib]
  refine sum_congr rfl fun i hi => ?_
  rw [mem_range] at hi
  rw [flat_ofFlat hi, flat_zipWith (by rw [size_of_shape ho]; exact hi),
    flat_zipWith (by rw [size_of_shape h]; exact hi), ← add_smul, ← add_smul, ← add_smul]
  congr 1
  ring

/-- The derivative of the loss along families whose averages vary: a cotangent for each average. -/
theorem hasFDerivAt_loss_averages {out : List ℕ} (hab : ∀ η, (B η).shape = (A η).shape)
    (meanA : Varies (fun η => windowAverage g.sweep s.table (A η)) out θ)
    (meanB : Varies (fun η => windowAverage g.sweep s.table (B η)) out θ)
    (squareA : Varies (fun η => windowAverage g.sweep s.table (products (A η) (A η))) out θ)
    (squareB : Varies (fun η => windowAverage g.sweep s.table (products (B η) (B η))) out θ)
    (cross : Varies (fun η => windowAverage g.sweep s.table (products (A η) (B η))) out θ)
    (hreg : (comparison s g c1 c2 (A θ) (B θ)).factors.Regular) (u : ℝ) :
    let p := comparison s g c1 c2 (A θ) (B θ)
    HasFDerivAt (fun η => u * (comparison s g c1 c2 (A η) (B η)).loss)
      (pull (fun η => windowAverage g.sweep s.table (A η)) θ (p.inMean p.averages.meanA p.averages.meanB u) +
        pull (fun η => windowAverage g.sweep s.table (B η)) θ (p.inMean p.averages.meanB p.averages.meanA u) +
        (pull (fun η => windowAverage g.sweep s.table (products (A η) (A η))) θ (p.inSquare u) +
          pull (fun η => windowAverage g.sweep s.table (products (B η) (B η))) θ (p.inSquare u)) +
        pull (fun η => windowAverage g.sweep s.table (products (A η) (B η))) θ (p.inCross u)) θ := by
  intro p
  have hsize : ∀ η, (windowAverage g.sweep s.table (A η)).size = volume out := meanA.size
  have hnum : p.factors.lumNum.shape = out := meanA.shaped θ
  have hreg1 : ∀ i < volume out, p.factors.lumDen.flat i ≠ 0 := fun i hi =>
    hreg.1 i (by rw [← hsize θ] at hi; exact hi)
  have hreg2 : ∀ i < volume out, p.factors.csDen.flat i ≠ 0 := fun i hi =>
    hreg.2 i (by rw [← squareA.size θ] at hi; exact hi)
  have hwindow := fun i (hi : i < volume out) => by
    have hi' : i < (windowAverage g.sweep s.table (A θ)).size := by rw [hsize]; exact hi
    obtain ⟨-, h2, -, h4⟩ := flat_factors c1 c2 (hab θ) hi'
    have lum := hreg1 i hi
    have cs := hreg2 i hi
    exact hasFDerivAt_similarityAt (meanA.hasFDerivAt_entry hi) (meanB.hasFDerivAt_entry hi)
      (squareA.hasFDerivAt_entry hi) (squareB.hasFDerivAt_entry hi) (cross.hasFDerivAt_entry hi)
      (h2 ▸ lum) (h4 ▸ cs)
  have hloss := (((HasFDerivAt.fun_sum fun i hi => hwindow i (mem_range.mp hi)).mul_const
    ((volume out : ℝ)⁻¹)).const_sub 1).const_mul u
  have heq : (fun η => u * (comparison s g c1 c2 (A η) (B η)).loss) = _ := funext fun η => by
    rw [loss_comparison (hab η), hsize, div_eq_mul_inv]
  rw [heq]
  refine hloss.congr_fderiv ?_
  have hG : (p.inMean p.averages.meanA p.averages.meanB u).shape = out := hnum
  have hH : (p.inMean p.averages.meanB p.averages.meanA u).shape = out := hnum
  have hS : (p.inSquare u).shape = out := hnum
  have hC : (p.inCross u).shape = out := hnum
  have hk : p.perWindow u = -u * (volume out : ℝ)⁻¹ := by
    unfold SimilarityPass.perWindow
    rw [size_of_shape hnum, div_eq_mul_inv]
  rw [pull_eq_sum hG, pull_eq_sum hH, pull_eq_sum hS, pull_eq_sum hS, pull_eq_sum hC, ← sum_add_distrib,
    ← sum_add_distrib, ← sum_add_distrib, ← sum_add_distrib, smul_sum, ← sum_neg_distrib, smul_sum]
  refine sum_congr rfl fun i hi => ?_
  rw [mem_range, ← hsize θ] at hi
  obtain ⟨e1, e2, e3, e4⟩ := flat_cotangents c1 c2 u (hab θ) hi
  have e1' : (p.inMean p.averages.meanA p.averages.meanB u).flat i = _ := e1
  have e2' : (p.inMean p.averages.meanB p.averages.meanA u).flat i = _ := e2
  have e3' : (p.inSquare u).flat i = _ := e3
  have e4' : (p.inCross u).flat i = _ := e4
  have hk' : (comparison s g c1 c2 (A θ) (B θ)).perWindow u = _ := hk
  rw [e1', e2', e3', e4', hk']
  ext v
  simp only [add_apply, neg_apply, smul_apply, smul_eq_mul]
  ring

/-- The derivative of the loss of two families of accepted batches whose denominators are not zero:
the two gradients, pulled back. -/
theorem hasFDerivAt_loss (hs : s.Sound) (h : s.accepts shape = .ok g) (hA : Varies A shape θ)
    (hB : Varies B shape θ) (hreg : (comparison s g c1 c2 (A θ) (B θ)).factors.Regular) (u : ℝ) :
    ∃ ga gb, (comparison s g c1 c2 (A θ) (B θ)).firstGradient u = .ok ga ∧
      (comparison s g c1 c2 (A θ) (B θ)).secondGradient u = .ok gb ∧ ga.shape = shape ∧
      gb.shape = shape ∧ HasFDerivAt (fun η => u * (comparison s g c1 c2 (A η) (B η)).loss)
        (pull A θ ga + pull B θ gb) θ := by
  set p := comparison s g c1 c2 (A θ) (B θ)
  have hp : p.smoother = s := rfl
  obtain ⟨hAA, pullAA⟩ := hA.mul hA
  obtain ⟨hBB, pullBB⟩ := hB.mul hB
  obtain ⟨hAB, pullAB⟩ := hA.mul hB
  obtain ⟨meanA, pullA⟩ := hA.windowAverage hs h
  obtain ⟨meanB, pullB⟩ := hB.windowAverage hs h
  obtain ⟨squareA, pullSquareA⟩ := hAA.windowAverage hs h
  obtain ⟨squareB, pullSquareB⟩ := hBB.windowAverage hs h
  obtain ⟨cross, pullCross⟩ := hAB.windowAverage hs h
  have hloss := hasFDerivAt_loss_averages (fun η => (hB.shaped η).trans (hA.shaped η).symm) meanA meanB
    squareA squareB cross hreg u
  have hnum : p.factors.lumNum.shape =
    correlationShape g.sweep shape (Smoother.kernelShape g (shape.getD 1 0)) := meanA.shaped θ
  have hspread : ∀ c : Tensor ℝ, (windowSpread g.sweep s.table shape c).shape = shape := fun c => by
    obtain ⟨N, C, H, W, hshape, -, -⟩ := Smoother.extents_of_accepts h
    rw [hshape]
    rfl
  have first := gradientIn_eq hp (A θ) (B θ) p.averages.meanA p.averages.meanB u
    (by rw [hA.shaped]; exact h) (by rw [hA.shaped]; exact hnum)
  have second := gradientIn_eq hp (B θ) (A θ) p.averages.meanB p.averages.meanA u
    (by rw [hB.shaped]; exact h) (by rw [hB.shaped]; exact hnum)
  refine ⟨_, _, first, second, hA.shaped θ, hB.shaped θ, hloss.congr_fderiv ?_⟩
  rw [hA.shaped, hB.shaped, pull_combination (hspread _) (hA.shaped θ) (hB.shaped θ),
    pull_combination (hspread _) (hB.shaped θ) (hA.shaped θ)]
  have eA := pullA (p.inMean p.averages.meanA p.averages.meanB u) hnum
  have eB := pullB (p.inMean p.averages.meanB p.averages.meanA u) hnum
  have eSquareA := (pullSquareA (p.inSquare u) hnum).trans (pullAA _ (hspread _))
  have eSquareB := (pullSquareB (p.inSquare u) hnum).trans (pullBB _ (hspread _))
  have eCross := (pullCross (p.inCross u) hnum).trans (pullAB _ (hspread _))
  unfold products
  rw [eA, eB, eSquareA, eSquareB, eCross]
  abel

end Derivative

/-! ### Directional derivatives -/

/-- A batch moved by a multiple of a direction. -/
noncomputable def Tensor.moved (x v : Tensor ℝ) (t : ℝ) : Tensor ℝ := zipWith (fun x d => x + t * d) x v

theorem flat_moved {x v : Tensor ℝ} {i : ℕ} (hi : i < x.size) (t : ℝ) :
    (x.moved v t).flat i = x.flat i + t * v.flat i := flat_zipWith hi

theorem moved_zero (x v : Tensor ℝ) : x.moved v 0 = x := by
  refine ext_flat rfl fun i hi => ?_
  rw [flat_moved (by exact hi), zero_mul, add_zero]

theorem inner_moved {x v : Tensor ℝ} (hv : v.shape = x.shape) (g : Tensor ℝ) (t : ℝ) :
    (x.moved v t).inner g = x.inner g + t * v.inner g := by
  have hsize : (x.moved v t).size = x.size := rfl
  have hsize' : v.size = x.size := size_of_shape hv
  rw [inner_eq_sum_flat, inner_eq_sum_flat x, inner_eq_sum_flat v, hsize, hsize', mul_sum,
    ← sum_add_distrib]
  refine sum_congr rfl fun i hi => ?_
  rw [flat_moved (mem_range.mp hi)]
  ring

theorem varies_moved (x v : Tensor ℝ) : Varies (x.moved v) x.shape 0 := by
  refine ⟨fun _ => rfl, fun i hi => ?_⟩
  have hflat : (fun t => (x.moved v t).flat i) = fun t => x.flat i + t * v.flat i :=
    funext fun t => flat_moved hi t
  rw [hflat]
  exact (differentiableAt_id.mul_const (v.flat i)).const_add (x.flat i)

theorem pull_moved {x v g : Tensor ℝ} (hg : g.shape = x.shape) (hv : v.shape = x.shape) :
    pull (x.moved v) 0 g 1 = v.inner g := by
  have hinner : HasDerivAt (fun t => (x.moved v t).inner g) (v.inner g) 0 := by
    simp only [inner_moved hv]
    simpa using ((hasDerivAt_id (0 : ℝ)).mul_const (v.inner g)).const_add (x.inner g)
  exact ((varies_moved x v).hasFDerivAt_inner hg).hasDerivAt.unique hinner

/-- Both gradients for a cotangent `u` exist, and in every direction they give the derivative of `u`
times the loss, moving one batch and keeping the other. -/
def GradientsExact (s : Smoother ℝ) (c1 c2 u : ℝ) (a b : Tensor ℝ) : Prop :=
  ∃ p ga gb, similarityPass s c1 c2 a b = .ok p ∧ p.firstGradient u = .ok ga ∧
    p.secondGradient u = .ok gb ∧ ∀ v : Tensor ℝ, v.shape = a.shape → ∃ first second : ℝ → ℝ,
      (∀ t, SimilarityPass.loss <$> similarityPass s c1 c2 (a.moved v t) b = .ok (first t)) ∧
      HasDerivAt (fun t => u * first t) (v.inner ga) 0 ∧
      (∀ t, SimilarityPass.loss <$> similarityPass s c1 c2 a (b.moved v t) = .ok (second t)) ∧
      HasDerivAt (fun t => u * second t) (v.inner gb) 0

/-- The gradients of the loss are exact for every smoother, stabilizer and cotangent and every two
accepted batches at which no denominator is zero. -/
theorem gradients_of_loss_exact {s : Smoother ℝ} (hs : s.Sound) {g : Geometry} {a b : Tensor ℝ}
    (h : s.accepts a.shape = .ok g) (hb : b.shape = a.shape) (c1 c2 u : ℝ)
    (hreg : ∀ p, similarityPass s c1 c2 a b = .ok p → p.factors.Regular) :
    GradientsExact s c1 c2 u a b := by
  have hpass : similarityPass s c1 c2 a b = .ok (comparison s g c1 c2 a b) := similarityPass_eq h hb
  have hreg' := hreg _ hpass
  have still : ∀ x : Tensor ℝ, x.shape = a.shape → Varies (fun _ : ℝ => x) a.shape 0 :=
    fun x hx => Varies.const hx
  obtain ⟨ga, gb, hga, hgb, hsa, hsb, -⟩ := hasFDerivAt_loss hs h (still a rfl) (still b hb) hreg' u
  refine ⟨_, ga, gb, hpass, hga, hgb, fun v hv => ⟨fun t => (comparison s g c1 c2 (a.moved v t) b).loss,
    fun t => (comparison s g c1 c2 a (b.moved v t)).loss, fun t => ?_, ?_, fun t => ?_, ?_⟩⟩
  · rw [similarityPass_eq (by exact h) (by exact hb)]
    rfl
  · obtain ⟨ga', _, hga', -, -, -, hd⟩ := hasFDerivAt_loss hs h (varies_moved a v) (still b hb)
      (by rw [moved_zero]; exact hreg') u
    rw [moved_zero, hga] at hga'
    obtain rfl : ga = ga' := Except.ok.inj hga'
    have := hd.hasDerivAt
    rwa [pull_const, add_zero, pull_moved hsa hv] at this
  · rw [similarityPass_eq h (by exact hb)]
    rfl
  · have hmoved : Varies (b.moved v) a.shape 0 := hb ▸ varies_moved b v
    obtain ⟨_, gb', -, hgb', -, -, hd⟩ := hasFDerivAt_loss hs h (still a rfl) hmoved
      (by rw [moved_zero]; exact hreg') u
    rw [moved_zero, hgb] at hgb'
    obtain rfl : gb = gb' := Except.ok.inj hgb'
    have := hd.hasDerivAt
    rwa [pull_const, zero_add, pull_moved (hsb.trans hb.symm) (hv.trans hb.symm)] at this

/-- Two batches whose last row no window reaches. -/
theorem gradients_of_loss_exact_sample :
    GradientsExact (evenSmoother sampleGeometry) 1 1 1 (fill [1, 4, 3, 2] 1) (fill [1, 4, 3, 2] 2) := by
  have hb : (fill [1, 4, 3, 2] (2 : ℝ)).shape = (fill [1, 4, 3, 2] (1 : ℝ)).shape := by
    rw [shape_fill, shape_fill]
  have ha : (evenSmoother sampleGeometry).accepts (fill [1, 4, 3, 2] (1 : ℝ)).shape = .ok sampleGeometry :=
    Smoother.accepts_gaussian rfl (by decide)
  refine gradients_of_loss_exact (sound_evenSmoother _) ha hb 1 1 1 fun p hp => ?_
  rw [similarityPass_eq ha hb] at hp
  obtain rfl := Except.ok.inj hp
  exact regular_comparison (sound_evenSmoother _) (weighs_evenSmoother _) ha hb one_pos one_pos

end SteeredConv
