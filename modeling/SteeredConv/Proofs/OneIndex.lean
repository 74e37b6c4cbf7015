/-
# One index for the loss and the metric

The comparator and the metric build their own windows and check shapes in their own order: the
comparator both shapes at once, the metric the rank of each batch, then the shapes, then the window.
They refuse the same batches, fail alike where an option is out of the range of numbers, and otherwise
compute the same map. The loss is one less its mean, so in exact arithmetic the metric is one less the
loss.

Key definitions: `lossIn`, `similarityIn`, `lossOf`, `Geometry.Compares`, `SimilarityOptions.OutOfRange`,
`OneIndex`, `OneAnswer`.
Key theorems: `windowAverages_of_compares`, `windowAverages_of_not_compares`, `index_cases`,
`loss_and_similarity_are_one_index`.
-/
import SteeredConv.Proofs.LayerShapes
import SteeredConv.Proofs.SimilarityBounds
import SteeredConv.Layer.Session

namespace SteeredConv

open Finset Tensor

/-! ### The two programs -/

/-- Refusing shapes for every journal. -/
def Action.Refuses {β : Type} (a : Action Fault β) : Prop := ∃ f, a.Results (.error (.shape f))

section Programs

variable {α ω : Type} [Scalar α] [Scalar ω] [Stored α ω] [Directed α α]

/-- The comparison of two batches by a new comparator. -/
def lossIn (o : SimilarityOptions) (a b : Tensor α) : Action Fault (SimilarityPass α ω) := do
  let l ← SimilarityLoss.build o {}
  l.forward a b

/-- The options of a metric whose maps are plain arrays. -/
def plainOptions : GlobalOptions := { outputFormat := .value (.text "numpy") }

/-- The checks of a metric, the similarity of two batches at every window, and its mean. -/
def SimilarityIndex.answer (x : SimilarityIndex ω) (a b : Tensor α) : Except Fault (Tensor α × α) := do
  x.smoother.operator.requireImages "u_truth" .null a.shape
  x.smoother.operator.requireImages "u_estim" .null b.shape
  let t ← x.map a b
  return (t, t.mean)

/-- The answer of a new metric for two batches. -/
def similarityIn (o : SimilarityOptions) (a b : Tensor α) : Action Fault (Tensor α × α) := do
  let x : SimilarityIndex ω ← SimilarityIndex.create o plainOptions
  liftM (x.answer a b)

end Programs

/-- The answer of a new comparator to two tensors whose element types are found at run time. -/
def lossOf (o : SimilarityOptions) (a b : AnyTensor) : Action Fault LayerReply := do
  let l ← SimilarityLoss.build o {}
  let (_, reply) ← LossSession.forward ⟨l, none⟩ a.operand b.operand (false, false)
  liftM reply

/-! ### Shapes that are compared -/

/-- Shapes that are compared: one shape of batches of images that the windows fit. -/
def Geometry.Compares (g : Geometry) (a b : List ℕ) : Prop :=
  a = b ∧ ∃ N C H W, a = [N, C, H, W] ∧ g.kernel.1 ≤ H + 2 * g.pad.1 ∧ g.kernel.2 ≤ W + 2 * g.pad.2

section Shapes

variable {ω : Type} {g : Geometry} {a b : List ℕ}

theorem SimilarityLoss.sizeFor_of_compares {l : SimilarityLoss ω} (h : l.geometry.Compares a b) :
    ∃ size, l.sizeFor a b = .ok size := by
  obtain ⟨rfl, N, C, H, W, rfl, hh, hw⟩ := h
  exact sizeFor_of_fits hh hw

/-- The comparator refuses all other shapes. -/
theorem SimilarityLoss.sizeFor_of_not_compares {l : SimilarityLoss ω} (h : ¬l.geometry.Compares a b) :
    ∃ f, l.sizeFor a b = .error (.shape f) := by
  unfold sizeFor
  by_cases hab : a = b
  · subst hab
    rw [if_neg (not_not.mpr rfl)]
    by_cases hrank : a.length = 4
    · obtain ⟨N, C, H, W, rfl⟩ := List.length_eq_four.mp hrank
      have hnarrow : (l.geometry.outputSize H W).1 ≤ 0 ∨ (l.geometry.outputSize H W).2 ≤ 0 := by
        rw [← not_lt, ← not_lt, ← not_and_or]
        rintro ⟨hh, hw⟩
        exact h ⟨rfl, N, C, H, W, rfl, (positions_pos_iff l.geometry.stride_pos.1).mp hh,
          (positions_pos_iff l.geometry.stride_pos.2).mp hw⟩
      dsimp only
      rw [if_pos hnarrow]
      exact ⟨_, rfl⟩
    · split
      · exact absurd rfl hrank
      · exact ⟨_, rfl⟩
  · rw [if_pos hab]
    exact ⟨_, rfl⟩

/-- Windows that do not fit are refused. -/
theorem Smoother.fits_of_not {s : Smoother ω} (hs : s.geometry = .ok g) {N C H W : ℕ}
    (h : ¬(g.kernel.1 ≤ H + 2 * g.pad.1 ∧ g.kernel.2 ≤ W + 2 * g.pad.2)) :
    ∃ f, s.fits [N, C, H, W] = .error (.shape f) := by
  have hint (n : ℤ) : (Value.int n).atMost (.int 0) = .ok (decide (n ≤ 0)) := by
    simp [Value.atMost, Value.number?]
  unfold fits
  dsimp only
  rw [outputSize_of_geometry hs, ok_bind]
  dsimp only
  rw [hint, ok_bind]
  by_cases hrows : positions H g.kernel.1 g.stride.1 g.pad.1 ≤ 0
  · rw [if_pos (decide_eq_true hrows)]
    exact ⟨_, rfl⟩
  · have hcolumns : positions W g.kernel.2 g.stride.2 g.pad.2 ≤ 0 := by
      refine not_lt.mp fun hw => h ⟨?_, (positions_pos_iff g.stride_pos.2).mp hw⟩
      exact (positions_pos_iff g.stride_pos.1).mp (not_le.mp hrows)
    rw [if_neg (by simpa using hrows), hint, decide_eq_true hcolumns]
    exact ⟨_, rfl⟩

theorem Operator.requireImages_of_rank {o : Operator} {name : String} (h : a.length = 4) :
    o.requireImages name .null a = .ok () := by
  unfold requireImages
  rw [if_neg (not_not.mpr h)]
  rfl

theorem Operator.requireImages_of_not_rank (o : Operator) (name : String) (h : a.length ≠ 4) :
    ∃ f, o.requireImages name .null a = .error (.shape f) := by
  unfold requireImages
  rw [if_pos h]
  exact ⟨_, rfl⟩

end Shapes

/-! ### Averages of two batches -/

section Averages

variable {α ω : Type} [Zero α] [Add α] [Sub α] [Mul α] [Stored α ω] {s : Smoother ω} {g : Geometry}
  {a b : Tensor α}

theorem volume_pos {N C H W : ℕ} (h : 0 < volume [N, C, H, W]) : 0 < N ∧ 0 < C ∧ 0 < H ∧ 0 < W := by
  simp only [volume_cons, volume_nil, mul_one] at h
  have hC := Nat.pos_of_mul_pos_left h
  have hH := Nat.pos_of_mul_pos_left hC
  exact ⟨Nat.pos_of_mul_pos_right h, Nat.pos_of_mul_pos_right hC, Nat.pos_of_mul_pos_right hH,
    Nat.pos_of_mul_pos_left hH⟩

omit [Zero α] [Add α] [Sub α] [Mul α] [Stored α ω] in
theorem accepts_of_compares (hs : s.geometry = .ok g) (h : g.Compares a.shape b.shape) (hsize : 0 < a.size) :
    s.accepts a.shape = .ok g := by
  obtain ⟨-, N, C, H, W, ha, hh, hw⟩ := h
  unfold size at hsize
  rw [ha] at hsize ⊢
  obtain ⟨-, hC, hH, hW⟩ := volume_pos hsize
  obtain ⟨k1, k2⟩ := g.kernel_pos
  obtain ⟨s1, s2⟩ := g.stride_pos
  exact Smoother.accepts_of_geometry hs
    ⟨hC, s1, s2, k1, k2, (Nat.one_mul C).symm, hC, Nat.mod_self C, hC, Or.inr ⟨hH, hW⟩, hh, hw⟩

/-- Batches with pixels whose shapes are compared are averaged over all windows. -/
theorem windowAverages_of_compares (hs : s.geometry = .ok g) (hsound : s.Sound)
    (h : g.Compares a.shape b.shape) (hsize : 0 < a.size) : ∃ w : WindowAverages α, windowAverages s a b = .ok w ∧
      w.meanA.shape = correlationShape g.sweep a.shape (Smoother.kernelShape g (a.shape.getD 1 0)) := by
  have haccepts := accepts_of_compares hs h hsize
  have smooth (x : Tensor α) (hx : x.shape = a.shape) :
      s.smooth x = .ok (windowAverage g.sweep (s.table.map Stored.narrow) x) :=
    Smoother.smooth_eq (by rw [hx]; exact haccepts)
  unfold windowAverages
  rw [if_neg (not_not.mpr h.1), smooth a rfl, smooth b h.1.symm, smooth (products a a) rfl,
    smooth (products b b) h.1.symm, smooth (products a b) rfl]
  exact ⟨_, rfl, Smoother.shape_smooth hsound haccepts⟩

/-- Batches whose shapes are not compared are refused once they are known to be images. -/
theorem windowAverages_of_not_compares (hs : s.geometry = .ok g) (hrank : a.shape.length = 4)
    (h : ¬g.Compares a.shape b.shape) : ∃ f, windowAverages s a b = .error (.shape f) := by
  unfold windowAverages
  by_cases hab : a.shape = b.shape
  · obtain ⟨N, C, H, W, ha⟩ := List.length_eq_four.mp hrank
    obtain ⟨f, hf⟩ := Smoother.fits_of_not (N := N) (C := C) (H := H) (W := W) hs
      fun hfit => h ⟨hab, N, C, H, W, ha, hfit.1, hfit.2⟩
    refine ⟨f, ?_⟩
    rw [if_neg (not_not.mpr hab)]
    unfold Smoother.smooth Smoother.accepts
    rw [ha, hf]
    rfl
  · rw [if_pos hab]
    exact ⟨_, rfl⟩

end Averages

/-! ### The ranges of the options -/

/-- Options with a number that is out of range: the deviation of the windows or a stabilizer. -/
def SimilarityOptions.OutOfRange (o : SimilarityOptions) (g : Geometry) (α ω : Type) [Scalar α] [Scalar ω]
    (f : RangeFault) : Prop :=
  (g.gaussian o.gaussianSigma).deviation ω = .error (.overflow f) ∨ o.c1.measureIn α = .error (.overflow f) ∨
    o.c2.measureIn α = .error (.overflow f)

theorem number_of_less {v : Value} {n : ℤ} {b : Bool} (h : v.less (.int n) = .ok b) : ∃ x, v.number? = some x := by
  unfold Value.less at h
  cases hv : v.number? with
  | some x => exact ⟨x, rfl⟩
  | none =>
    rw [hv] at h
    cases v <;> cases h

theorem measureIn_of_less {α : Type} [Scalar α] {v : Value} {n : ℤ} {b : Bool} (h : v.less (.int n) = .ok b) :
    (∃ x : α, v.measureIn α = .ok x) ∨ ∃ f, v.measureIn α = .error (.overflow f) := by
  obtain ⟨x, hx⟩ := number_of_less h
  unfold Value.measureIn
  rw [hx]
  dsimp only
  rcases x.checkWord_ok_or with hword | ⟨f, hword⟩ <;> rw [hword]
  · exact .inl ⟨_, rfl⟩
  · exact .inr ⟨f, rfl⟩

/-- Whether a stabilizer is out of range does not depend on the numbers. -/
theorem measureIn_overflow_iff {α β : Type} [Scalar α] [Scalar β] {v : Value} {f : RangeFault} :
    v.measureIn α = .error (.overflow f) ↔ v.measureIn β = .error (.overflow f) := by
  unfold Value.measureIn
  cases v.number? with
  | none => exact ⟨nofun, nofun⟩
  | some n =>
    dsimp only
    cases n.checkWord with
    | ok _ => exact ⟨nofun, nofun⟩
    | error e =>
      constructor <;> intro h <;> cases h <;> rfl

/-! ### Both programs on batches of one number system -/

section Results

theorem SimilarityLoss.results_reshape {ω : Type} (l : SimilarityLoss ω) (a b : AnyTensor) :
    (l.reshape a.operand b.operand).Results (l.sizeFor a.shape b.shape) :=
  Action.results_reporting (Action.results_bind_of_returns (Action.returns_liftM (Operand.shape_operand a))
    (Action.results_bind_of_returns (Action.returns_liftM (Operand.shape_operand b)) (l.results_settle _ _)))

variable {α ω : Type} [Scalar α] [Scalar ω] [Stored α ω] [Directed α α] {o : SimilarityOptions} {g : Geometry}
  {a b : Tensor α}

theorem Geometry.sound_smoother (g : Geometry) (op : Operator) (sigma : Value) (deviation : ω) :
    (g.smoother op sigma deviation).Sound := fun g' h => by
  rw [Smoother.geometry_gaussian (g := g) rfl] at h
  cases h
  exact shape_gaussianTable _ _ _ _ _

def Geometry.comparator (g : Geometry) (o : SimilarityOptions) (op : Operator) (deviation : ω) : SimilarityLoss ω :=
  ⟨o, {}, g, g.smoother op o.gaussianSigma deviation⟩

/-- The metric of a deviation. -/
def Geometry.index (g : Geometry) (o : SimilarityOptions) (op : Operator) (deviation : ω) : SimilarityIndex ω :=
  ⟨o, g.smoother op o.gaussianSigma deviation⟩

theorem SimilarityIndex.results_create {globals : GlobalOptions} (hg : o.check = .ok g)
    (hop : Operator.check .smoother globals = .ok op) :
    (SimilarityIndex.create o globals : Action Fault (SimilarityIndex ω)).Results
      (g.index o op <$> (g.gaussian o.gaussianSigma).deviation ω) := by
  have h : (SimilarityIndex.create o globals : Action Fault (SimilarityIndex ω)).Results
      ((g.smoother op o.gaussianSigma <$> (g.gaussian o.gaussianSigma).deviation ω) >>= fun s => .ok ⟨o, s⟩) :=
    Action.results_bind_of_returns (SimilarityOptions.returns_resolve hg)
      (Action.results_bind_of_returns (SimilarityOptions.returns_gaussian hg)
        (Action.results_bind (Smoother.results_create hop g o.gaussianSigma) fun _ => Action.returns_pure _))
  cases hd : (g.gaussian o.gaussianSigma).deviation ω <;> rw [hd] at h <;> exact h

/-- Batches that are not compared are refused by both programs. -/
theorem refused_of_not_compares (o : SimilarityOptions) (op : Operator) (deviation : ω)
    (h : ¬g.Compares a.shape b.shape) :
    (∃ f, ((g.comparator o op deviation).sizeFor a.shape b.shape) = .error (.shape f)) ∧
      ∃ f, (g.index o op deviation).answer a b = .error (.shape f) := by
  refine ⟨SimilarityLoss.sizeFor_of_not_compares (l := g.comparator o op deviation) h, ?_⟩
  unfold SimilarityIndex.answer
  by_cases ha : a.shape.length = 4
  · rw [Operator.requireImages_of_rank ha, ok_bind]
    by_cases hb : b.shape.length = 4
    · obtain ⟨f, hf⟩ := windowAverages_of_not_compares (s := (g.index o op deviation).smoother)
        (Smoother.geometry_gaussian rfl) ha h
      rw [Operator.requireImages_of_rank hb, ok_bind]
      unfold SimilarityIndex.map statisticsOf
      rw [hf]
      exact ⟨f, rfl⟩
    · obtain ⟨f, hf⟩ := Operator.requireImages_of_not_rank (g.index o op deviation).smoother.operator "u_estim" hb
      rw [hf]
      exact ⟨f, rfl⟩
  · obtain ⟨f, hf⟩ := Operator.requireImages_of_not_rank (g.index o op deviation).smoother.operator "u_truth" ha
    rw [hf]
    exact ⟨f, rfl⟩

omit [Scalar ω] in
/-- What the metric answers to two batches of images that have averages. -/
theorem SimilarityIndex.answer_of_averages {m : SimilarityIndex ω} {w : WindowAverages α}
    (ha : a.shape.length = 4) (hb : b.shape.length = 4) (hw : windowAverages m.smoother a b = .ok w) :
    m.answer a b = (do
      let c1 ← m.options.c1.measureIn α
      let c2 ← m.options.c2.measureIn α
      return ((w.factors c1 c2).map, (w.factors c1 c2).map.mean)) := by
  unfold SimilarityIndex.answer SimilarityIndex.map statisticsOf
  rw [Operator.requireImages_of_rank ha, ok_bind, Operator.requireImages_of_rank hb, ok_bind, hw]
  show ((m.options.c1.measureIn α >>= _) >>= _ >>= _) = _
  rcases m.options.c1.measureIn α with _ | c1
  · rfl
  · show ((m.options.c2.measureIn α >>= _) >>= _ >>= _) = (m.options.c2.measureIn α >>= _)
    rcases m.options.c2.measureIn α with _ | c2 <;> rfl

/-- Batches that are compared have one map in both programs, unless a stabilizer is out of range. -/
theorem answers_of_compares (hg : o.check = .ok g) (op op' : Operator) (deviation : ω)
    (h : g.Compares a.shape b.shape) (hsize : 0 < a.size) :
    (∃ f, (o.c1.measureIn α = .error (.overflow f) ∨ o.c2.measureIn α = .error (.overflow f)) ∧
      (g.comparator o op deviation).pass a b = .error (.overflow f) ∧
      (g.index o op' deviation).answer a b = .error (.overflow f)) ∨
    ∃ p : SimilarityPass α ω, (g.comparator o op deviation).pass a b = .ok p ∧
      (g.index o op' deviation).answer a b = .ok (p.factors.map, p.factors.map.mean) ∧
      p.factors.map.shape = correlationShape g.sweep a.shape (Smoother.kernelShape g (a.shape.getD 1 0)) := by
  obtain ⟨hless1, hless2, -⟩ := SimilarityOptions.accepted_of_check hg
  obtain ⟨w, hw, hmean⟩ := windowAverages_of_compares (a := a) (b := b) (Smoother.geometry_gaussian rfl)
    (g.sound_smoother op o.gaussianSigma deviation) h hsize
  -- the windows of the two programs differ in their operator only
  have hw' : windowAverages (g.smoother op' o.gaussianSigma deviation) a b = .ok w := hw
  obtain ⟨hab, N, C, H, W, ha, -, -⟩ := h
  have hrankA : a.shape.length = 4 := by rw [ha]; rfl
  have hrankB : b.shape.length = 4 := by rw [← hab, ha]; rfl
  have hpass : (g.comparator o op deviation).pass a b = (do
      let c1 ← o.c1.measureIn α
      let c2 ← o.c2.measureIn α
      similarityPass (g.smoother op o.gaussianSigma deviation) c1 c2 a b) := rfl
  have hanswer : (g.index o op' deviation).answer a b = (do
      let c1 ← o.c1.measureIn α
      let c2 ← o.c2.measureIn α
      return ((w.factors c1 c2).map, (w.factors c1 c2).map.mean)) :=
    SimilarityIndex.answer_of_averages hrankA hrankB hw'
  rw [hpass, hanswer]
  rcases measureIn_of_less (α := α) hless1 with ⟨c1, h1⟩ | ⟨f, h1⟩
  · rcases measureIn_of_less (α := α) hless2 with ⟨c2, h2⟩ | ⟨f, h2⟩
    · refine .inr ⟨⟨g.smoother op o.gaussianSigma deviation, a, b, w, w.factors c1 c2⟩, ?_, ?_, ?_⟩
      · rw [h1, ok_bind, h2, ok_bind]
        unfold similarityPass
        rw [hw]
        rfl
      · rw [h1, ok_bind, h2, ok_bind]
        rfl
      · exact hmean
    · exact .inl ⟨f, .inr h2, by rw [h1, ok_bind, h2]; rfl, by rw [h1, ok_bind, h2]; rfl⟩
  · exact .inl ⟨f, .inl h1, by rw [h1]; rfl, by rw [h1]; rfl⟩

end Results

/-! ### The outcomes of both programs -/

section Outcomes

theorem check_standard : Operator.check .smoother {} = .ok ⟨.smoother, "torch", {}⟩ := by with_unfolding_all rfl

theorem check_plain : Operator.check .smoother plainOptions = .ok ⟨.smoother, "numpy", plainOptions⟩ := by
  with_unfolding_all rfl

variable {α ω : Type} [Scalar α] [Scalar ω] [Stored α ω] [Directed α α] {o : SimilarityOptions} {g : Geometry}

/-- Both programs are out of range, refuse or compute one map. -/
theorem index_cases (hg : o.check = .ok g) {a : Tensor α} (hsize : 0 < a.size) (b : Tensor α) :
    (∃ f, o.OutOfRange g α ω f ∧
      ((g.gaussian o.gaussianSigma).deviation ω = .error (.overflow f) ∨ g.Compares a.shape b.shape) ∧
      (lossIn o a b).Results (.error (.overflow f)) ∧ (similarityIn o a b).Results (.error (.overflow f))) ∨
    ((∀ f, (g.gaussian o.gaussianSigma).deviation ω ≠ .error (.overflow f)) ∧ ¬g.Compares a.shape b.shape ∧
      (lossIn o a b).Refuses ∧ (similarityIn o a b).Refuses) ∨
    ∃ p : SimilarityPass α ω, g.Compares a.shape b.shape ∧ (lossIn o a b).Returns p ∧
      (similarityIn o a b).Returns (p.factors.map, p.factors.map.mean) ∧
      p.factors.map.shape = correlationShape g.sweep a.shape (Smoother.kernelShape g (a.shape.getD 1 0)) := by
  have hbuild := SimilarityLoss.results_build (ω := ω) hg check_standard
  have hcreate := SimilarityIndex.results_create (ω := ω) hg check_plain
  rcases deviation_gaussian (ω := ω) g (SimilarityOptions.accepted_of_check hg).2.2 with ⟨d, hd⟩ | ⟨f, hd⟩
  · rw [hd] at hbuild hcreate
    have hloss : (lossIn o a b).Results _ :=
      Action.results_bind_of_returns hbuild (SimilarityLoss.results_forward (g.comparator o _ d) a b)
    have hindex : (similarityIn o a b).Results _ :=
      Action.results_bind_of_returns hcreate (Action.results_liftM ((g.index o _ d).answer a b))
    by_cases h : g.Compares a.shape b.shape
    · obtain ⟨size, hsizeFor⟩ :=
        SimilarityLoss.sizeFor_of_compares (l := g.comparator o ⟨.smoother, "torch", {}⟩ d) h
      rw [hsizeFor, ok_bind] at hloss
      rcases answers_of_compares hg ⟨.smoother, "torch", {}⟩ ⟨.smoother, "numpy", plainOptions⟩ d h hsize with
        ⟨f, hrange, hpass, hanswer⟩ | ⟨p, hpass, hanswer, hshape⟩
      · rw [hpass] at hloss
        rw [hanswer] at hindex
        exact .inl ⟨f, .inr hrange, .inr h, hloss, hindex⟩
      · rw [hpass] at hloss
        rw [hanswer] at hindex
        exact .inr (.inr ⟨p, h, hloss, hindex, hshape⟩)
    · obtain ⟨⟨f, hf⟩, -⟩ := refused_of_not_compares o ⟨.smoother, "torch", {}⟩ d h
      obtain ⟨-, f', hf'⟩ := refused_of_not_compares o ⟨.smoother, "numpy", plainOptions⟩ d h
      rw [hf] at hloss
      rw [hf'] at hindex
      exact .inr (.inl ⟨fun _ => by rw [hd]; exact nofun, h, ⟨f, hloss⟩, f', hindex⟩)
  · rw [hd] at hbuild hcreate
    exact .inl ⟨f, .inl hd, .inl hd, Action.results_bind_of_error hbuild, Action.results_bind_of_error hcreate⟩

theorem Action.not_refuses {β : Type} {a : Action Fault β} {r : Except Fault β} (h : a.Results r)
    (hr : ∀ f, r ≠ .error (.shape f)) : ¬a.Refuses := by
  rintro ⟨f, hf⟩
  exact hr f (h.unique hf)

end Outcomes

/-! ### Exact arithmetic -/

section Exact

variable {o : SimilarityOptions} {g : Geometry}

theorem mean_eq_average {t : Tensor ℝ} {N C H W : ℕ} (ht : t.shape = [N, C, H, W]) : t.mean =
    (∑ n ∈ range N, ∑ c ∈ range C, ∑ p ∈ cells (H, W), t.at4 n c p.1 p.2) / (N * C * (H * W)) := by
  unfold mean
  rw [sum_eq_sum ht, size_batch ht]
  push_cast
  rw [mul_assoc ((N : ℝ) * C)]

/-- Loss and metric as one index, in exact arithmetic. They refuse the same batches, namely those whose
shapes are not compared. Otherwise an option is out of range, or the metric is one less the loss and the
average of its map over all windows, channels and samples. -/
structure OneIndex (o : SimilarityOptions) (g : Geometry) (a b : Tensor ℝ) : Prop where
  refused : (lossIn o a b).Refuses ↔ (similarityIn o a b).Refuses
  refused_iff : (similarityIn o a b).Refuses ↔
    (∀ f, (g.gaussian o.gaussianSigma).deviation ℝ ≠ .error (.overflow f)) ∧ ¬g.Compares a.shape b.shape
  computed : ¬(similarityIn o a b).Refuses →
    (∃ f, o.OutOfRange g ℝ ℝ f ∧ (lossIn o a b).Results (.error (.overflow f)) ∧
      (similarityIn o a b).Results (.error (.overflow f))) ∨
    ∃ (p : SimilarityPass ℝ ℝ) (t : Tensor ℝ) (N C H W : ℕ), (lossIn o a b).Returns p ∧
      (similarityIn o a b).Returns (t, 1 - p.loss) ∧ a.shape = [N, C, H, W] ∧
      t.shape = [N, C, windows H g.kernel.1 g.stride.1 g.pad.1, windows W g.kernel.2 g.stride.2 g.pad.2] ∧
      1 - p.loss = (∑ n ∈ range N, ∑ c ∈ range C, ∑ k ∈ cells (g.sweep.grid g.kernel (H, W)), t.at4 n c k.1 k.2) /
        (N * C * (windows H g.kernel.1 g.stride.1 g.pad.1 * windows W g.kernel.2 g.stride.2 g.pad.2))

theorem oneIndex_of_check (hg : o.check = .ok g) {a : Tensor ℝ} (hsize : 0 < a.size) (b : Tensor ℝ) :
    OneIndex o g a b := by
  rcases index_cases hg hsize b with ⟨f, hrange, h, hloss, hindex⟩ | ⟨hd, h, hloss, hindex⟩ |
    ⟨p, h, hloss, hindex, hshape⟩
  · have hno := Action.not_refuses hindex nofun
    refine ⟨iff_of_false (Action.not_refuses hloss nofun) hno, iff_of_false hno ?_,
      fun _ => .inl ⟨f, hrange, hloss, hindex⟩⟩
    rintro ⟨hd, hc⟩
    exact h.elim (hd f) hc
  · exact ⟨iff_of_true hloss hindex, iff_of_true hindex ⟨hd, h⟩, fun hno => absurd hindex hno⟩
  · have hno := Action.not_refuses hindex nofun
    refine ⟨iff_of_false (Action.not_refuses hloss nofun) hno, iff_of_false hno fun hrefused => hrefused.2 h,
      fun _ => .inr ?_⟩
    obtain ⟨-, N, C, H, W, ha, -, -⟩ := h
    -- the metric is the mean, and the loss is one less the mean
    have hmean : 1 - p.loss = p.factors.map.mean := sub_sub_cancel 1 p.factors.map.mean
    rw [ha] at hshape
    exact ⟨p, p.factors.map, N, C, H, W, hloss, hmean ▸ hindex, ha, hshape, hmean.trans (mean_eq_average hshape)⟩

end Exact

/-! ### Element types found at run time -/

/-- A tensor of one of the floating-point types. -/
def AnyTensor.Floats (t : AnyTensor) : Prop := t.elementType = .float64 ∨ t.elementType = .float32

/-- Two tensors that meet in the numbers `α`: both programs convert them and compare them there. -/
structure Meets (α : Type) [Scalar α] [Stored α Float] [Directed α α] [Element α] (a b : AnyTensor) : Prop where
  first : (Element.convert a : Tensor α).shape = a.shape
  second : (Element.convert b : Tensor α).shape = b.shape
  loss : ∀ l : SimilarityLoss Float, Prod.fst <$> LossSession.compare l a b =
    (fun p : SimilarityPass α Float => Element.pack (scalar p.loss)) <$>
      l.pass (Element.convert a) (Element.convert b)
  map : ∀ x : SimilarityIndex Float, x.mapAny a b =
    (fun t : Tensor α => (Element.pack t, Stored.widen t.mean)) <$>
      x.map (Element.convert a : Tensor α) (Element.convert b)

/-- The answers of both programs for batches whose similarity at the windows is `t`. -/
structure OneAnswer {α : Type} [Scalar α] [Stored α Float] [Element α] (o : SimilarityOptions) (a b : AnyTensor)
    (t : Tensor α) : Prop where
  map : (similarityOf o true (.text "numpy") a.operand b.operand).Returns (.array ⟨.plain, Element.pack t⟩)
  number : (similarityOf o false (.text "numpy") a.operand b.operand).Returns (.number (Stored.widen t.mean))
  loss : (lossOf o a b).Returns (.loss (Element.pack (scalar (1 - t.mean))))

section RunTime

variable {α : Type} [Scalar α] [Stored α Float] [Directed α α] [Element α] {o : SimilarityOptions} {g : Geometry}
  {a b : AnyTensor}

theorem shape_toFloat64 (t : AnyTensor) : t.toFloat64.shape = t.shape := by cases t <;> rfl

theorem shape_toFloat32 (t : AnyTensor) : t.toFloat32.shape = t.shape := by cases t <;> rfl

theorem meets_float64 (h : AnyTensor.joinType a.elementType b.elementType = .float64) : Meets Float a b where
  first := shape_toFloat64 a
  second := shape_toFloat64 b
  loss l := by
    unfold LossSession.compare
    rw [h]
    show Prod.fst <$> ((l.pass a.toFloat64 b.toFloat64 : Except Fault (SimilarityPass Float Float)) >>= _) = _
    cases (l.pass a.toFloat64 b.toFloat64 : Except Fault (SimilarityPass Float Float)) <;> rfl
  map x := by
    unfold SimilarityIndex.mapAny
    rw [h]
    rfl

theorem meets_float32 (h : AnyTensor.joinType a.elementType b.elementType = .float32) : Meets Float32 a b where
  first := shape_toFloat32 a
  second := shape_toFloat32 b
  loss l := by
    unfold LossSession.compare
    rw [h]
    show Prod.fst <$> ((l.pass a.toFloat32 b.toFloat32 : Except Fault (SimilarityPass Float32 Float)) >>= _) = _
    cases (l.pass a.toFloat32 b.toFloat32 : Except Fault (SimilarityPass Float32 Float)) <;> rfl
  map x := by
    unfold SimilarityIndex.mapAny
    rw [h]
    rfl

theorem deliver_plain (t : AnyTensor) : (⟨.smoother, "numpy", plainOptions⟩ : Operator).deliver .null ⟨.tensor, t⟩ =
    .ok ⟨.plain, t⟩ := by
  with_unfolding_all rfl

theorem Operator.ensure_operand (op : Operator) (name : String) (t : AnyTensor) : op.ensure name .null t.operand =
    (fun _ => t) <$> op.requireImages name .null t.shape := by
  show (op.requireImages name .null t.shape >>= _) = _
  cases op.requireImages name .null t.shape <;> rfl

/-- What is done with the checks and the map of a metric at run time can be done with those in the numbers in
which the tensors meet. -/
theorem Meets.answer_bind (h : Meets α a b) (x : SimilarityIndex Float) {γ : Type}
    (k : AnyTensor × Float → Except Fault γ) : (x.smoother.operator.ensure "u_truth" .null a.operand >>= fun a' =>
      x.smoother.operator.ensure "u_estim" .null b.operand >>= fun b' => x.mapAny a' b' >>= k) =
    (x.answer (Element.convert a) (Element.convert b) : Except Fault (Tensor α × α)) >>= fun r =>
      k (Element.pack r.1, Stored.widen r.2) := by
  unfold SimilarityIndex.answer
  rw [h.first, h.second, Operator.ensure_operand, Operator.ensure_operand]
  cases x.smoother.operator.requireImages "u_truth" .null a.shape with
  | error e => rfl
  | ok _ =>
    cases x.smoother.operator.requireImages "u_estim" .null b.shape with
    | error e => rfl
    | ok _ =>
      show x.mapAny a b >>= k =
        ((x.map (Element.convert a : Tensor α) (Element.convert b) : Except Fault (Tensor α)) >>=
          fun t => .ok (t, t.mean)) >>= _
      rw [h.map]
      cases (x.map (Element.convert a : Tensor α) (Element.convert b) : Except Fault (Tensor α)) <;> rfl

/-- How a metric of plain arrays replies with a map or its mean. -/
def replyWith (wholeMap : Bool) (map : AnyTensor) (mean : Float) : MetricResult :=
  if wholeMap then .array ⟨.plain, map⟩ else .number mean

/-- What the metric answers at run time is what it answers in the numbers in which the tensors meet. -/
theorem results_similarityOf (h : Meets α a b) (hg : o.check = .ok g) (wholeMap : Bool)
    {r : Except Fault (Tensor α × α)} (hr : (similarityIn o (Element.convert a) (Element.convert b)).Results r) :
    (similarityOf o wholeMap (.text "numpy") a.operand b.operand).Results
      ((fun r => replyWith wholeMap (Element.pack r.1) (Stored.widen r.2)) <$> r) := by
  have hcreate := SimilarityIndex.results_create (ω := Float) hg check_plain
  rcases deviation_gaussian (ω := Float) g (SimilarityOptions.accepted_of_check hg).2.2 with ⟨d, hd⟩ | ⟨f, hd⟩
  · rw [hd] at hcreate
    have hanswer : (similarityIn o (Element.convert a) (Element.convert b)).Results
        ((g.index o ⟨.smoother, "numpy", plainOptions⟩ d).answer (Element.convert a : Tensor α)
          (Element.convert b)) :=
      Action.results_bind_of_returns hcreate (Action.results_liftM _)
    have hreply : (similarityOf o wholeMap (.text "numpy") a.operand b.operand).Results _ :=
      Action.results_bind_of_returns hcreate (Action.results_bind (Action.results_liftM _) fun a' =>
        Action.results_bind (Action.results_liftM _) fun b' => Action.results_bind (Action.results_liftM _)
          (k := fun m => .ok (replyWith wholeMap m.1 m.2)) fun m => by
            cases wholeMap with
            | true => exact Action.returns_bind (Action.returns_liftM (deliver_plain m.1)) (Action.returns_pure _)
            | false => exact Action.returns_pure _)
    rw [hr.unique hanswer, map_eq_pure_bind]
    rw [h.answer_bind] at hreply
    exact hreply
  · rw [hd] at hcreate
    rw [hr.unique (Action.results_bind_of_error hcreate)]
    exact Action.results_bind_of_error hcreate

/-- A comparator that accepts two tensors replies with what it computes from them. -/
theorem LossSession.returns_forward {l : SimilarityLoss Float} {size : ℕ × ℕ}
    (hsize : l.sizeFor a.shape b.shape = .ok size) : ∃ s : LossSession,
    (LossSession.forward ⟨l, none⟩ a.operand b.operand (false, false)).Returns
      (s, (fun r => .loss r.1) <$> LossSession.compare l a b) := by
  have hattempt := Action.returns_attempt (l.results_reshape a b)
  rw [hsize] at hattempt
  have ha : a.operand.asTensor = .ok a := rfl
  have hb : b.operand.asTensor = .ok b := rfl
  cases hcompare : LossSession.compare l a b with
  | error e =>
    refine ⟨⟨l, none⟩, Action.returns_bind hattempt ?_⟩
    simp only [ha, hb, ok_bind, hcompare]
    exact Action.returns_pure _
  | ok r =>
    refine ⟨⟨l, some ⟨r.2, (false, false), (a.elementType, b.elementType), false⟩⟩, Action.returns_bind hattempt ?_⟩
    simp only [ha, hb, ok_bind, hcompare]
    exact Action.returns_pure _

/-- A comparator replies with the loss in the numbers in which the tensors meet. -/
theorem Meets.returns_forward (h : Meets α a b) (l : SimilarityLoss Float) : ∃ s : LossSession,
    (LossSession.forward ⟨l, none⟩ a.operand b.operand (false, false)).Returns (s,
      (fun p : SimilarityPass α Float => .loss (Element.pack (scalar p.loss))) <$>
        (l.sizeFor a.shape b.shape >>= fun _ => l.pass (Element.convert a) (Element.convert b))) := by
  cases hsize : l.sizeFor a.shape b.shape with
  | error e =>
    have hattempt := Action.returns_attempt (l.results_reshape a b)
    rw [hsize] at hattempt
    exact ⟨⟨l, none⟩, Action.returns_bind hattempt (Action.returns_pure _)⟩
  | ok size =>
    have hreply : (fun r => LayerReply.loss r.1) <$> LossSession.compare l a b =
        LayerReply.loss <$> Prod.fst <$> LossSession.compare l a b := by
      cases LossSession.compare l a b <;> rfl
    obtain ⟨s, hs⟩ := LossSession.returns_forward hsize
    rw [hreply, h.loss] at hs
    refine ⟨s, ?_⟩
    rw [ok_bind]
    cases hpass : (l.pass (Element.convert a) (Element.convert b) : Except Fault (SimilarityPass α Float)) <;>
      rw [hpass] at hs <;> exact hs

/-- What the comparator answers at run time is what it answers in the numbers in which the tensors meet. -/
theorem results_lossOf (h : Meets α a b) (hg : o.check = .ok g) {r : Except Fault (SimilarityPass α Float)}
    (hr : (lossIn o (Element.convert a) (Element.convert b)).Results r) :
    (lossOf o a b).Results ((fun p => .loss (Element.pack (scalar p.loss))) <$> r) := by
  have hbuild := SimilarityLoss.results_build (ω := Float) hg check_standard
  rcases deviation_gaussian (ω := Float) g (SimilarityOptions.accepted_of_check hg).2.2 with ⟨d, hd⟩ | ⟨f, hd⟩
  · rw [hd] at hbuild
    have hforward : (lossIn o (Element.convert a : Tensor α) (Element.convert b)).Results _ :=
      Action.results_bind_of_returns hbuild (SimilarityLoss.results_forward _ _ _)
    rw [hr.unique hforward, h.first, h.second]
    obtain ⟨s, hs⟩ := h.returns_forward (g.comparator o ⟨.smoother, "torch", {}⟩ d)
    exact Action.results_bind_of_returns hbuild (Action.results_bind_of_returns hs (Action.results_liftM _))
  · rw [hd] at hbuild
    rw [hr.unique (Action.results_bind_of_error hbuild)]
    exact Action.results_bind_of_error hbuild

/-- At run time too, both programs are out of range, refuse or compute one map. -/
theorem Meets.cases (h : Meets α a b) (hg : o.check = .ok g) (hsize : 0 < volume a.shape) :
    (∃ f, o.OutOfRange g Float Float f ∧
      ((g.gaussian o.gaussianSigma).deviation Float = .error (.overflow f) ∨ g.Compares a.shape b.shape) ∧
      (lossOf o a b).Results (.error (.overflow f)) ∧
      (similarityOf o false (.text "numpy") a.operand b.operand).Results (.error (.overflow f))) ∨
    ((∀ f, (g.gaussian o.gaussianSigma).deviation Float ≠ .error (.overflow f)) ∧ ¬g.Compares a.shape b.shape ∧
      (lossOf o a b).Refuses ∧ (similarityOf o false (.text "numpy") a.operand b.operand).Refuses) ∨
    g.Compares a.shape b.shape ∧ ∃ t : Tensor α, OneAnswer o a b t := by
  have hsize' : 0 < (Element.convert a : Tensor α).size := by
    unfold Tensor.size
    rw [h.first]
    exact hsize
  have hcases := index_cases hg hsize' (Element.convert b)
  rw [h.first, h.second] at hcases
  rcases hcases with ⟨f, hrange, hc, hloss, hindex⟩ | ⟨hd, hc, ⟨f, hloss⟩, f', hindex⟩ | ⟨p, hc, hloss, hindex, -⟩
  · refine .inl ⟨f, ?_, hc, results_lossOf h hg hloss, results_similarityOf h hg false hindex⟩
    exact hrange.imp_right (Or.imp measureIn_overflow_iff.mp measureIn_overflow_iff.mp)
  · exact .inr (.inl ⟨hd, hc, ⟨f, results_lossOf h hg hloss⟩, f', results_similarityOf h hg false hindex⟩)
  · exact .inr (.inr ⟨hc, p.factors.map, results_similarityOf h hg true hindex,
      results_similarityOf h hg false hindex, results_lossOf h hg hloss⟩)

end RunTime

/-- Loss and metric as one index of tensors whose element types are found at run time, in rounded
arithmetic. They refuse the same tensors, namely those whose shapes are not compared. Otherwise an option
is out of range, or the metric is the mean of the map that it returns as a whole, and the loss is one
less that mean. -/
structure OneIndexAtRunTime (o : SimilarityOptions) (g : Geometry) (a b : AnyTensor) : Prop where
  refused : (lossOf o a b).Refuses ↔ (similarityOf o false (.text "numpy") a.operand b.operand).Refuses
  refused_iff : (similarityOf o false (.text "numpy") a.operand b.operand).Refuses ↔
    (∀ f, (g.gaussian o.gaussianSigma).deviation Float ≠ .error (.overflow f)) ∧ ¬g.Compares a.shape b.shape
  computed : ¬(similarityOf o false (.text "numpy") a.operand b.operand).Refuses →
    (∃ f, o.OutOfRange g Float Float f ∧ (lossOf o a b).Results (.error (.overflow f)) ∧
      (similarityOf o false (.text "numpy") a.operand b.operand).Results (.error (.overflow f))) ∨
    (∃ t : Tensor Float, OneAnswer o a b t) ∨ ∃ t : Tensor Float32, OneAnswer o a b t

section Index

variable {o : SimilarityOptions} {g : Geometry} {a b : AnyTensor}

theorem Meets.oneIndex {α : Type} [Scalar α] [Stored α Float] [Directed α α] [Element α] (h : Meets α a b)
    (hg : o.check = .ok g) (hsize : 0 < volume a.shape)
    (hnumbers : (∃ t : Tensor α, OneAnswer o a b t) →
      (∃ t : Tensor Float, OneAnswer o a b t) ∨ ∃ t : Tensor Float32, OneAnswer o a b t) :
    OneIndexAtRunTime o g a b := by
  rcases h.cases hg hsize with ⟨f, hrange, hc, hloss, hindex⟩ | ⟨hd, hc, hloss, hindex⟩ | ⟨hc, t, ht⟩
  · have hno := Action.not_refuses hindex nofun
    refine ⟨iff_of_false (Action.not_refuses hloss nofun) hno, iff_of_false hno ?_,
      fun _ => .inl ⟨f, hrange, hloss, hindex⟩⟩
    rintro ⟨hd, hn⟩
    exact hc.elim (hd f) hn
  · exact ⟨iff_of_true hloss hindex, iff_of_true hindex ⟨hd, hc⟩, fun hno => absurd hindex hno⟩
  · have hno := Action.not_refuses ht.number nofun
    exact ⟨iff_of_false (Action.not_refuses ht.loss nofun) hno, iff_of_false hno fun hrefused => hrefused.2 hc,
      fun _ => .inr (hnumbers ⟨t, ht⟩)⟩

/-- Loss and metric are one index, for options that are accepted, a batch with pixels and any other batch:
they refuse the same shapes, and else the metric is one less the loss and the mean of the map in exact
arithmetic. At run time the loss is one less the metric in the arithmetic of the tensors. -/
theorem loss_and_similarity_are_one_index (hg : o.resolve.Gives g) :
    (∀ a b : Tensor ℝ, 0 < a.size → OneIndex o g a b) ∧
      ∀ a b : AnyTensor, a.Floats → b.Floats → 0 < volume a.shape → OneIndexAtRunTime o g a b := by
  have hcheck := SimilarityOptions.check_of_resolve hg
  refine ⟨fun a b hsize => oneIndex_of_check hcheck hsize b, fun a b ha hb hsize => ?_⟩
  have hjoin : AnyTensor.joinType a.elementType b.elementType = .float64 ∨
      AnyTensor.joinType a.elementType b.elementType = .float32 := by
    unfold AnyTensor.Floats at ha hb
    rcases ha with ha | ha <;> rcases hb with hb | hb <;> rw [ha, hb] <;> decide
  rcases hjoin with h | h
  · exact (meets_float64 h).oneIndex hcheck hsize .inl
  · exact (meets_float32 h).oneIndex hcheck hsize .inr

set_option maxRecDepth 10000 in
/-- Two batches that are compared in exact arithmetic, and two tensors that are refused at run time. -/
theorem loss_and_similarity_are_one_index_sample :
    (∃ (p : SimilarityPass ℝ ℝ) (t : Tensor ℝ),
      (lossIn { kernelSize := .int 2, c1 := .int 1, c2 := .int 1 } (fill [1, 1, 2, 2] 1)
        (fill [1, 1, 2, 2] 3)).Returns p ∧
      (similarityIn { kernelSize := .int 2, c1 := .int 1, c2 := .int 1 } (fill [1, 1, 2, 2] 1)
        (fill [1, 1, 2, 2] 3)).Returns (t, 1 - p.loss)) ∧
    (lossOf { kernelSize := .int 2, c1 := .int 1, c2 := .int 1 } (.float64 (fill [1, 1, 1, 2] 1))
      (.float32 (fill [1, 1, 1, 2] 1))).Refuses ∧
    (similarityOf { kernelSize := .int 2, c1 := .int 1, c2 := .int 1 } false (.text "numpy")
      (AnyTensor.float64 (fill [1, 1, 1, 2] 1)).operand (AnyTensor.float32 (fill [1, 1, 1, 2] 1)).operand).Refuses := by
  obtain ⟨hexact, hrun⟩ := loss_and_similarity_are_one_index
    (o := { kernelSize := .int 2, c1 := .int 1, c2 := .int 1 }) (g := squareWindows 2 0 (by decide))
    ⟨Journal.empty, by with_unfolding_all rfl⟩
  have hdeviation {ω : Type} [Scalar ω] :
      ((squareWindows 2 0 (by decide)).gaussian .null).deviation ω = .ok (footprintDeviation 2 2) := by
    with_unfolding_all rfl
  constructor
  · have h := hexact (fill [1, 1, 2, 2] 1) (fill [1, 1, 2, 2] 3) (by decide)
    have hcompares : (squareWindows 2 0 (by decide)).Compares [1, 1, 2, 2] [1, 1, 2, 2] :=
      ⟨rfl, 1, 1, 2, 2, rfl, by decide, by decide⟩
    rcases h.computed fun hrefused => (h.refused_iff.mp hrefused).2 hcompares with ⟨f, hrange, -, -⟩ |
      ⟨p, t, -, -, -, -, hp, ht, -⟩
    · have hone : (Value.int 1).measureIn ℝ = .ok (Number.whole 1).toScalar := rfl
      rcases hrange with hd | h1 | h2
      · rw [hdeviation] at hd
        cases hd
      · rw [hone] at h1
        cases h1
      · rw [hone] at h2
        cases h2
    · exact ⟨p, t, hp, ht⟩
  · have h := hrun (.float64 (fill [1, 1, 1, 2] 1)) (.float32 (fill [1, 1, 1, 2] 1)) (.inl rfl) (.inr rfl) (by decide)
    have hrefused : (similarityOf { kernelSize := .int 2, c1 := .int 1, c2 := .int 1 } false (.text "numpy")
        (AnyTensor.float64 (fill [1, 1, 1, 2] 1)).operand
        (AnyTensor.float32 (fill [1, 1, 1, 2] 1)).operand).Refuses := by
      refine h.refused_iff.mpr ⟨fun _ => by rw [hdeviation]; exact nofun, ?_⟩
      rintro ⟨-, N, C, H, W, hshape, hfit, -⟩
      cases hshape
      exact absurd hfit (by decide)
    exact ⟨h.refused.mpr hrefused, hrefused⟩

end Index

end SteeredConv
