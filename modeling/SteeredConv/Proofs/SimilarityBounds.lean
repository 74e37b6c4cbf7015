/-
# Bounds of the similarity

The weights of a window are a probability at most, so the average of the squares of any combination of
two batches is at least the square of its average, also where a window hangs over the border. Variances
are therefore not negative and twice a covariance is at most the sum of the variances. With positive
stabilizers both factors of the similarity lie between minus one and one, and the loss between zero and
two; no comparison that its options allow divides by zero.

Key definitions: `SimilarityPass.Bounded`.
Key theorems: `bounded_comparison`, `deviation_eq`, `deviation_gaussian`, `SimilarityLoss.returns_build`,
`SimilarityLoss.returns_forward`, `similarity_bounded`.
-/
import SteeredConv.Proofs.SimilarityGradient
import SteeredConv.Layer.SimilarityLoss

namespace SteeredConv

open Finset Tensor

/-! ### One window -/

section Window

variable {c1 c2 x y p q r : ℝ}

end Window

/-! ### Comparisons -/

section Comparison

variable {s : Smoother ℝ} {g : Geometry} {c1 c2 : ℝ} {a b : Tensor ℝ}

end Comparison

/-! ### The deviation of a window -/

section Deviation

theorem Number.checkWord_ok_or (n : Number) : n.checkWord = .ok () ∨ ∃ f, n.checkWord = .error (.overflow f) := by
  cases n with
  | whole n =>
    unfold Number.checkWord
    exact (ite_eq_or_eq _ _ _).imp_right fun h => ⟨_, h⟩
  | real x => exact .inl rfl

theorem Number.checkSquare_ok_or (n : Number) :
    n.checkSquare = .ok () ∨ ∃ f, n.checkSquare = .error (.overflow f) := by
  cases n with
  | whole n => exact Number.checkWord_ok_or (.whole (2 * n * n))
  | real x =>
    unfold Number.checkSquare
    exact (ite_eq_or_eq _ _ _).symm.imp_right fun h => ⟨_, h⟩

theorem checkSquare_wide : (Number.real 1e200).checkSquare = .error (.overflow .square) := by
  have hsquare : ((1e200 : Float).isFinite && (1e200 * 1e200 : Float).isInf) = true := by decide +kernel
  unfold Number.checkSquare
  dsimp only
  rw [if_pos hsquare]

theorem requireSigma_eq_ok_iff {owner : OptionSet} {sigma : Value} : requireSigma owner sigma = .ok () ↔
    sigma.isNull = true ∨ sigma.atMost (.int 0) = .ok false := by
  unfold requireSigma
  cases sigma.isNull with
  | true => exact ⟨fun _ => .inl rfl, fun _ => rfl⟩
  | false =>
    rcases sigma.atMost (.int 0) with _ | _ | _
    · exact ⟨nofun, nofun⟩
    · exact ⟨fun _ => .inr rfl, fun _ => rfl⟩
    · exact ⟨nofun, nofun⟩

theorem number_of_atMost {v : Value} {n : ℤ} {b : Bool} (h : v.atMost (.int n) = .ok b) :
    ∃ x, v.number? = some x := by
  unfold Value.atMost at h
  cases hv : v.number? with
  | some x => exact ⟨x, rfl⟩
  | none =>
    rw [hv] at h
    cases v <;> cases h

/-- The deviation of a window is the given one if its square is in range, or follows from the footprint. -/
theorem deviation_eq {ω : Type} [Scalar ω] {owner : OptionSet} {sigma : Value} (g : Geometry)
    (h : requireSigma owner sigma = .ok ()) : (g.gaussian sigma).deviation ω = match sigma.number? with
      | some n => n.checkSquare.map fun _ => n.toScalar
      | none => if g.kernel.1 + g.kernel.2 < 12 * Nat.pow (Nat.pow 2 256) 2 then
          .ok (footprintDeviation g.kernel.1 g.kernel.2) else .error (.overflow .square) := by
  have hnull : (g.gaussian sigma).sigma.isNull = sigma.isNull := rfl
  have hkernel : (g.gaussian sigma).wholeKernel? = some (g.kernel.1, g.kernel.2) := rfl
  unfold GaussianOptions.deviation
  rw [hnull, hkernel]
  cases hsigma : sigma.isNull with
  | true =>
    have hnone : sigma.number? = none := by
      cases sigma <;> first | rfl | cases hsigma
    rw [hnone]
    rfl
  | false =>
    have hpos := (requireSigma_eq_ok_iff.mp h).resolve_left (by rw [hsigma]; exact Bool.false_ne_true)
    obtain ⟨n, hn⟩ := number_of_atMost hpos
    have hresolved : (g.gaussian sigma).resolvedSigma = .ok sigma := by
      unfold GaussianOptions.resolvedSigma
      rw [hnull, hsigma]
      rfl
    dsimp only
    rw [hresolved, ok_bind]
    unfold GaussianOptions.givenDeviation
    rw [hpos, ok_bind, hn]
    dsimp only
    rcases n.checkSquare_ok_or with hsquare | ⟨_, hsquare⟩ <;> rw [hsquare] <;> rfl

theorem requireSigma_wide (owner : OptionSet) : requireSigma owner (.float 1e200) = .ok () := by
  have hpositive : (Number.real 1e200).le (.whole 0) = false := by decide +kernel
  exact requireSigma_eq_ok_iff.mpr (.inr (congrArg Except.ok hpositive))

theorem deviation_wide (ω : Type) [Scalar ω] (g : Geometry) :
    (g.gaussian (.float 1e200)).deviation ω = .error (.overflow .square) := by
  have h : (g.gaussian (.float 1e200)).deviation ω = (Number.real 1e200).checkSquare.map fun _ =>
    (Number.real 1e200).toScalar := deviation_eq g (requireSigma_wide .gaussian)
  rw [checkSquare_wide] at h
  exact h

/-- The deviation of a window is out of range or there is one. -/
theorem deviation_gaussian {ω : Type} [Scalar ω] {owner : OptionSet} {sigma : Value} (g : Geometry)
    (h : requireSigma owner sigma = .ok ()) : (∃ d : ω, (g.gaussian sigma).deviation ω = .ok d) ∨
      ∃ f, (g.gaussian sigma).deviation ω = .error (.overflow f) := by
  rw [deviation_eq g h]
  cases sigma.number? with
  | some n =>
    dsimp only
    rcases n.checkSquare_ok_or with hsquare | ⟨f, hsquare⟩ <;> rw [hsquare]
    · exact .inl ⟨_, rfl⟩
    · exact .inr ⟨f, rfl⟩
  | none =>
    dsimp only
    split_ifs
    · exact .inl ⟨_, rfl⟩
    · exact .inr ⟨_, rfl⟩

end Deviation

/-! ### Building a comparator -/

section Build

variable {globals : GlobalOptions} {op : Operator} {g : Geometry}

/-- An operator with known options is built, whether it introduces itself or not. -/
theorem Operator.returns_create {component : Component} (h : Operator.check component globals = .ok op) :
    (Operator.create component globals).Returns op := by
  unfold Operator.create
  refine Action.returns_bind (Action.returns_liftM h) ?_
  cases globals.verbose.isTrue with
  | false => exact Action.returns_pure op
  | true =>
    refine Action.returns_bind (b := ("operator", .value (.text op.component.title)) :: op.options.fields) ?_
      (Action.returns_pure op)
    exact Action.returns_bind (Action.returns_printLine _)
      (Action.returns_bind (Action.returns_forIn (fun line => Action.returns_printLine line) _) (Action.returns_pure _))

theorem less_zero (n : ℕ) : (Value.int n).less (.int 0) = .ok false := by
  simp [Value.less, Value.number?]

theorem refused_eq_ok_iff {a : Except Fault Bool} {f : Fault} {rest : Unit → Except Fault Unit} :
    (a >>= fun b => if b = true then (throw f : Except Fault Unit) >>= rest else rest ()) = .ok () ↔
      a = .ok false ∧ rest () = .ok () := by
  rcases a with e | _ | _ <;> simp [bind, Except.bind, throw, throwThe, MonadExceptOf.throw]

theorem Smoother.check_eq_ok_iff {o : GaussianOptions} : Smoother.check o = .ok () ↔
    o.strideH.atMost (.int 0) = .ok false ∧ o.strideW.atMost (.int 0) = .ok false ∧
      o.padH.less (.int 0) = .ok false ∧ o.padW.less (.int 0) = .ok false := by
  have hlast {a : Except Fault Bool} {f : Fault} :
      (a >>= fun b => if b = true then (throw f : Except Fault Unit) else pure ()) = .ok () ↔ a = .ok false := by
    rcases a with e | _ | _ <;> simp [bind, Except.bind, pure, Except.pure, throw, throwThe, MonadExceptOf.throw]
  unfold Smoother.check
  refine refused_eq_ok_iff.trans (and_congr_right fun _ => ?_)
  refine refused_eq_ok_iff.trans (and_congr_right fun _ => ?_)
  exact refused_eq_ok_iff.trans (and_congr_right fun _ => hlast)

theorem Smoother.check_gaussian (g : Geometry) (sigma : Value) : Smoother.check (g.gaussian sigma) = .ok () :=
  check_eq_ok_iff.mpr ⟨atMost_zero g.stride_pos.1, atMost_zero g.stride_pos.2, less_zero _, less_zero _⟩

theorem Smoother.returns_create {ω : Type} [Scalar ω] {o : GaussianOptions} {table : Tensor ω}
    (hop : Operator.check .smoother globals = .ok op) (hcheck : Smoother.check o = .ok ())
    (htable : o.table ω = .ok table) : (Smoother.create o globals).Returns ⟨op, o, table⟩ :=
  Action.returns_bind (Operator.returns_create hop) (Action.returns_bind (Action.returns_liftM hcheck)
    (Action.returns_bind (Action.returns_liftM htable) (Action.returns_pure _)))

def Geometry.smoother {ω : Type} [Scalar ω] (g : Geometry) (op : Operator) (sigma : Value) (deviation : ω) :
    Smoother ω :=
  ⟨op, g.gaussian sigma, gaussianTable g.kernel.1 g.kernel.2 (middle g.kernel.1, middle g.kernel.2) deviation true⟩

theorem Smoother.results_create {ω : Type} [Scalar ω] (hop : Operator.check .smoother globals = .ok op) (g : Geometry)
    (sigma : Value) : (Smoother.create (g.gaussian sigma) globals : Action Fault (Smoother ω)).Results
      (g.smoother op sigma <$> (g.gaussian sigma).deviation ω) := by
  have h : (Smoother.create (g.gaussian sigma) globals : Action Fault (Smoother ω)).Results
      ((g.gaussian sigma).table ω >>= fun t => .ok ⟨op, g.gaussian sigma, t⟩) :=
    Action.results_bind_of_returns (Operator.returns_create hop)
      (Action.results_bind_of_returns (Action.returns_liftM (check_gaussian g sigma))
        (Action.results_bind (Action.results_liftM _) fun _ => Action.returns_pure _))
  rw [table_gaussian] at h
  cases hd : (g.gaussian sigma).deviation ω <;> rw [hd] at h <;> exact h

variable {o : SimilarityOptions}

theorem SimilarityOptions.returns_resolve (h : o.check = .ok g) : o.resolve.Returns g :=
  Action.returns_bind (Action.returns_liftM h)
    (Action.returns_bind (Action.returns_warnIf _ _) (Action.returns_pure g))

theorem SimilarityOptions.returns_gaussian (h : o.check = .ok g) : o.gaussian.Returns (g.gaussian o.gaussianSigma) :=
  Action.returns_bind (returns_resolve h) (Action.returns_pure _)

theorem SimilarityOptions.check_of_resolve (h : o.resolve.Gives g) : o.check = .ok g := by
  obtain ⟨g', hcheck, h⟩ := Action.gives_bind h
  obtain ⟨_, -, h⟩ := Action.gives_bind h
  obtain rfl := Action.gives_pure h
  exact Action.gives_liftM hcheck

/-- Options that are accepted have stabilizers that are not negative and a deviation that is positive, or none. -/
theorem SimilarityOptions.accepted_of_check (h : o.check = .ok g) : o.c1.less (.int 0) = .ok false ∧
    o.c2.less (.int 0) = .ok false ∧ requireSigma .similarity o.gaussianSigma = .ok () := by
  -- kernel size, stride, border and geometry, and then the two stabilizers
  obtain ⟨_, -, h⟩ := bind_eq_ok_iff.mp h
  obtain ⟨_, -, h⟩ := bind_eq_ok_iff.mp h
  obtain ⟨_, -, h⟩ := bind_eq_ok_iff.mp h
  obtain ⟨_, -, h⟩ := bind_eq_ok_iff.mp h
  obtain ⟨first, hfirst, h⟩ := bind_eq_ok_iff.mp h
  cases first with
  | true => cases h
  | false =>
    obtain ⟨second, hsecond, h⟩ := bind_eq_ok_iff.mp h
    cases second with
    | true => cases h
    | false =>
      obtain ⟨_, hsigma, -⟩ := bind_eq_ok_iff.mp h
      exact ⟨hfirst, hsecond, hsigma⟩

/-- A comparator is built from checked options if the deviation of its windows is in range. -/
theorem SimilarityLoss.results_build {ω : Type} [Scalar ω] (hg : o.check = .ok g)
    (hop : Operator.check .smoother globals = .ok op) :
    (SimilarityLoss.build o globals : Action Fault (SimilarityLoss ω)).Results
      ((fun d => ⟨o, globals, g, g.smoother op o.gaussianSigma d⟩) <$> (g.gaussian o.gaussianSigma).deviation ω) := by
  have h : (SimilarityLoss.build o globals : Action Fault (SimilarityLoss ω)).Results
      ((g.smoother op o.gaussianSigma <$> (g.gaussian o.gaussianSigma).deviation ω) >>=
        fun s => .ok ⟨o, globals, g, s⟩) :=
    Action.results_reporting (Action.results_bind_of_returns (SimilarityOptions.returns_resolve hg)
      (Action.results_bind_of_returns (SimilarityOptions.returns_gaussian hg)
        (Action.results_bind (Smoother.results_create hop g o.gaussianSigma) fun _ =>
          Action.returns_bind (Action.returns_record _) (Action.returns_pure _))))
  cases hd : (g.gaussian o.gaussianSigma).deviation ω <;> rw [hd] at h <;> exact h

end Build

/-! ### Comparing -/

theorem SimilarityLoss.results_settle {ω : Type} (l : SimilarityLoss ω) (a b : List ℕ) :
    (l.settle a b).Results (l.sizeFor a b) := by
  have h : (l.settle a b).Results (l.sizeFor a b >>= fun size => .ok size) :=
    Action.results_bind (Action.results_liftM _) fun _ =>
      Action.returns_bind (Action.returns_record _) (Action.returns_pure _)
  cases hsize : l.sizeFor a b <;> rw [hsize] at h <;> exact h

theorem SimilarityLoss.results_forward {α ω : Type} [Scalar α] [Stored α ω] [Directed α α] (l : SimilarityLoss ω)
    (a b : Tensor α) : (l.forward a b).Results (l.sizeFor a.shape b.shape >>= fun _ => l.pass a b) :=
  Action.results_bind (Action.results_reporting (l.results_settle _ _)) fun _ => Action.results_liftM _

section Compare

variable {l : SimilarityLoss ℝ} {c1 c2 : ℝ} {a b : Tensor ℝ} {N C H W : ℕ}

/-- Batches of one shape that the windows fit have a map of similarities. -/
theorem SimilarityLoss.sizeFor_of_fits {ω : Type} {l : SimilarityLoss ω}
    (hh : l.geometry.kernel.1 ≤ H + 2 * l.geometry.pad.1) (hw : l.geometry.kernel.2 ≤ W + 2 * l.geometry.pad.2) :
    ∃ size, l.sizeFor [N, C, H, W] [N, C, H, W] = .ok size := by
  unfold SimilarityLoss.sizeFor
  rw [if_neg (not_not.mpr rfl)]
  dsimp only
  rw [if_neg]
  · exact ⟨_, rfl⟩
  · unfold Geometry.outputSize
    rw [positions_eq hh, positions_eq hw]
    dsimp only
    have hpos (k : ℕ) : ¬((k + 1 : ℕ) : ℤ) ≤ 0 := not_le.mpr (Int.natCast_pos.mpr (Nat.succ_pos k))
    exact not_or.mpr ⟨hpos _, hpos _⟩

/-- Two batches of one shape that the windows fit are compared. -/
theorem SimilarityLoss.results_pass {sigma : Value} (hoptions : l.smoother.options = l.geometry.gaussian sigma)
    (ha : a.shape = [N, C, H, W]) (hb : b.shape = [N, C, H, W]) (hC : 0 < C) (hH : 0 < H) (hW : 0 < W)
    (hh : l.geometry.kernel.1 ≤ H + 2 * l.geometry.pad.1) (hw : l.geometry.kernel.2 ≤ W + 2 * l.geometry.pad.2) :
    l.smoother.accepts a.shape = .ok l.geometry ∧
      (l.forward a b).Results (l.pass a b : Except Fault (SimilarityPass ℝ ℝ)) := by
  have haccepts : l.smoother.accepts a.shape = .ok l.geometry := by
    rw [ha]
    refine Smoother.accepts_gaussian hoptions ?_
    obtain ⟨k1, k2⟩ := l.geometry.kernel_pos
    obtain ⟨s1, s2⟩ := l.geometry.stride_pos
    exact ⟨hC, s1, s2, k1, k2, by omega, hC, by simp, hC, Or.inr ⟨hH, hW⟩, hh, hw⟩
  obtain ⟨size, hsize⟩ := SimilarityLoss.sizeFor_of_fits (N := N) (C := C) hh hw
  have hforward : (l.forward a b).Results (l.sizeFor a.shape b.shape >>= fun _ => l.pass a b) := l.results_forward a b
  rw [ha, hb, hsize] at hforward
  exact ⟨haccepts, hforward⟩

/-- The comparison of two batches of one shape that the windows fit. -/
theorem SimilarityLoss.returns_forward {sigma : Value} (hoptions : l.smoother.options = l.geometry.gaussian sigma)
    (h1 : l.options.c1.measureIn ℝ = .ok c1) (h2 : l.options.c2.measureIn ℝ = .ok c2)
    (ha : a.shape = [N, C, H, W]) (hb : b.shape = [N, C, H, W]) (hC : 0 < C) (hH : 0 < H) (hW : 0 < W)
    (hh : l.geometry.kernel.1 ≤ H + 2 * l.geometry.pad.1) (hw : l.geometry.kernel.2 ≤ W + 2 * l.geometry.pad.2) :
    l.smoother.accepts a.shape = .ok l.geometry ∧
      (l.forward a b).Returns (comparison l.smoother l.geometry c1 c2 a b) := by
  obtain ⟨haccepts, hforward⟩ := results_pass hoptions ha hb hC hH hW hh hw
  have hpass : l.pass a b = .ok (comparison l.smoother l.geometry c1 c2 a b) := by
    unfold SimilarityLoss.pass
    rw [h1, h2, ok_bind, ok_bind, similarityPass_eq haccepts (hb.trans ha.symm)]
  rw [hpass] at hforward
  exact ⟨haccepts, hforward⟩

end Compare

end SteeredConv
