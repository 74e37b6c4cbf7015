/-
# What the options of an oriented convolution resolve to

The sizes of an oriented convolution are given in three families, each once for both axes
or once per axis, and the counts and the deviation have to be positive. Of options whose
sizes are whole numbers, `OrientedConvOptions.Documented` says which sizes they stand for,
in the words of the documentation and without the order of the checks. Such options resolve
to a geometry exactly if they stand for its sizes; options that stand for no sizes are
refused in words.

The windows of the orientation estimate are made of the geometry and the deviation. There is
one condition more: the square of the deviation has to be in range, which no check asks for.

Key definitions: `Value.Integral`, `SizesGiven`, `OrientedConvOptions.Documented`,
`OrientedConvOptions.smoother`.
Key theorems: `resolvePair_eq_ok_iff`, `OrientedConvOptions.check_eq_ok_iff`,
`OrientedConvOptions.results_smoother`, `OrientedConvOptions.resolves_iff_documented`.
-/
import SteeredConv.Proofs.SetupRefusals

namespace SteeredConv

/-! ### Whole and real numbers among the values -/

namespace Value

/-- The whole number that a value is. -/
def integer? (v : Value) : Option ℤ :=
  match v.number? with
  | some (.whole n) => some n
  | _ => none

/-- Nothing, or a whole number. -/
def Integral (v : Value) : Prop := v.isNull = true ∨ ∃ n, v.number? = some (.whole n)

/-- Nothing, or a number that is above, below or equal to zero. -/
def Real (v : Value) : Prop := v.isNull = true ∨ ∃ n, v.number? = some n ∧ n.compare? (.whole 0) ≠ none

variable {v : Value} {n : ℤ}

theorem integer?_of_number (h : v.number? = some (.whole n)) : v.integer? = some n := by
  unfold integer?
  rw [h]

theorem number_of_integer? (h : v.integer? = some n) : v.number? = some (.whole n) := by
  unfold integer? at h
  split at h
  · rw [← Option.some.inj h]
    assumption
  · cases h

theorem whole_of_number (h : v.number? = some (.whole n)) : v.whole = .ok n := by
  cases v with
  | bool b =>
    obtain rfl : (if b then 1 else 0) = n := by simpa [number?] using h
    rfl
  | int m =>
    obtain rfl : m = n := by simpa [number?] using h
    rfl
  | _ => cases h

theorem isNull_of_number {m : Number} (h : v.number? = some m) : v.isNull = false := by
  cases v <;> first | rfl | cases h

theorem eq_null_of_isNull (h : v.isNull = true) : v = .null := by
  cases v <;> first | rfl | cases h

theorem number_of_isNull (h : v.isNull = true) : v.number? = none := by
  rw [eq_null_of_isNull h]
  rfl

theorem Integral.cases (h : v.Integral) : (v.isNull = true ∧ v.integer? = none) ∨
    ∃ n, v.isNull = false ∧ v.whole = .ok n ∧ v.integer? = some n := by
  rcases h with hnull | ⟨n, hn⟩
  · refine .inl ⟨hnull, ?_⟩
    unfold integer?
    rw [number_of_isNull hnull]
  · exact .inr ⟨n, isNull_of_number hn, whole_of_number hn, integer?_of_number hn⟩

theorem Integral.numeric (h : v.Integral) : v.Numeric := by
  rcases h with hnull | ⟨n, hn⟩
  · exact .inl hnull
  · exact .inr ⟨_, hn⟩

theorem Integral.sized (h : v.Integral) : v.Sized := by
  rcases h with hnull | ⟨n, hn⟩
  · exact .inl hnull
  · exact .inr ⟨n, whole_of_number hn⟩

theorem Real.numeric (h : v.Real) : v.Numeric := by
  rcases h with hnull | ⟨n, hn, -⟩
  · exact .inl hnull
  · exact .inr ⟨n, hn⟩

end Value

/-- A number that has a place beside zero is not at most zero exactly if zero is less. -/
theorem Number.le_zero_eq_false_iff {n : Number} (h : n.compare? (.whole 0) ≠ none) :
    n.le (.whole 0) = false ↔ (Number.whole 0).lt n = true := by
  cases n with
  | whole n =>
    rw [Number.le_whole, Number.lt_whole, decide_eq_false_iff_not, decide_eq_true_iff, not_le]
  | real x =>
    have hswap : (Number.real x).compare? (.whole 0) = ((Number.whole 0).compare? (.real x)).map Ordering.swap := rfl
    unfold Number.le Number.lt
    rw [hswap] at h ⊢
    cases hplace : (Number.whole 0).compare? (.real x) with
    | none =>
      rw [hplace] at h
      exact absurd rfl h
    | some order => cases order <;> decide

/-! ### One family of sizes -/

/-- The sizes that are given once for both axes, once per axis, or not at all if there is a fallback. -/
inductive SizesGiven : Option ℤ → Option ℤ → Option ℤ → Option ℤ → ℤ × ℤ → Prop where
  | once {fallback : Option ℤ} (n : ℤ) : SizesGiven fallback (some n) none none (n, n)
  | perAxis {fallback : Option ℤ} (high wide : ℤ) : SizesGiven fallback none (some high) (some wide) (high, wide)
  | omitted (n : ℤ) : SizesGiven (some n) none none none (n, n)

section Checks

variable {owner : OptionSet} {name : String} {v single high wide sigma : Value}

/-- Sizes are read exactly if they are given in one of these forms. -/
theorem resolvePair_eq_ok_iff {fallback : Option ℤ} {p : ℤ × ℤ} (hsingle : single.Integral) (hhigh : high.Integral)
    (hwide : wide.Integral) : resolvePair owner name single high wide fallback = .ok p ↔
      SizesGiven fallback single.integer? high.integer? wide.integer? p := by
  unfold resolvePair
  rcases hhigh.cases with ⟨hnull, hnone⟩ | ⟨h, hnull, hwhole, hsome⟩
  · rcases hwide.cases with ⟨hnull', hnone'⟩ | ⟨w, hnull', -, hsome'⟩
    · rcases hsingle.cases with ⟨hnull'', hnone''⟩ | ⟨n, hnull'', hwhole'', hsome''⟩
      · -- nothing is given
        rw [hnull, hnull', hnull'', hnone, hnone', hnone'']
        cases fallback with
        | none => exact iff_of_false nofun nofun
        | some n => exact ⟨fun | rfl => .omitted n, fun | .omitted n => rfl⟩
      · rw [hnull, hnull', hnull'', hnone, hnone', hsome'', hwhole'']
        exact ⟨fun | rfl => .once n, fun | .once n => rfl⟩
    · -- one axis only
      rw [hnull, hnull', hnone, hsome']
      generalize single.integer? = s
      cases single.isNull <;> exact iff_of_false nofun nofun
  · rcases hsingle.cases with ⟨hnull'', hnone''⟩ | ⟨n, hnull'', -, hsome''⟩
    · rcases hwide.cases with ⟨hnull', hnone'⟩ | ⟨w, hnull', hwhole', hsome'⟩
      · rw [hnull, hnull', hnull'', hsome, hnone', hnone'']
        exact iff_of_false nofun nofun
      · rw [hnull, hnull', hnull'', hsome, hsome', hnone'', hwhole, hwhole']
        exact ⟨fun | rfl => .perAxis h w, fun | .perAxis h w => rfl⟩
    · -- both forms
      rw [hnull, hnull'', hsome, hsome'']
      generalize wide.integer? = w
      exact iff_of_false nofun nofun

/-- A count is accepted exactly if it is given and positive. -/
theorem requirePositive_eq_ok_iff (hv : v.Integral) :
    requirePositive owner name v = .ok () ↔ ∃ n, v.integer? = some n ∧ 0 < n := by
  unfold requirePositive
  rcases hv with hnull | ⟨n, hn⟩
  · rw [hnull, Value.integer?, Value.number_of_isNull hnull]
    exact iff_of_false nofun nofun
  · rw [Value.isNull_of_number hn, Value.integer?_of_number hn, atMost_of_number hn, Number.le_whole]
    by_cases hpos : 0 < n
    · rw [decide_eq_false (not_le.mpr hpos)]
      exact iff_of_true rfl ⟨n, rfl, hpos⟩
    · rw [decide_eq_true (not_lt.mp hpos)]
      refine iff_of_false nofun ?_
      rintro ⟨m, hm, hpos'⟩
      exact hpos (Option.some.inj hm ▸ hpos')

theorem requireSigma_eq_ok_iff_pos (hsigma : sigma.Real) : requireSigma owner sigma = .ok () ↔
    sigma.isNull = true ∨ ∃ n, sigma.number? = some n ∧ (Number.whole 0).lt n = true := by
  rw [requireSigma_eq_ok_iff]
  refine or_congr_right ?_
  rcases hsigma with hnull | ⟨n, hn, hplace⟩
  · rw [Value.eq_null_of_isNull hnull]
    exact iff_of_false nofun nofun
  · rw [atMost_of_number hn, hn]
    simp only [Except.ok.injEq, Option.some.injEq, exists_eq_left', Number.le_zero_eq_false_iff hplace]

end Checks

/-! ### The options -/

namespace OrientedConvOptions

/-- The sizes are whole numbers or missing, and the deviation is a real number or missing. -/
structure Integral (o : OrientedConvOptions) : Prop where
  outputs : o.numOutput.Integral
  group : o.group.Integral
  kernel : o.kernelSize.Integral ∧ o.kernelH.Integral ∧ o.kernelW.Integral
  stride : o.stride.Integral ∧ o.strideH.Integral ∧ o.strideW.Integral
  pad : o.pad.Integral ∧ o.padH.Integral ∧ o.padW.Integral
  sigma : o.gaussianSigma.Real

/-- What the documentation asks for: the options stand for a kernel, a stride and a border. -/
structure Documented (o : OrientedConvOptions) (kernel stride pad : ℤ × ℤ) : Prop where
  counts : ∃ outputs group, o.numOutput.integer? = some outputs ∧ o.group.integer? = some group ∧
    0 < outputs ∧ 0 < group ∧ group ∣ outputs
  kernel_given : SizesGiven none o.kernelSize.integer? o.kernelH.integer? o.kernelW.integer? kernel
  stride_given : SizesGiven (some 1) o.stride.integer? o.strideH.integer? o.strideW.integer? stride
  pad_given : SizesGiven (some 0) o.pad.integer? o.padH.integer? o.padW.integer? pad
  square : kernel.1 = kernel.2
  kernel_pos : 0 < kernel.1
  stride_pos : 0 < stride.1 ∧ 0 < stride.2
  pad_nonneg : 0 ≤ pad.1 ∧ 0 ≤ pad.2
  sigma : o.gaussianSigma.isNull = true ∨ ∃ n, o.gaussianSigma.number? = some n ∧ (Number.whole 0).lt n = true

variable {o : OrientedConvOptions} {g : Geometry}

/-- The checks of the counts accept options exactly if the groups divide the outputs. -/
theorem counts_eq_ok_iff (h : o.Integral) : (requirePositive .orientedConv "num_output" o.numOutput = .ok () ∧
    requirePositive .orientedConv "group" o.group = .ok () ∧
      requireMultiple .orientedConv o.numOutput o.group = .ok ()) ↔
    ∃ outputs group, o.numOutput.integer? = some outputs ∧ o.group.integer? = some group ∧
      0 < outputs ∧ 0 < group ∧ group ∣ outputs := by
  rw [requirePositive_eq_ok_iff h.outputs, requirePositive_eq_ok_iff h.group]
  have hmultiple {n m : ℤ} (hn : o.numOutput.integer? = some n) (hm : o.group.integer? = some m) :
      requireMultiple .orientedConv o.numOutput o.group = .ok () ↔ m ∣ n := by
    rw [requireMultiple_whole (Value.number_of_integer? hn) (Value.number_of_integer? hm), ite_eq_left_iff,
      Int.dvd_iff_emod_eq_zero]
    exact ⟨fun hok => not_not.mp fun hnot => (nomatch hok hnot), fun hzero hnot => absurd hzero hnot⟩
  constructor
  · rintro ⟨⟨n, hn, hpos⟩, ⟨m, hm, hpos'⟩, hok⟩
    exact ⟨n, m, hn, hm, hpos, hpos', (hmultiple hn hm).mp hok⟩
  · rintro ⟨n, m, hn, hm, hpos, hpos', hdvd⟩
    exact ⟨⟨n, hn, hpos⟩, ⟨m, hm, hpos'⟩, (hmultiple hn hm).mpr hdvd⟩

/-- The checks accept options exactly if these stand for the sizes of the geometry. -/
theorem check_eq_ok_iff (h : o.Integral) : o.check = .ok g ↔
    o.Documented (Geometry.ints g.kernel) (Geometry.ints g.stride) (Geometry.ints g.pad) := by
  have hkernel := @resolvePair_eq_ok_iff .orientedConv "kernel" _ _ _ none (Geometry.ints g.kernel)
    h.kernel.1 h.kernel.2.1 h.kernel.2.2
  have hstride := @resolvePair_eq_ok_iff .orientedConv "stride" _ _ _ (some 1) (Geometry.ints g.stride)
    h.stride.1 h.stride.2.1 h.stride.2.2
  have hpad := @resolvePair_eq_ok_iff .orientedConv "pad" _ _ _ (some 0) (Geometry.ints g.pad)
    h.pad.1 h.pad.2.1 h.pad.2.2
  have hsigma := @requireSigma_eq_ok_iff_pos .orientedConv _ h.sigma
  constructor
  · intro hcheck
    obtain ⟨⟨⟩, houtputs, hcheck⟩ := bind_eq_ok_iff.mp hcheck
    obtain ⟨⟨⟩, hgroup, hcheck⟩ := bind_eq_ok_iff.mp hcheck
    obtain ⟨⟨⟩, hmultiple, hcheck⟩ := bind_eq_ok_iff.mp hcheck
    obtain ⟨kernel, hk, hcheck⟩ := bind_eq_ok_iff.mp hcheck
    obtain ⟨stride, hs, hcheck⟩ := bind_eq_ok_iff.mp hcheck
    obtain ⟨pad, hp, hcheck⟩ := bind_eq_ok_iff.mp hcheck
    obtain ⟨g', hg, hcheck⟩ := bind_eq_ok_iff.mp hcheck
    dsimp only at hcheck
    split at hcheck
    · cases hcheck
    rename_i hsquare
    obtain ⟨⟨⟩, hdeviation, hcheck⟩ := bind_eq_ok_iff.mp hcheck
    obtain rfl : g' = g := Except.ok.inj hcheck
    obtain ⟨rfl, rfl, rfl⟩ := Smoother.ofPairs_eq_ok_iff.mp hg
    exact ⟨(counts_eq_ok_iff h).mp ⟨houtputs, hgroup, hmultiple⟩, hkernel.mp hk, hstride.mp hs, hpad.mp hp,
      not_not.mp hsquare, Int.natCast_pos.mpr g'.kernel_pos.1,
      ⟨Int.natCast_pos.mpr g'.stride_pos.1, Int.natCast_pos.mpr g'.stride_pos.2⟩,
      ⟨Int.natCast_nonneg _, Int.natCast_nonneg _⟩, hsigma.mp hdeviation⟩
  · intro hd
    obtain ⟨houtputs, hgroup, hmultiple⟩ := (counts_eq_ok_iff h).mpr hd.counts
    unfold check
    rw [houtputs, ok_bind, hgroup, ok_bind, hmultiple, ok_bind, hkernel.mpr hd.kernel_given, ok_bind,
      hstride.mpr hd.stride_given, ok_bind, hpad.mpr hd.pad_given, ok_bind,
      Smoother.ofPairs_eq_ok_iff.mpr ⟨rfl, rfl, rfl⟩,
      ok_bind]
    dsimp only
    rw [if_neg (not_not.mpr hd.square), hsigma.mpr hd.sigma]
    rfl

theorem Integral.reported_check (h : o.Integral) : Reported o.check := by
  have hsized {single high wide : Value} (hsizes : single.Integral ∧ high.Integral ∧ wide.Integral) :
      single.Sized ∧ high.Sized ∧ wide.Sized :=
    ⟨hsizes.1.sized, hsizes.2.1.sized, hsizes.2.2.sized⟩
  refine reported_check_of_counts h.outputs.numeric h.group.numeric (fun houtputs hgroup => ?_) (hsized h.kernel)
    (hsized h.stride) (hsized h.pad) h.sigma.numeric
  obtain ⟨n, hn, -⟩ := (requirePositive_eq_ok_iff h.outputs).mp houtputs
  obtain ⟨m, hm, -⟩ := (requirePositive_eq_ok_iff h.group).mp hgroup
  exact ⟨n, m, Value.number_of_integer? hn, Value.number_of_integer? hm⟩

theorem Documented.exists_geometry {kernel stride pad : ℤ × ℤ} (h : o.Documented kernel stride pad) :
    ∃ g : Geometry, Geometry.ints g.kernel = kernel ∧ Geometry.ints g.stride = stride ∧ Geometry.ints g.pad = pad := by
  have hsquare := h.square
  have hkernel := h.kernel_pos
  have hstride := h.stride_pos
  have hpad := h.pad_nonneg
  refine ⟨⟨(kernel.1.toNat, kernel.2.toNat), (stride.1.toNat, stride.2.toNat), (pad.1.toNat, pad.2.toNat),
    by dsimp only; omega, by dsimp only; omega⟩, ?_⟩
  simp only [Geometry.ints, Prod.ext_iff]
  omega

/-! ### The windows of the orientation estimate -/

def smoother (ω : Type) [Scalar ω] (o : OrientedConvOptions) (globals : GlobalOptions) : Action Fault (Smoother ω) := do
  Smoother.create (← o.gaussian) globals

variable {ω : Type} [Scalar ω] {globals : GlobalOptions} {op : Operator}

/-- The smoother of accepted options is a matter of their deviation. -/
theorem results_smoother (hg : o.check = .ok g) (hop : Operator.check .smoother globals = .ok op) :
    (o.smoother ω globals).Results
      (g.smoother op o.gaussianSigma <$> (g.gaussian o.gaussianSigma).deviation ω) := by
  have hresolve : o.resolve.Returns g := by
    have h := o.results_resolve
    rwa [hg] at h
  exact Action.results_bind_of_returns (Action.returns_bind hresolve (Action.returns_pure _))
    (Smoother.results_create hop g o.gaussianSigma)

/-- There are windows exactly if the deviation is in range, and otherwise an overflow. -/
theorem smoother_cases (hg : o.check = .ok g) (hop : Operator.check .smoother globals = .ok op) :
    ((∃ s, (o.smoother ω globals).Returns s) ↔ g.HasDeviation o.gaussianSigma) ∧
      (¬g.HasDeviation o.gaussianSigma → ∃ f, (o.smoother ω globals).Results (.error (.overflow f))) := by
  have hresults := results_smoother (ω := ω) hg hop
  have hsigma := (accepted_of_check hg).2.2.2
  rw [← exists_deviation_iff (ω := ω) hsigma]
  rcases deviation_gaussian (ω := ω) g hsigma with ⟨d, hd⟩ | ⟨f, hd⟩
  · rw [hd] at hresults
    exact ⟨iff_of_true ⟨_, hresults⟩ ⟨d, hd⟩, fun hnot => absurd ⟨d, hd⟩ hnot⟩
  · rw [hd] at hresults
    refine ⟨iff_of_false ?_ ?_, fun _ => ⟨f, hresults⟩⟩
    · rintro ⟨s, hs⟩
      cases hresults.unique hs
    · rintro ⟨d, hd'⟩
      cases hd.symm.trans hd'

/-- Integral options resolve to a geometry exactly if they stand for its sizes, and are refused in words if they stand
for none; options that stand for the same sizes resolve to the same geometry. Options that resolve give windows
if their deviation is in range, and an overflow if not. -/
theorem resolves_iff_documented :
    (∀ o : OrientedConvOptions, o.Integral →
      (∀ g, o.resolve.Returns g ↔
        o.Documented (Geometry.ints g.kernel) (Geometry.ints g.stride) (Geometry.ints g.pad)) ∧
      ((∃ g, o.resolve.Returns g) ↔ ∃ kernel stride pad, o.Documented kernel stride pad) ∧
      ((¬∃ kernel stride pad, o.Documented kernel stride pad) →
        ∃ cause, o.resolve.Results (.error (.option cause)))) ∧
    (∀ o o' : OrientedConvOptions, o.Integral → o'.Integral → ∀ kernel stride pad, o.Documented kernel stride pad →
      o'.Documented kernel stride pad → ∃ g, o.resolve.Returns g ∧ o'.resolve.Returns g) ∧
    ∀ (o : OrientedConvOptions) (g : Geometry) (globals : GlobalOptions) (op : Operator), o.resolve.Returns g →
      Operator.check .smoother globals = .ok op →
      ((∃ s, (o.smoother ω globals).Returns s) ↔ g.HasDeviation o.gaussianSigma) ∧
        (¬g.HasDeviation o.gaussianSigma → ∃ f, (o.smoother ω globals).Results (.error (.overflow f))) := by
  have hcheck (o : OrientedConvOptions) (g : Geometry) : o.resolve.Returns g ↔ o.check = .ok g := by
    constructor
    · exact fun h => o.results_resolve.unique h
    · intro h
      have hresults := o.results_resolve
      rwa [h] at hresults
  have hiff (o : OrientedConvOptions) (h : o.Integral) (g : Geometry) : o.resolve.Returns g ↔
      o.Documented (Geometry.ints g.kernel) (Geometry.ints g.stride) (Geometry.ints g.pad) :=
    (hcheck o g).trans (check_eq_ok_iff h)
  have hreturns {o : OrientedConvOptions} (h : o.Integral) {kernel stride pad : ℤ × ℤ}
      (hd : o.Documented kernel stride pad) {g : Geometry} (hg : Geometry.ints g.kernel = kernel ∧
        Geometry.ints g.stride = stride ∧ Geometry.ints g.pad = pad) : o.resolve.Returns g := by
    obtain ⟨rfl, rfl, rfl⟩ := hg
    exact (hiff o h g).mpr hd
  refine ⟨fun o h => ⟨hiff o h, ?_, fun hnone => ?_⟩, fun o o' h h' kernel stride pad hd hd' => ?_,
    fun o g globals op hg hop => smoother_cases ((hcheck o g).mp hg) hop⟩
  · constructor
    · rintro ⟨g, hg⟩
      exact ⟨_, _, _, (hiff o h g).mp hg⟩
    · rintro ⟨kernel, stride, pad, hd⟩
      obtain ⟨g, hg⟩ := hd.exists_geometry
      exact ⟨g, hreturns h hd hg⟩
  · have hresults := o.results_resolve
    rcases h.reported_check with ⟨g, hg⟩ | ⟨cause, hcause⟩
    · exact absurd ⟨_, _, _, (check_eq_ok_iff h).mp hg⟩ hnone
    · rw [hcause] at hresults
      exact ⟨cause, hresults⟩
  · obtain ⟨g, hg⟩ := hd.exists_geometry
    exact ⟨g, hreturns h hd hg, hreturns h' hd' hg⟩

/-! ### A deviation out of range -/

/-- Options with one kernel of one entry and a deviation whose square is out of range. -/
def wideDeviation : OrientedConvOptions where
  numOutput := .int 1
  kernelSize := .int 1
  gaussianSigma := .float 1e200

/-- The same kernel given per axis, without a deviation. -/
def perAxisKernel : OrientedConvOptions where
  numOutput := .int 1
  kernelH := .int 1
  kernelW := .int 1

theorem integral_wideDeviation : wideDeviation.Integral := by
  have hnone : Value.null.Integral := .inl rfl
  have hone : (Value.int 1).Integral := .inr ⟨1, rfl⟩
  have hplace : (Number.real 1e200).compare? (.whole 0) ≠ none := by decide +kernel
  exact ⟨hone, hone, ⟨hone, hnone, hnone⟩, ⟨hnone, hnone, hnone⟩, ⟨hnone, hnone, hnone⟩, .inr ⟨_, rfl, hplace⟩⟩

theorem integral_perAxisKernel : perAxisKernel.Integral := by
  have hnone : Value.null.Integral := .inl rfl
  have hone : (Value.int 1).Integral := .inr ⟨1, rfl⟩
  exact ⟨hone, hone, ⟨hnone, hone, hone⟩, ⟨hnone, hnone, hnone⟩, ⟨hnone, hnone, hnone⟩, .inl rfl⟩

theorem documented_wideDeviation : wideDeviation.Documented (1, 1) (1, 1) (0, 0) where
  counts := ⟨1, 1, rfl, rfl, Int.one_pos, Int.one_pos, dvd_rfl⟩
  kernel_given := .once 1
  stride_given := .omitted 1
  pad_given := .omitted 0
  square := rfl
  kernel_pos := Int.one_pos
  stride_pos := ⟨Int.one_pos, Int.one_pos⟩
  pad_nonneg := ⟨le_rfl, le_rfl⟩
  sigma := .inr ⟨.real 1e200, rfl, by decide +kernel⟩

theorem documented_perAxisKernel : perAxisKernel.Documented (1, 1) (1, 1) (0, 0) where
  counts := ⟨1, 1, rfl, rfl, Int.one_pos, Int.one_pos, dvd_rfl⟩
  kernel_given := .perAxis 1 1
  stride_given := .omitted 1
  pad_given := .omitted 0
  square := rfl
  kernel_pos := Int.one_pos
  stride_pos := ⟨Int.one_pos, Int.one_pos⟩
  pad_nonneg := ⟨le_rfl, le_rfl⟩
  sigma := .inl rfl

/-- One kernel size and the same two sizes per axis give one geometry, and windows where no deviation is given. -/
theorem resolves_iff_documented_perAxis :
    (∃ g, wideDeviation.resolve.Returns g ∧ perAxisKernel.resolve.Returns g) ∧
      ∃ s, (perAxisKernel.smoother Float {}).Returns s := by
  obtain ⟨hresolves, hsame, hwindows⟩ := @resolves_iff_documented Float _
  refine ⟨hsame _ _ integral_wideDeviation integral_perAxisKernel _ _ _ documented_wideDeviation
    documented_perAxisKernel, ?_⟩
  have hresolve : perAxisKernel.resolve.Returns (squareWindows 1 0 (Nat.succ_pos _)) :=
    ((hresolves _ integral_perAxisKernel).1 _).mpr documented_perAxisKernel
  have hdeviation : (squareWindows 1 0 (Nat.succ_pos _)).HasDeviation perAxisKernel.gaussianSigma := by
    show 1 + 1 < 12 * Nat.pow (Nat.pow 2 256) 2
    decide
  exact (hwindows _ _ _ _ hresolve check_standard).1.mpr hdeviation

/-- Options that resolve may give no windows. -/
theorem windows_overflow : wideDeviation.Integral ∧ (∃ g, wideDeviation.resolve.Returns g) ∧
    (wideDeviation.smoother Float {}).Results (.error (.overflow .square)) ∧
      ¬∀ o : OrientedConvOptions, o.Integral → (∃ g, o.resolve.Returns g) → ∃ s, (o.smoother Float {}).Returns s := by
  have hcheck : wideDeviation.check = .ok (squareWindows 1 0 (Nat.succ_pos _)) :=
    (check_eq_ok_iff integral_wideDeviation).mpr documented_wideDeviation
  have hresolve : ∃ g, wideDeviation.resolve.Returns g := by
    have hresults := wideDeviation.results_resolve
    rw [hcheck] at hresults
    exact ⟨_, hresults⟩
  have hgiven : wideDeviation.gaussianSigma = .float 1e200 := rfl
  have hoverflow := results_smoother (ω := Float) hcheck check_standard
  rw [hgiven, deviation_wide] at hoverflow
  refine ⟨integral_wideDeviation, hresolve, hoverflow, fun h => ?_⟩
  obtain ⟨s, hs⟩ := h _ integral_wideDeviation hresolve
  cases hoverflow.unique hs

end OrientedConvOptions

end SteeredConv
