/-
# Setups that are refused in words

Options that no layer can be built from are meant to be refused as bad options. Their
values come from a document and may be of any kind; where a value of the wrong kind is
used, the setup fails in some other way, as in `setup_unreported`.

Options of the right kinds are those of which every value that is used can be used: sizes
convert to whole numbers, what is compared are numbers, the numbers of outputs and groups
are whole, and a filler has the numbers that its kind asks for, within range. From such
options a layer is built or they are refused in words, and no layer is built from others.

Arrays of any size can be made here.

Key definitions: `Action.Concludes`, `Value.Numeric`, `Value.Sized`, `FillerOptions.Usable`,
`OrientedConvOptions.Typed`, `SimilarityOptions.Typed`, `LayerOptions.Typed`.
Key theorems: `reported_check`, `reported_filledBy`, `ConvLayer.concludes_build`,
`ConvLayer.typed_of_build`, `LayerOptions.built_or_refused`.
-/
import SteeredConv.Proofs.Descriptions
import SteeredConv.Proofs.LayerSessions

namespace SteeredConv

open Tensor

/-! ### Actions that conclude -/

section Concludes

variable {β γ : Type} {a : Action Fault β} {f : β → Action Fault γ}

/-- Returning something or refusing options, for every journal alike. -/
def Action.Concludes (a : Action Fault β) : Prop :=
  (∃ b, a.Returns b) ∨ ∃ cause, a.Results (.error (.option cause))

namespace Action

theorem Returns.concludes {b : β} (h : a.Returns b) : a.Concludes := .inl ⟨b, h⟩

theorem Results.concludes {r : Except Fault β} (h : a.Results r) (hr : SteeredConv.Reported r) : a.Concludes := by
  rcases hr with ⟨b, rfl⟩ | ⟨cause, rfl⟩
  · exact .inl ⟨b, h⟩
  · exact .inr ⟨cause, h⟩

theorem concludes_liftM {r : Except Fault β} (hr : SteeredConv.Reported r) : (liftM r : Action Fault β).Concludes :=
  (results_liftM r).concludes hr

theorem Concludes.bind (ha : a.Concludes) (hf : ∀ b, a.Returns b → (f b).Concludes) : (a >>= f).Concludes := by
  rcases ha with ⟨b, hb⟩ | ⟨cause, ha⟩
  · rcases hf b hb with ⟨c, hc⟩ | ⟨cause, hc⟩
    · exact .inl ⟨c, returns_bind hb hc⟩
    · exact .inr ⟨cause, results_bind_of_returns hb hc⟩
  · exact .inr ⟨cause, results_bind_of_error ha⟩

theorem Concludes.map (ha : a.Concludes) (f : β → γ) : (f <$> a).Concludes := by
  rw [map_eq_pure_bind]
  exact ha.bind fun b _ => (returns_pure (f b)).concludes

theorem Concludes.reporting {describe : Fault → String} {label : String} (ha : a.Concludes) :
    (Action.reporting describe label a).Concludes := by
  rcases ha with ⟨b, hb⟩ | ⟨cause, ha⟩
  · exact .inl ⟨b, returns_reporting hb⟩
  · exact .inr ⟨cause, results_reporting ha⟩

end Action

end Concludes

/-! ### Single values -/

namespace Value

/-- Nothing, or a number. -/
def Numeric (v : Value) : Prop := v.isNull = true ∨ ∃ n, v.number? = some n

/-- Nothing, or what converts to a whole number. -/
def Sized (v : Value) : Prop := v.isNull = true ∨ ∃ n, v.whole = .ok n

end Value

section Checks

variable {owner : OptionSet} {name : String} {v single high wide sigma : Value}

theorem less_of_number {n : Number} (h : v.number? = some n) : v.less (.int 0) = .ok (n.lt (.whole 0)) := by
  unfold Value.less
  rw [h]
  rfl

theorem reported_requirePositive (h : v.Numeric) : Reported (requirePositive owner name v) := by
  unfold requirePositive
  cases hnull : v.isNull with
  | true => exact reported_option _
  | false =>
    obtain ⟨n, hn⟩ := h.resolve_left (by rw [hnull]; exact Bool.false_ne_true)
    rw [atMost_of_number hn]
    cases n.le (.whole 0)
    · exact reported_ok _
    · exact reported_option _

theorem Value.Sized.exists_whole (h : v.Sized) (hv : v.isNull = false) : ∃ n, v.whole = .ok n :=
  h.resolve_left (by rw [hv]; exact Bool.false_ne_true)

/-- Sizes that convert to whole numbers are accepted or refused. -/
theorem reported_resolvePair {fallback : Option ℤ} (hsingle : single.Sized) (hhigh : high.Sized) (hwide : wide.Sized) :
    Reported (resolvePair owner name single high wide fallback) := by
  unfold resolvePair
  split
  · split
    · exact reported_option _
    · split
      · exact reported_option _
      · rename_i hgiven
        simp only [Bool.or_eq_true, not_or, Bool.not_eq_true] at hgiven
        obtain ⟨h, hh⟩ := hhigh.exists_whole hgiven.1
        obtain ⟨w, hw⟩ := hwide.exists_whole hgiven.2
        rw [hh, hw]
        exact reported_ok _
  · split
    · rename_i hgiven
      obtain ⟨n, hn⟩ := hsingle.exists_whole (by simpa using hgiven)
      rw [hn]
      exact reported_ok _
    · split
      · exact reported_ok _
      · exact reported_option _

/-- Sizes that are accepted convert to whole numbers. -/
theorem sized_of_resolvePair {fallback : Option ℤ} {p : ℤ × ℤ}
    (h : resolvePair owner name single high wide fallback = .ok p) : single.Sized ∧ high.Sized ∧ wide.Sized := by
  unfold resolvePair at h
  split at h
  · split at h
    · cases h
    · rename_i hsingle
      split at h
      · cases h
      · obtain ⟨n, hn, h⟩ := bind_eq_ok_iff.mp h
        obtain ⟨m, hm, -⟩ := bind_eq_ok_iff.mp h
        exact ⟨.inl (by simpa using hsingle), .inr ⟨n, hn⟩, .inr ⟨m, hm⟩⟩
  · rename_i hboth
    simp only [Bool.or_eq_true, Bool.not_eq_true', not_or, Bool.not_eq_false] at hboth
    refine ⟨?_, .inl hboth.1, .inl hboth.2⟩
    split at h
    · obtain ⟨n, hn, -⟩ := bind_eq_ok_iff.mp h
      exact .inr ⟨n, hn⟩
    · rename_i hsingle
      exact .inl (by simpa using hsingle)

theorem reported_ofPairs (kernel stride pad : ℤ × ℤ) : Reported (Geometry.ofPairs owner kernel stride pad) := by
  unfold Geometry.ofPairs
  split
  · split
    · split
      · exact reported_ok _
      · exact reported_option _
    · exact reported_option _
  · exact reported_option _

theorem reported_requireSigma (h : sigma.Numeric) : Reported (requireSigma owner sigma) := by
  unfold requireSigma
  cases hnull : sigma.isNull with
  | true => exact reported_ok _
  | false =>
    obtain ⟨n, hn⟩ := h.resolve_left (by rw [hnull]; exact Bool.false_ne_true)
    rw [atMost_of_number hn]
    cases n.le (.whole 0)
    · exact reported_ok _
    · exact reported_option _

theorem numeric_of_requireSigma (h : requireSigma owner sigma = .ok ()) : sigma.Numeric := by
  rcases requireSigma_eq_ok_iff.mp h with hnull | hmost
  · exact .inl hnull
  · exact .inr (number_of_atMost hmost)

end Checks

/-! ### The deviation of the windows -/

/-- The square of a given deviation is in range, or that of the one that follows from the footprint. -/
def Geometry.HasDeviation (g : Geometry) (sigma : Value) : Prop :=
  match sigma.number? with
  | some n => n.checkSquare = .ok ()
  | none => g.kernel.1 + g.kernel.2 < 12 * Nat.pow (Nat.pow 2 256) 2

theorem exists_deviation_iff {ω : Type} [Scalar ω] {owner : OptionSet} {sigma : Value} {g : Geometry}
    (h : requireSigma owner sigma = .ok ()) :
    (∃ d : ω, (g.gaussian sigma).deviation ω = .ok d) ↔ g.HasDeviation sigma := by
  rw [deviation_eq g h]
  unfold Geometry.HasDeviation
  cases sigma.number? with
  | some n =>
    dsimp only
    rcases n.checkSquare_ok_or with hsquare | ⟨_, hsquare⟩ <;> rw [hsquare]
    · exact iff_of_true ⟨_, rfl⟩ rfl
    · exact iff_of_false nofun nofun
  | none =>
    dsimp only
    split_ifs with hsmall
    · exact iff_of_true ⟨_, rfl⟩ hsmall
    · exact iff_of_false nofun hsmall

/-! ### Fillers -/

section Fillers

variable {α ω : Type} [Scalar ω]

/-- Two values that stand for numbers with a property. -/
def Value.Paired (v w : Value) (q : ω → ω → Bool) : Prop :=
  ∃ x y : ω, fillerNumber v = .ok x ∧ fillerNumber w = .ok y ∧ q x y = true

section Pairs

variable {v w : Value} {q : ω → ω → Bool} {f : ω → ω → ℕ → α}

theorem reported_numbers (h : v.Paired w q) (f : ω → ω → ℕ → α) : Reported (do
      let x ← fillerNumber v
      let y ← fillerNumber w
      if q x y then .ok (f x y) else .error .incompatible) := by
  obtain ⟨x, y, hx, hy, hq⟩ := h
  rw [hx, ok_bind, hy, ok_bind, if_pos hq]
  exact reported_ok _

theorem paired_of_numbers {g : ℕ → α} (h : (do
      let x ← fillerNumber v
      let y ← fillerNumber w
      if q x y then .ok (f x y) else .error .incompatible) = Except.ok g) : v.Paired w q := by
  obtain ⟨x, hx, h⟩ := bind_eq_ok_iff.mp h
  obtain ⟨y, hy, h⟩ := bind_eq_ok_iff.mp h
  split at h
  · rename_i hq
    exact ⟨x, y, hx, hy, hq⟩
  · cases h

end Pairs

variable [Stored α ω] [Draws α ω]

variable (α) in
/-- A filler that is refused in words or has the numbers that its kind asks for, which can be written into the
parameter or drawn from. What follows a comparison is not looked at if the comparison already refuses the filler. -/
def FillerOptions.Usable (o : FillerOptions) : Prop :=
  match o.type with
  | .text name =>
    match FillerKind.ofName? (inSmallLetters name) with
    | some .constant => ∃ x : ω, o.value.measureIn ω = .ok x ∧ Stored.admits α x = true
    | some .uniform => ∃ empty, o.min.exceeds o.max = .ok empty ∧
        (empty = false → o.min.Paired o.max (Draws.spans α))
    | some .gaussian => ∃ low, o.std.atMost (.int 0) = .ok low ∧
        (low = false → o.mean.Paired o.std fun _ deviation => Draws.spreads α deviation)
    | _ => True
  | .bytes _ => True
  | _ => False

variable (α) in
def Setting.Usable (s : Setting) : Prop := ∃ o : FillerOptions, s = .filler o ∧ o.Usable α

variable {o : FillerOptions} {shape : List ℕ}

/-- A usable filler gives entries or is refused. -/
theorem reported_entries (h : o.Usable α) (hfan : HasFan shape) :
    Reported (o.entries shape : Except Fault (ℕ → α)) := by
  unfold FillerOptions.Usable at h
  unfold FillerOptions.entries
  cases htype : o.type with
  | text name =>
    rw [htype] at h
    dsimp only at h ⊢
    cases hkind : FillerKind.ofName? (inSmallLetters name) with
    | none => exact reported_option _
    | some kind =>
      rw [hkind] at h
      cases kind with
      | constant =>
        obtain ⟨x, hx, hadmits⟩ := h
        dsimp only
        rw [hx, ok_bind, hadmits]
        exact reported_ok _
      | uniform =>
        obtain ⟨empty, hempty, hnumbers⟩ := h
        dsimp only
        rw [hempty]
        cases empty with
        | true => exact reported_option _
        | false => exact reported_numbers (hnumbers rfl) fun low high => Draws.between low high shape
      | gaussian =>
        obtain ⟨low, hlow, hnumbers⟩ := h
        dsimp only
        rw [hlow]
        cases low with
        | true => exact reported_option _
        | false => exact reported_numbers (hnumbers rfl) fun mean deviation => Draws.around mean deviation shape
      | xavier =>
        obtain ⟨f, hf⟩ := exists_drawBetween_fanScale (α := α) hfan
        exact .inl ⟨f, hf⟩
      | msra =>
        obtain ⟨f, hf⟩ := exists_drawAround_fanScale (α := α) hfan
        exact .inl ⟨f, hf⟩
  | bytes data => exact reported_option _
  | _ =>
    rw [htype] at h
    cases h

/-- A filler that gives entries is usable. -/
theorem usable_of_entries {f : ℕ → α} (h : o.entries shape = .ok f) : o.Usable α := by
  unfold FillerOptions.entries at h
  unfold FillerOptions.Usable
  cases htype : o.type with
  | text name =>
    rw [htype] at h
    dsimp only at h ⊢
    cases hkind : FillerKind.ofName? (inSmallLetters name) with
    | none =>
      rw [hkind] at h
      cases h
    | some kind =>
      rw [hkind] at h
      cases kind with
      | constant =>
        obtain ⟨x, hx, h⟩ := bind_eq_ok_iff.mp h
        refine ⟨x, hx, ?_⟩
        cases hadmits : Stored.admits α x with
        | true => rfl
        | false =>
          rw [hadmits] at h
          cases h
      | uniform =>
        obtain ⟨empty, hempty, h⟩ := bind_eq_ok_iff.mp h
        refine ⟨empty, hempty, fun hfalse => ?_⟩
        rw [hfalse] at h
        exact paired_of_numbers (f := fun low high => Draws.between low high shape) h
      | gaussian =>
        obtain ⟨low, hlow, h⟩ := bind_eq_ok_iff.mp h
        refine ⟨low, hlow, fun hfalse => ?_⟩
        rw [hfalse] at h
        exact paired_of_numbers (f := fun mean deviation => Draws.around mean deviation shape) h
      | xavier => trivial
      | msra => trivial
  | bytes data => trivial
  | _ =>
    rw [htype] at h
    cases h

variable {s : Setting}

theorem reported_filledBy (h : s.Usable α) (hfan : HasFan shape) :
    Reported (filledBy s shape : Except Fault (Tensor α)) := by
  obtain ⟨o, rfl, h⟩ := h
  exact (reported_entries h hfan).map _

theorem usable_of_filledBy {t : Tensor α} (h : filledBy s shape = .ok t) : s.Usable α := by
  cases s with
  | filler o =>
    obtain ⟨f, hf, -⟩ := map_eq_ok_iff.mp h
    exact ⟨o, rfl, usable_of_entries hf⟩
  | value v => cases h
  | elementType e => cases h

end Fillers

/-! ### Options of the right kinds -/

/-- Options of which every value that is used can be used. -/
structure OrientedConvOptions.Typed (o : OrientedConvOptions) (α : Type) {ω : Type} [Scalar ω] [Stored α ω]
    [Draws α ω] : Prop where
  outputs : o.numOutput = .null ∨ ∃ n, o.numOutput = .int n
  groups : o.group = .null ∨ ∃ n, o.group.number? = some (.whole n)
  kernel : o.kernelSize.Sized ∧ o.kernelH.Sized ∧ o.kernelW.Sized
  stride : o.stride.Sized ∧ o.strideH.Sized ∧ o.strideW.Sized
  pad : o.pad.Sized ∧ o.padH.Sized ∧ o.padW.Sized
  sigma : o.gaussianSigma.Numeric
  deviation : ∀ g, o.check = .ok g → g.HasDeviation o.gaussianSigma
  weight : o.weightFiller.Usable α
  bias : o.biasTerm.isTrue = true → o.biasFiller.Usable α

/-- Options of which every value that is used can be used. -/
structure SimilarityOptions.Typed (o : SimilarityOptions) : Prop where
  kernel : ∃ n, o.kernelSize.whole = .ok n
  stride : ∃ n, o.stride.whole = .ok n
  pad : ∃ n, o.pad.whole = .ok n
  c1 : ∃ n, o.c1.number? = some n
  c2 : ∃ n, o.c2.number? = some n
  sigma : o.gaussianSigma.Numeric
  deviation : ∀ g, o.check = .ok g → g.HasDeviation o.gaussianSigma

/-- Settings of the operators under which each of them can be made. -/
def GlobalOptions.Served (globals : GlobalOptions) : Prop :=
  ∀ component, ∃ op, Operator.check component globals = .ok op

section Layers

variable {α ω : Type} [Scalar ω] [Stored α ω] {globals : GlobalOptions} {g : Geometry}

theorem exists_smoother {owner : OptionSet} {sigma : Value} (hglobals : globals.Served)
    (hsigma : requireSigma owner sigma = .ok ()) (h : g.HasDeviation sigma) :
    ∃ s : Smoother ω, (Smoother.create (g.gaussian sigma) globals).Returns s := by
  obtain ⟨op, hop⟩ := hglobals .smoother
  obtain ⟨d, hd⟩ := (exists_deviation_iff (ω := ω) hsigma).mpr h
  have hcreate := Smoother.results_create (ω := ω) hop g sigma
  rw [hd] at hcreate
  exact ⟨_, hcreate⟩

theorem hasDeviation_of_create {owner : OptionSet} {sigma : Value} {s : Smoother ω}
    (hsigma : requireSigma owner sigma = .ok ()) (h : (Smoother.create (g.gaussian sigma) globals).Gives s) :
    g.HasDeviation sigma := by
  obtain ⟨deviation, hdeviation, -⟩ := Smoother.table_of_create h
  exact (exists_deviation_iff (ω := ω) hsigma).mp ⟨deviation, hdeviation⟩

namespace SimilarityOptions

variable {o : SimilarityOptions}

/-- Options of the right kinds are accepted or refused. -/
theorem reported_check (h : o.Typed) : Reported o.check := by
  obtain ⟨kernel, hkernel⟩ := h.kernel
  obtain ⟨stride, hstride⟩ := h.stride
  obtain ⟨pad, hpad⟩ := h.pad
  obtain ⟨c1, hc1⟩ := h.c1
  obtain ⟨c2, hc2⟩ := h.c2
  unfold check
  rw [hkernel, ok_bind, hstride, ok_bind, hpad, ok_bind]
  refine (reported_ofPairs _ _ _).bind fun g _ => ?_
  rw [less_of_number hc1, less_of_number hc2]
  cases c1.lt (.whole 0) <;> cases c2.lt (.whole 0)
  · exact (reported_requireSigma h.sigma).bind fun _ _ => reported_ok g
  all_goals exact reported_option _

theorem typed_of_check (h : o.check = .ok g) (hdeviation : g.HasDeviation o.gaussianSigma) : o.Typed := by
  obtain ⟨hc1, hc2, hsigma⟩ := accepted_of_check h
  have hcheck := h
  obtain ⟨kernel, hkernel, h⟩ := bind_eq_ok_iff.mp h
  obtain ⟨stride, hstride, h⟩ := bind_eq_ok_iff.mp h
  obtain ⟨pad, hpad, -⟩ := bind_eq_ok_iff.mp h
  refine ⟨⟨kernel, hkernel⟩, ⟨stride, hstride⟩, ⟨pad, hpad⟩, number_of_less hc1, number_of_less hc2,
    numeric_of_requireSigma hsigma, fun g' hg' => ?_⟩
  obtain rfl : g = g' := Except.ok.inj (hcheck.symm.trans hg')
  exact hdeviation

end SimilarityOptions

namespace SimilarityLoss

variable {o : SimilarityOptions}

/-- A comparator is built from options of the right kinds, or they are refused. -/
theorem concludes_build (hglobals : globals.Served) (h : o.Typed) :
    (build o globals : Action Fault (SimilarityLoss ω)).Concludes := by
  rcases SimilarityOptions.reported_check h with ⟨g, hg⟩ | ⟨cause, hcheck⟩
  · obtain ⟨op, hop⟩ := hglobals .smoother
    obtain ⟨d, hd⟩ :=
      (exists_deviation_iff (ω := ω) (SimilarityOptions.accepted_of_check hg).2.2).mpr (h.deviation g hg)
    have hbuild := results_build (ω := ω) hg hop
    rw [hd] at hbuild
    exact .inl ⟨_, hbuild⟩
  · refine .inr ⟨cause, Action.results_reporting (Action.results_bind_of_error ?_)⟩
    refine Action.results_bind_of_error ?_
    rw [hcheck]
    exact Action.results_liftM _

/-- What a comparator is built from has the right kinds. -/
theorem typed_of_build {l : SimilarityLoss ω} (h : (build o globals).Gives l) : o.Typed := by
  obtain ⟨g, hresolve, h⟩ := Action.gives_bind (Action.gives_reporting h)
  obtain ⟨gaussian, hgaussian, h⟩ := Action.gives_bind h
  obtain ⟨smoother, hsmoother, -⟩ := Action.gives_bind h
  have hcheck := SimilarityOptions.check_of_resolve hresolve
  have hsigma := (SimilarityOptions.accepted_of_check hcheck).2.2
  obtain ⟨j, hj⟩ := hgaussian
  obtain rfl : g.gaussian o.gaussianSigma = gaussian :=
    Except.ok.inj ((SimilarityOptions.returns_gaussian hcheck j).symm.trans hj)
  exact SimilarityOptions.typed_of_check hcheck (hasDeviation_of_create hsigma hsmoother)

end SimilarityLoss

namespace OrientedConvOptions

variable {o : OrientedConvOptions} [Draws α ω]

theorem Typed.counts (h : o.Typed α) (houtputs : requirePositive .orientedConv "num_output" o.numOutput = .ok ())
    (hgroup : requirePositive .orientedConv "group" o.group = .ok ()) :
    ∃ n groups : ℤ, o.numOutput = .int n ∧ o.group.number? = some (.whole groups) := by
  rcases h.outputs with hnull | ⟨n, hn⟩
  · rw [hnull] at houtputs
    cases houtputs
  rcases h.groups with hnull | ⟨groups, hgroups⟩
  · rw [hnull] at hgroup
    cases hgroup
  exact ⟨n, groups, hn, hgroups⟩

theorem Typed.counts_of_check (h : o.Typed α) {g : Geometry} (hcheck : o.check = .ok g) :
    ∃ n groups : ℤ, o.numOutput = .int n ∧ o.group.number? = some (.whole groups) := by
  obtain ⟨⟨⟩, houtputs, hcheck⟩ := bind_eq_ok_iff.mp hcheck
  obtain ⟨⟨⟩, hgroup, -⟩ := bind_eq_ok_iff.mp hcheck
  exact h.counts houtputs hgroup

/-- Options are accepted or refused if their counts and deviation are numbers or none, if the counts are whole
once these are positive, and if their sizes convert. -/
theorem reported_check_of_counts (houtputs : o.numOutput.Numeric) (hgroup : o.group.Numeric)
    (hcounts : requirePositive .orientedConv "num_output" o.numOutput = .ok () →
      requirePositive .orientedConv "group" o.group = .ok () →
        ∃ n groups : ℤ, o.numOutput.number? = some (.whole n) ∧ o.group.number? = some (.whole groups))
    (hkernel : o.kernelSize.Sized ∧ o.kernelH.Sized ∧ o.kernelW.Sized)
    (hstride : o.stride.Sized ∧ o.strideH.Sized ∧ o.strideW.Sized) (hpad : o.pad.Sized ∧ o.padH.Sized ∧ o.padW.Sized)
    (hsigma : o.gaussianSigma.Numeric) : Reported o.check := by
  unfold check
  refine (reported_requirePositive houtputs).bind fun _ hn => ?_
  refine (reported_requirePositive hgroup).bind fun _ hg => ?_
  have hmultiple : Reported (requireMultiple .orientedConv o.numOutput o.group) := by
    obtain ⟨n, groups, hint, hgroups⟩ := hcounts hn hg
    rw [requireMultiple_whole hint hgroups]
    split_ifs
    · exact reported_ok _
    · exact reported_option _
  refine hmultiple.bind fun _ _ => ?_
  refine (reported_resolvePair hkernel.1 hkernel.2.1 hkernel.2.2).bind fun kernel _ => ?_
  refine (reported_resolvePair hstride.1 hstride.2.1 hstride.2.2).bind fun stride _ => ?_
  refine (reported_resolvePair hpad.1 hpad.2.1 hpad.2.2).bind fun pad _ => ?_
  refine (reported_ofPairs kernel stride pad).bind fun g _ => ?_
  split
  · exact reported_option _
  · exact (reported_requireSigma hsigma).bind fun _ _ => reported_ok g

/-- Options of the right kinds are accepted or refused. -/
theorem reported_check (h : o.Typed α) : Reported o.check := by
  have houtputs : o.numOutput.Numeric := by
    rcases h.outputs with hnull | ⟨n, hn⟩
    · rw [hnull]
      exact .inl rfl
    · rw [hn]
      exact .inr ⟨_, rfl⟩
  have hgroup : o.group.Numeric := by
    rcases h.groups with hnull | ⟨groups, hgroups⟩
    · rw [hnull]
      exact .inl rfl
    · exact .inr ⟨_, hgroups⟩
  refine reported_check_of_counts houtputs hgroup (fun hn hg => ?_) h.kernel h.stride h.pad h.sigma
  obtain ⟨n, groups, hint, hgroups⟩ := h.counts hn hg
  exact ⟨n, groups, by rw [hint]; rfl, hgroups⟩

/-- Options that are accepted have sizes that convert and a deviation that is a number, or none. -/
theorem accepted_of_check (h : o.check = .ok g) : (o.kernelSize.Sized ∧ o.kernelH.Sized ∧ o.kernelW.Sized) ∧
    (o.stride.Sized ∧ o.strideH.Sized ∧ o.strideW.Sized) ∧ (o.pad.Sized ∧ o.padH.Sized ∧ o.padW.Sized) ∧
      requireSigma .orientedConv o.gaussianSigma = .ok () := by
  obtain ⟨_, -, h⟩ := bind_eq_ok_iff.mp h
  obtain ⟨_, -, h⟩ := bind_eq_ok_iff.mp h
  obtain ⟨_, -, h⟩ := bind_eq_ok_iff.mp h
  obtain ⟨kernel, hkernel, h⟩ := bind_eq_ok_iff.mp h
  obtain ⟨stride, hstride, h⟩ := bind_eq_ok_iff.mp h
  obtain ⟨pad, hpad, h⟩ := bind_eq_ok_iff.mp h
  obtain ⟨g', -, h⟩ := bind_eq_ok_iff.mp h
  refine ⟨sized_of_resolvePair hkernel, sized_of_resolvePair hstride, sized_of_resolvePair hpad, ?_⟩
  dsimp only at h
  split at h
  · cases h
  · obtain ⟨⟨⟩, hsigma, -⟩ := bind_eq_ok_iff.mp h
    exact hsigma

end OrientedConvOptions

namespace ConvLayer

variable {o : OrientedConvOptions} {c : ℤ} [Draws α ω]

theorem concludes_accept (h : o.Typed α) : (accept o (.int c)).Concludes := by
  refine (results_accept o (.int c)).concludes ?_
  refine (OrientedConvOptions.reported_check h).bind fun g hg => ?_
  obtain ⟨n, groups, -, hgroups⟩ := h.counts_of_check hg
  rw [checkChannels_whole rfl hgroups]
  split_ifs
  · exact reported_ok g
  · exact reported_option _

/-- A layer is built from options of the right kinds, or they are refused. -/
theorem concludes_build (hglobals : globals.Served) (h : o.Typed α) :
    (build o globals (.int c) : Action Fault (ConvLayer α ω)).Concludes := by
  refine Action.Concludes.reporting ((concludes_accept h).bind fun g haccept => ?_)
  have hgives : (accept o (.int c)).Gives g := ⟨Journal.empty, haccept _⟩
  have hcheck := check_of_accept hgives
  obtain ⟨n, groups, hn, hgroups⟩ := h.counts_of_check hcheck
  have hshape : weightShape o g (.int c) =
      .ok [n.toNat, (Int.fdiv c groups).toNat, g.kernel.1, g.kernel.2] := by
    unfold weightShape
    rw [hn, hgroups]
    rfl
  obtain ⟨G, B, P, hG, hB, hP, -, -, -, hpositive⟩ := weightShape_of_accept hgives hshape
  rw [hpositive] at hshape
  have hallocate : (allocate o globals g (.int c) : Action Fault (Parts α ω)).Concludes := by
    obtain ⟨op, hop⟩ := hglobals .orientation
    obtain ⟨smoother, hsmoother⟩ := exists_smoother (ω := ω) hglobals
      (OrientedConvOptions.accepted_of_check hcheck).2.2.2 (h.deviation g hcheck)
    have hestimator : (Estimator.create (g.gaussian o.gaussianSigma) globals).Returns (⟨op, smoother⟩ : Estimator ω) :=
      Action.returns_bind (Operator.returns_create hop) (Action.returns_bind hsmoother (Action.returns_pure _))
    refine hestimator.concludes.bind fun estimator _ => ?_
    refine (Action.returns_liftM hshape).concludes.bind fun shape hown => ?_
    obtain rfl : [G * P, B, g.kernel.1, g.kernel.2] = shape :=
      Except.ok.inj (hshape.symm.trans (Action.gives_liftM ⟨Journal.empty, hown _⟩))
    have hfan := hasFan_kernels (Nat.mul_pos hG hP) hB g.kernel_pos.1 g.kernel_pos.2
    refine (Action.concludes_liftM (reported_filledBy h.weight hfan)).bind fun weight _ => ?_
    have hentries : HasFan (List.take 1 [G * P, B, g.kernel.1, g.kernel.2]) :=
      ⟨G * P, rfl, (Nat.mul_pos hG hP).ne'⟩
    cases hterm : o.biasTerm.isTrue with
    | false => exact (Action.returns_pure none).concludes.bind fun _ _ => (Action.returns_pure _).concludes
    | true =>
      have hbias : (some <$> liftM (filledBy o.biasFiller (List.take 1 [G * P, B, g.kernel.1, g.kernel.2])) :
          Action Fault (Option (Tensor α))).Concludes :=
        (Action.concludes_liftM (reported_filledBy (h.bias hterm) hentries)).map some
      exact hbias.bind fun _ _ => (Action.returns_pure _).concludes
  refine hallocate.bind fun parts _ => ?_
  have hannounce : (announce o g (.int c)).Returns () := Action.returns_record _
  exact hannounce.concludes.bind fun _ _ => (Action.returns_pure _).concludes

/-- What a layer is built from has the right kinds. -/
theorem typed_of_build {l : ConvLayer α ω} (h : (build o globals (.int c)).Gives l) :
    o.Typed α := by
  obtain ⟨g, haccept, h⟩ := Action.gives_bind (Action.gives_reporting h)
  obtain ⟨parts, hparts, -⟩ := Action.gives_bind h
  have hcheck := check_of_accept haccept
  obtain ⟨hkernel, hstride, hpad, hsigma⟩ := OrientedConvOptions.accepted_of_check hcheck
  obtain ⟨G, B, P, -, -, -, -, houtputs, hgroups, -⟩ := weightShape_of_accept haccept (weightShape_of_allocate hparts)
  obtain ⟨estimator, hestimator, h⟩ := Action.gives_bind hparts
  obtain ⟨shape, -, h⟩ := Action.gives_bind h
  obtain ⟨weight, hweight, h⟩ := Action.gives_bind h
  obtain ⟨_, -, hestimator⟩ := Action.gives_bind hestimator
  obtain ⟨smoother, hsmoother, -⟩ := Action.gives_bind hestimator
  refine ⟨.inr ⟨_, houtputs⟩, .inr ⟨_, hgroups⟩, hkernel, hstride, hpad, numeric_of_requireSigma hsigma,
    fun g' hg' => ?_,
    usable_of_filledBy (Action.gives_liftM hweight), fun hterm => ?_⟩
  · obtain rfl : g = g' := Except.ok.inj (hcheck.symm.trans hg')
    exact hasDeviation_of_create hsigma hsmoother
  · dsimp only at h
    rw [hterm, if_pos rfl] at h
    obtain ⟨_, hbias, -⟩ := Action.gives_bind h
    obtain ⟨b, hb, -⟩ := Action.gives_map hbias
    exact usable_of_filledBy (Action.gives_liftM hb)

end ConvLayer

end Layers

/-! ### Layers of a description -/

namespace LayerOptions

/-- The options of a layer among all kinds of options. -/
def any : LayerOptions → AnyOptions
  | orientedConv o => .orientedConv o
  | similarity o => .similarity o

section Kinds

variable [Draws Float Float] [Draws Float32 Float]

/-- Options of the right kinds for parameters of the element type. -/
def Typed (globals : GlobalOptions) : LayerOptions → Prop
  | orientedConv o =>
    match globals.elementType with
    | .float32 => o.Typed Float32
    | _ => o.Typed Float
  | similarity o => o.Typed

theorem build_cases (o : OrientedConvOptions) (c : ℤ) (globals : GlobalOptions) :
    (((orientedConv o).Typed globals ↔ o.Typed Float32) ∧ LayerSession.build (.orientedConv o) (.int c) globals =
      (ConvLayer.build o globals (.int c) >>= fun l => return .conv32 ⟨l, 0, none⟩)) ∨
    (((orientedConv o).Typed globals ↔ o.Typed Float) ∧ LayerSession.build (.orientedConv o) (.int c) globals =
      (ConvLayer.build o globals (.int c) >>= fun l => return .conv64 ⟨l, 0, none⟩)) := by
  unfold Typed LayerSession.build
  cases globals.elementType with
  | float32 => exact .inl ⟨Iff.rfl, rfl⟩
  | _ => exact .inr ⟨Iff.rfl, rfl⟩

/-- From options of the right kinds a layer is built, or they are refused in words; no layer is built from others. -/
theorem built_or_refused {globals : GlobalOptions} (hglobals : globals.Served) (o : LayerOptions) (c : ℤ) :
    (o.Typed globals → (∃ s, (LayerSession.build o.any (.int c) globals).Returns s) ∨
      ∃ cause, (LayerSession.build o.any (.int c) globals).Results (.error (.option cause))) ∧
    ((∃ s, (LayerSession.build o.any (.int c) globals).Gives s) → o.Typed globals) := by
  cases o with
  | orientedConv o =>
    rcases build_cases o c globals with ⟨htyped, hbuild⟩ | ⟨htyped, hbuild⟩
    all_goals
      rw [htyped]
      show (_ → (LayerSession.build (.orientedConv o) (.int c) globals).Concludes) ∧
        ((∃ s, (LayerSession.build (.orientedConv o) (.int c) globals).Gives s) → _)
      rw [hbuild]
      constructor
      · intro h
        exact (ConvLayer.concludes_build hglobals h).bind fun _ _ => (Action.returns_pure _).concludes
      · rintro ⟨s, h⟩
        obtain ⟨l, hl, -⟩ := Action.gives_bind h
        exact ConvLayer.typed_of_build hl
  | similarity o =>
    constructor
    · intro h
      exact (SimilarityLoss.concludes_build (ω := Float) hglobals h).bind fun _ _ => (Action.returns_pure _).concludes
    · rintro ⟨s, h⟩
      obtain ⟨l, hl, -⟩ := Action.gives_bind h
      exact SimilarityLoss.typed_of_build hl

end Kinds

section Drawn

local instance middlingDouble : Draws Float Float := Draws.middling Float Float

local instance middlingSingle : Draws Float32 Float := Draws.middling Float32 Float

/-- One kernel of one entry that is drawn between zero and one. -/
def drawnSingle : OrientedConvOptions :=
  { ConvLayer.single with weightFiller := .filler { type := .text "uniform", min := .int 0, max := .int 1 } }

/-- A layer with such a kernel. -/
theorem built_or_refused_single :
    ({ dtype := .elementType .float64 } : GlobalOptions).Served ∧
      (orientedConv drawnSingle).Typed { dtype := .elementType .float64 } ∧
      ((∃ s, (LayerSession.build (.orientedConv drawnSingle) (.int 1) { dtype := .elementType .float64 }).Returns s) ∨
        ∃ cause, (LayerSession.build (.orientedConv drawnSingle) (.int 1)
          { dtype := .elementType .float64 }).Results (.error (.option cause))) := by
  have hserved : ({ dtype := .elementType .float64 } : GlobalOptions).Served :=
    fun component => ⟨⟨component, "torch", { dtype := .elementType .float64 }⟩, by with_unfolding_all rfl⟩
  have hcheck : drawnSingle.check = .ok (squareWindows 1 0 (Nat.succ_pos _)) := by with_unfolding_all rfl
  have hordered : Value.exceeds (.int 0) (.int 1) = .ok false := by with_unfolding_all rfl
  have hpaired : Value.Paired (.int 0) (.int 1) (Draws.spans Float) := ⟨_, _, rfl, rfl, rfl⟩
  have hweight : drawnSingle.weightFiller.Usable Float :=
    ⟨_, rfl, by with_unfolding_all exact ⟨false, hordered, fun _ => hpaired⟩⟩
  have hnone : Value.null.Sized := .inl rfl
  have htyped : (orientedConv drawnSingle).Typed { dtype := .elementType .float64 } :=
    { outputs := .inr ⟨1, rfl⟩
      groups := .inr ⟨1, rfl⟩
      kernel := ⟨.inr ⟨1, rfl⟩, hnone, hnone⟩
      stride := ⟨hnone, hnone, hnone⟩
      pad := ⟨hnone, hnone, hnone⟩
      sigma := .inl rfl
      deviation := fun g hg => by
        obtain rfl : squareWindows 1 0 _ = g := Except.ok.inj (hcheck.symm.trans hg)
        show 1 + 1 < 12 * Nat.pow (Nat.pow 2 256) 2
        decide
      weight := hweight
      bias := fun h => absurd h Bool.false_ne_true }
  exact ⟨hserved, htyped, (built_or_refused hserved (orientedConv drawnSingle) 1).1 htyped⟩

/-- Options with a filler whose least value is text. -/
def textRange : OrientedConvOptions where
  numOutput := .int 1
  kernelSize := .int 1
  weightFiller := .filler { type := .text "uniform", min := .text "a", max := .int 1 }

/-- A description of such a layer. -/
def textRangeEntry : List (Value × Value) :=
  [(.text "type", .text "GradOrientConvolution"), (.text "num_output", .int 1), (.text "kernel_size", .int 1),
    (.text "weight_filler", .map [(.text "type", .text "uniform"), (.text "min", .text "a"), (.text "max", .int 1)])]

/-- The setup of a described layer compares text with a number and is not refused in words. -/
theorem setup_unreported :
    layersOf (singleLayer textRangeEntry) = .ok [orientedConv textRange] ∧
      ((LayerSession.build (.orientedConv textRange) (.int 1) {}).outcome Journal.empty).1 =
        .error (.unordered ">" (.text "a") (.int 1)) ∧
      ¬∀ document layers, layersOf document = .ok layers → ∀ o ∈ layers, ∀ c : ℤ, 0 < c →
        (LayerSession.build o.any (.int c) {}).Concludes := by
  have hlayers : layersOf (singleLayer textRangeEntry) = .ok [orientedConv textRange] := by with_unfolding_all rfl
  have hbuild : ((LayerSession.build (.orientedConv textRange) (.int 1) {}).outcome Journal.empty).1 =
      .error (.unordered ">" (.text "a") (.int 1)) := by with_unfolding_all rfl
  refine ⟨hlayers, hbuild, fun h => ?_⟩
  rcases h _ _ hlayers _ List.mem_cons_self 1 Int.one_pos with ⟨s, hs⟩ | ⟨cause, hcause⟩
  · cases hbuild.symm.trans (hs Journal.empty)
  · cases hbuild.symm.trans (hcause Journal.empty)

end Drawn

end LayerOptions

end SteeredConv
