/-
# The test of sizes is exact

A network takes only layers that have as many windows as an image has pixels. Whether a
layer has is told by its geometry: one step at a time, and a border of half the kernel.
Windows in larger steps may come out as many as the pixels for some size, but not for
all of the sizes one, two and three.

So a network whose layers can be set up is refused if some layer changes the size of some
image, and is built if no layer does. A description that has such a layer gives no network in
any case, and if its values are of the right kinds it is refused as bad options.

Key definitions: `Geometry.KeepsSizes`, `Network.SetUp`, `Network.Usable`.
Key theorems: `positions_eq_self_iff`, `Geometry.keepsSize_iff`, `Network.refused_of_setUp`,
`Network.returns_of_setUp`, `Network.refused_of_usable`, `Network.size_test_exact`.
-/
import SteeredConv.Proofs.NetworkShapes
import SteeredConv.Proofs.SetupRefusals

namespace SteeredConv

open Tensor

/-! ### Sizes -/

/-- An axis of any length has as many windows as positions exactly if the windows take single steps and the border
is half the kernel. -/
theorem positions_eq_self_iff {kernel stride pad : ℕ} (hstride : 0 < stride) :
    (∀ n : ℕ, 0 < n → positions n kernel stride pad = n) ↔ stride = 1 ∧ 2 * pad + 1 = kernel := by
  constructor
  · intro h
    have bounds (n : ℕ) (hn : 0 < n) : ((n : ℤ) - 1) * stride ≤ n + 2 * pad - kernel ∧
        (n : ℤ) + 2 * pad - kernel < n * stride := by
      have hpos : (0 : ℤ) < stride := Int.natCast_pos.mpr hstride
      have hn := h n hn
      unfold positions at hn
      rw [Int.fdiv_eq_ediv_of_nonneg _ hpos.le] at hn
      have hquotient : ((n : ℤ) + 2 * pad - kernel) / stride = n - 1 := by omega
      constructor
      · rw [← hquotient]
        exact Int.ediv_mul_le _ hpos.ne'
      · have hlt := Int.lt_ediv_add_one_mul_self ((n : ℤ) + 2 * pad - kernel) hpos
        rwa [hquotient, sub_add_cancel] at hlt
    -- One position bounds the border, two determine it by the step, and three leave single steps only.
    have h1 := bounds 1 (by omega)
    have h2 := bounds 2 (by omega)
    have h3 := bounds 3 (by omega)
    push_cast at h1 h2 h3
    omega
  · rintro ⟨rfl, hkernel⟩ n hn
    rw [positions_eq (by omega), Nat.div_one]
    omega

/-- The windows are as many as the pixels, whatever the size of the image. -/
def Geometry.KeepsSizes (g : Geometry) : Prop := ∀ h w : ℕ, 0 < h → 0 < w → g.outputSize h w = ((h : ℤ), (w : ℤ))

/-- A geometry passes the test exactly if it keeps every size. -/
theorem Geometry.keepsSize_iff (g : Geometry) : g.keepsSize = true ↔ g.KeepsSizes := by
  have hrows := @positions_eq_self_iff g.kernel.1 g.stride.1 g.pad.1 g.stride_pos.1
  have hcolumns := @positions_eq_self_iff g.kernel.2 g.stride.2 g.pad.2 g.stride_pos.2
  have haxes : g.KeepsSizes ↔ (∀ n : ℕ, 0 < n → positions n g.kernel.1 g.stride.1 g.pad.1 = n) ∧
      ∀ n : ℕ, 0 < n → positions n g.kernel.2 g.stride.2 g.pad.2 = n := by
    constructor
    · intro h
      exact ⟨fun n hn => congrArg Prod.fst (h n 1 hn Nat.one_pos), fun n hn => congrArg Prod.snd (h 1 n Nat.one_pos hn)⟩
    · rintro ⟨hh, hw⟩ h w hpos hpos'
      exact Prod.ext (hh h hpos) (hw w hpos')
  rw [haxes, hrows, hcolumns]
  simp only [keepsSize, Bool.and_eq_true, decide_eq_true_eq, Prod.ext_iff]
  tauto

/-! ### Setups do not look at the journal -/

section Setups

variable {α ω : Type} [Scalar ω] [Stored α ω] [Draws α ω] {globals : GlobalOptions}

theorem ConvLayer.steady_build (o : OrientedConvOptions) (globals : GlobalOptions) (c : Value) :
    (build o globals c : Action Fault (ConvLayer α ω)).Steady := by
  have haccept : (accept o c).Steady := ⟨_, results_accept o c⟩
  have hallocate (g : Geometry) : (allocate o globals g c : Action Fault (Parts α ω)).Steady := by
    refine (Estimator.steady_create _ globals).bind fun _ => ?_
    refine (Action.steady_liftM _).bind fun shape => (Action.steady_liftM _).bind fun _ => ?_
    cases o.biasTerm.isTrue with
    | false => exact (Action.steady_pure _).bind fun _ => Action.steady_pure _
    | true => exact ((Action.steady_liftM _).map some).bind fun _ => Action.steady_pure _
  have hannounce (g : Geometry) : (announce o g c).Returns () := Action.returns_record _
  exact (haccept.bind fun g => (hallocate g).bind fun _ => (hannounce g).steady.bind
    fun _ => Action.steady_pure _).reporting

theorem SimilarityLoss.steady_build (o : SimilarityOptions) (globals : GlobalOptions) :
    (build o globals : Action Fault (SimilarityLoss ω)).Steady := by
  have hresolve : o.resolve.Steady := (Action.steady_liftM _).bind fun _ =>
    (Action.returns_warnIf _ _).steady.bind fun _ => Action.steady_pure _
  have hgaussian : o.gaussian.Steady := hresolve.bind fun _ => Action.steady_pure _
  exact (hresolve.bind fun _ => hgaussian.bind fun _ => (Smoother.steady_create _ globals).bind fun _ =>
    (Action.returns_record _).steady.bind fun _ => Action.steady_pure _).reporting

theorem ConvLayer.check_of_build {o : OrientedConvOptions} {c : Value} {l : ConvLayer α ω}
    (h : (build o globals c).Gives l) : o.check = .ok l.geometry := by
  obtain ⟨g, haccept, h⟩ := Action.gives_bind (Action.gives_reporting h)
  obtain ⟨parts, -, h⟩ := Action.gives_bind h
  obtain ⟨_, -, h⟩ := Action.gives_bind h
  obtain rfl := Action.gives_pure h
  exact check_of_accept haccept

theorem ConvLayer.smoother_of_build {o : OrientedConvOptions} {c : Value} {l : ConvLayer α ω}
    (h : (build o globals c).Gives l) : ∃ op, Operator.check .smoother globals = .ok op := by
  obtain ⟨g, -, h⟩ := Action.gives_bind (Action.gives_reporting h)
  obtain ⟨parts, hparts, -⟩ := Action.gives_bind h
  obtain ⟨estimator, hestimator, -⟩ := Action.gives_bind hparts
  obtain ⟨_, -, hestimator⟩ := Action.gives_bind hestimator
  obtain ⟨smoother, hsmoother, -⟩ := Action.gives_bind hestimator
  obtain ⟨op, hop, -⟩ := Action.gives_bind hsmoother
  exact ⟨op, Operator.check_of_create hop⟩

namespace Network

theorem steady_stack (globals : GlobalOptions) (channels : Value) (options : List LayerOptions) :
    (stack globals channels options : Action Fault (List (ConvLayer α ω) × Option (SimilarityLoss ω))).Steady := by
  induction options generalizing channels with
  | nil => exact Action.steady_pure _
  | cons o rest ih =>
    cases o with
    | orientedConv o =>
      exact (ConvLayer.steady_build o globals channels).bind fun _ => (ih _).bind fun _ => Action.steady_pure _
    | similarity o =>
      exact (SimilarityLoss.steady_build o globals).bind fun _ => (ih _).bind fun _ => Action.steady_pure _

/-- The layers have the geometries of their options, in order. -/
theorem geometries_of_stack {channels : Value} {options : List LayerOptions}
    {r : List (ConvLayer α ω) × Option (SimilarityLoss ω)} (h : (stack globals channels options).Gives r) :
    List.Forall₂ (fun (l : ConvLayer α ω) (o : OrientedConvOptions) => o.check = .ok l.geometry) r.1
      (LayerOptions.convs options) := by
  induction options generalizing channels r with
  | nil =>
    obtain rfl := Action.gives_pure h
    exact .nil
  | cons o rest ih =>
    cases o with
    | orientedConv o =>
      obtain ⟨layer, hlayer, h⟩ := Action.gives_bind h
      obtain ⟨later, hlater, h⟩ := Action.gives_bind h
      obtain rfl := Action.gives_pure h
      exact .cons (ConvLayer.check_of_build hlayer) (ih hlater)
    | similarity o =>
      obtain ⟨own, -, h⟩ := Action.gives_bind h
      obtain ⟨later, hlater, h⟩ := Action.gives_bind h
      obtain rfl := Action.gives_pure h
      exact (ih hlater :)

/-- Where a layer is set up, windows are made of the globals. -/
theorem smoother_of_stack {channels : Value} {options : List LayerOptions}
    {r : List (ConvLayer α ω) × Option (SimilarityLoss ω)} (h : (stack globals channels options).Gives r)
    (hne : r.1 ≠ []) : ∃ op, Operator.check .smoother globals = .ok op := by
  induction options generalizing channels r with
  | nil =>
    obtain rfl := Action.gives_pure h
    exact absurd rfl hne
  | cons o rest ih =>
    cases o with
    | orientedConv o =>
      obtain ⟨layer, hlayer, -⟩ := Action.gives_bind h
      exact ConvLayer.smoother_of_build hlayer
    | similarity o =>
      obtain ⟨own, -, h⟩ := Action.gives_bind h
      obtain ⟨later, hlater, h⟩ := Action.gives_bind h
      obtain rfl := Action.gives_pure h
      exact ih hlater hne

end Network

end Setups

theorem SimilarityOptions.exists_check_default :
    ∃ g, ({} : SimilarityOptions).check = .ok g ∧ g.HasDeviation .null := by
  refine ⟨⟨(11, 11), (1, 1), (0, 0), by decide, by decide⟩, rfl, ?_⟩
  show 11 + 11 < 12 * Nat.pow (Nat.pow 2 256) 2
  decide

/-- Options of which every value that is used can be used, for parameters of given numbers. -/
def LayerOptions.TypedFor (α : Type) {ω : Type} [Scalar ω] [Stored α ω] [Draws α ω] : LayerOptions → Prop
  | orientedConv o => o.Typed α
  | similarity o => o.Typed

/-! ### Networks whose layers are set up -/

namespace Network

section SetUp

variable {α ω : Type} [Scalar ω] [Stored α ω] [Draws α ω]

/-- The layers of a description, and its comparator if it has one, are set up. -/
inductive SetUp (description : Value) (globals : GlobalOptions) (layers : List (ConvLayer α ω))
    (loss : Option (SimilarityLoss ω)) : Prop where
  | intro {entries : List (Value × Value)} {channels : ℤ} {slope : Float} {gradient : Operator}
      {options : List LayerOptions} (hentries : entriesOf description = .ok entries)
      (hchannels : ((Value.lookup? entries "in_channels").getD (.int 1)).whole = .ok channels)
      (hslope : ((Value.lookup? entries "negative_slope").getD (.float 0.01)).real = .ok slope)
      (hgradient : (Operator.create .gradient
        { outputFormat := .value (.text "torch"), dtype := globals.dtype }).Gives gradient)
      (hoptions : layersOf description = .ok options)
      (hstack : (stack globals (.int channels) options).Gives (layers, loss)) : SetUp description globals layers loss

/-- The comparator of a description, or else one of default options. -/
def comparator (globals : GlobalOptions) : Option (SimilarityLoss ω) → Action Fault (SimilarityLoss ω)
  | some l => pure l
  | none => SimilarityLoss.build {} globals

/-- What is left to do once the layers are set up. -/
def finish (source : String) (globals : GlobalOptions) (gradient : Operator) (slope : Float)
    (layers : List (ConvLayer α ω)) (loss : Option (SimilarityLoss ω)) : Action Fault (Network α ω) :=
  match layers with
  | [] => throw (.option (.noOrientedLayer source))
  | first :: rest => do
    liftM ((first :: rest).forM checkSize)
    let loss ← comparator globals loss
    Action.info s!"OrientNet built from {source}: {rest.length + 1} oriented layers."
    return ⟨gradient, Scalar.ofFloat slope, first, rest, loss⟩

variable {source : String} {description : Value} {globals : GlobalOptions} {layers : List (ConvLayer α ω)}
  {loss : Option (SimilarityLoss ω)}

/-- Once the layers are set up, the rest decides. -/
theorem results_build (source : String) (h : SetUp description globals layers loss) : ∃ gradient slope, ∀ r,
    (finish source globals gradient slope layers loss).Results r → (build source description globals).Results r := by
  obtain @⟨entries, channels, slope, gradient, options, hentries, hchannels, hslope, hgradient, hoptions, hstack⟩ := h
  refine ⟨gradient, slope, fun r hfinish => ?_⟩
  refine Action.results_bind_of_returns (Action.returns_liftM hentries) ?_
  refine Action.results_bind_of_returns (Action.returns_liftM hchannels) ?_
  refine Action.results_bind_of_returns (Action.returns_liftM hslope) ?_
  refine Action.results_bind_of_returns ((Operator.steady_create _ _).returns_of_gives hgradient) ?_
  refine Action.results_bind_of_returns (Action.returns_liftM hoptions) ?_
  refine Action.results_bind_of_returns ((steady_stack _ _ _).returns_of_gives hstack) ?_
  cases layers with
  | nil => exact hfinish
  | cons first rest =>
    cases loss with
    | none => exact hfinish
    | some l => exact hfinish

/-- A network that is built has the layers that are set up, and each of them passes the test. -/
theorem setUp_of_build {n : Network α ω} (h : (build source description globals).Gives n) :
    ∃ loss, SetUp description globals n.layers loss ∧ ∀ l ∈ n.layers, l.geometry.keepsSize = true := by
  obtain ⟨entries, hentries, h⟩ := Action.gives_bind h
  obtain ⟨channels, hchannels, h⟩ := Action.gives_bind h
  obtain ⟨slope, hslope, h⟩ := Action.gives_bind h
  obtain ⟨gradient, hgradient, h⟩ := Action.gives_bind h
  obtain ⟨options, hoptions, h⟩ := Action.gives_bind h
  obtain ⟨⟨layers, loss⟩, hstack, h⟩ := Action.gives_bind h
  have hsetup : SetUp description globals layers loss :=
    ⟨Action.gives_liftM hentries, Action.gives_liftM hchannels, Action.gives_liftM hslope, hgradient,
      Action.gives_liftM hoptions, hstack⟩
  cases layers with
  | nil => exact absurd h Action.not_gives_throw
  | cons first rest =>
    obtain ⟨⟨⟩, hsizes, h⟩ := Action.gives_bind h
    have hkeeps : ∀ l ∈ first :: rest, l.geometry.keepsSize = true := fun l hl =>
      ConvLayer.keepsSize_of_checkSize (checkSize_of_forM (Action.gives_liftM hsizes) l hl)
    obtain ⟨comparator, h⟩ : ∃ comparator : SimilarityLoss ω,
        n = ⟨gradient, Scalar.ofFloat slope, first, rest, comparator⟩ := by
      dsimp only at h
      split at h
      all_goals
        obtain ⟨_, -, h⟩ := Action.gives_bind h
        obtain ⟨_, -, h⟩ := Action.gives_bind h
        exact ⟨_, (Action.gives_pure h).symm⟩
    subst h
    exact ⟨loss, hsetup, hkeeps⟩

/-- The complaint about a layer that changes a size. -/
def sizeFault (l : ConvLayer α ω) : Fault :=
  .option (.sizeNotKept (Geometry.ints l.geometry.kernel) (Geometry.ints l.geometry.stride)
    (Geometry.ints l.geometry.pad))

omit [Scalar ω] [Stored α ω] [Draws α ω] in
theorem checkSize_eq (l : ConvLayer α ω) :
    checkSize l = if l.geometry.keepsSize = true then .ok () else .error (sizeFault l) := rfl

omit [Scalar ω] [Stored α ω] [Draws α ω] in
/-- The sizes of a row pass, or one of its layers is complained about. -/
theorem forM_checkSize_cases (ls : List (ConvLayer α ω)) :
    ((∀ l ∈ ls, l.geometry.keepsSize = true) ∧ ls.forM checkSize = .ok ()) ∨
      ∃ l ∈ ls, l.geometry.keepsSize = false ∧ ls.forM checkSize = .error (sizeFault l) := by
  induction ls with
  | nil => exact .inl ⟨by simp, rfl⟩
  | cons l rest ih =>
    have hcons : (l :: rest).forM checkSize = (checkSize l >>= fun _ => rest.forM checkSize) := rfl
    rw [hcons, checkSize_eq]
    cases hkeeps : l.geometry.keepsSize with
    | false => exact .inr ⟨l, List.mem_cons_self, hkeeps, rfl⟩
    | true =>
      rcases ih with ⟨hall, hrest⟩ | ⟨l', hl', hnot, hrest⟩
      · exact .inl ⟨List.forall_mem_cons.mpr ⟨hkeeps, hall⟩, hrest⟩
      · exact .inr ⟨l', List.mem_cons_of_mem l hl', hnot, hrest⟩

/-- A network is refused for a layer that changes some size. -/
theorem refused_of_setUp (source : String) (h : SetUp description globals layers loss) {l : ConvLayer α ω}
    (hl : l ∈ layers)
    (hsize : l.geometry.keepsSize = false) : ∃ l' ∈ layers, l'.geometry.keepsSize = false ∧
      (build source description globals : Action Fault (Network α ω)).Results (.error (sizeFault l')) := by
  rcases forM_checkSize_cases layers with ⟨hall, -⟩ | ⟨l', hl', hnot, hforM⟩
  · rw [hall l hl] at hsize
    cases hsize
  · obtain ⟨gradient, slope, hbuild⟩ := results_build source h
    refine ⟨l', hl', hnot, hbuild _ ?_⟩
    cases layers with
    | nil => cases hl'
    | cons first rest =>
      refine Action.results_bind_of_error ?_
      rw [hforM]
      exact Action.results_liftM _

/-- Beside layers that are set up there is always a comparator. -/
theorem comparator_returns (h : SetUp description globals layers loss) (hne : layers ≠ []) :
    ∃ c, (comparator globals loss).Returns c := by
  cases loss with
  | some l => exact ⟨l, Action.returns_pure l⟩
  | none =>
    obtain ⟨g, hg, hdeviation⟩ := SimilarityOptions.exists_check_default
    obtain ⟨_, _, _, _, _, hstack⟩ := h
    obtain ⟨op, hop⟩ := smoother_of_stack hstack hne
    obtain ⟨d, hd⟩ := (exists_deviation_iff (ω := ω) (SimilarityOptions.accepted_of_check hg).2.2).mpr hdeviation
    have hbuild := SimilarityLoss.results_build (ω := ω) hg hop
    rw [hd] at hbuild
    exact ⟨_, hbuild⟩

/-- A network of layers that keep all sizes is built. -/
theorem returns_of_setUp (h : SetUp description globals layers loss) (hne : layers ≠ [])
    (hsizes : ∀ l ∈ layers, l.geometry.keepsSize = true) :
    ∃ n : Network α ω, (build source description globals).Returns n ∧ n.layers = layers := by
  have hforM : layers.forM checkSize = .ok () := by
    rcases forM_checkSize_cases layers with ⟨-, hforM⟩ | ⟨l, hl, hnot, -⟩
    · exact hforM
    · rw [hsizes l hl] at hnot
      cases hnot
  obtain ⟨c, hc⟩ := comparator_returns h hne
  obtain ⟨gradient, slope, hbuild⟩ := results_build source h
  cases layers with
  | nil => exact absurd rfl hne
  | cons first rest =>
    have hannounce : (Action.info s!"OrientNet built from {source}: {rest.length + 1} oriented layers." :
        Action Fault Unit).Returns () := Action.returns_record _
    have hfinish : (finish source globals gradient slope (first :: rest) loss).Returns
        ⟨gradient, Scalar.ofFloat slope, first, rest, c⟩ := by
      refine Action.returns_bind (Action.returns_liftM hforM) ?_
      refine Action.returns_bind hc ?_
      exact Action.returns_bind hannounce (Action.returns_pure _)
    exact ⟨_, hbuild _ hfinish, rfl⟩

end SetUp

/-! ### Descriptions with a layer that changes a size -/

section Descriptions

/-- The numbers of a description convert, and the options of its layers are of the right kinds. -/
structure Usable (α : Type) {ω : Type} [Scalar ω] [Stored α ω] [Draws α ω] (description : Value)
    (globals : GlobalOptions) : Prop where
  channels : ∀ entries, entriesOf description = .ok entries →
    ∃ channels, ((Value.lookup? entries "in_channels").getD (.int 1)).whole = .ok channels
  slope : ∀ entries, entriesOf description = .ok entries →
    ∃ slope, ((Value.lookup? entries "negative_slope").getD (.float 0.01)).real = .ok slope
  served : globals.Served
  layers : ∀ options, layersOf description = .ok options → ∀ o ∈ options, o.TypedFor α

variable {α ω : Type} [Scalar ω] [Stored α ω] [Draws α ω] {source : String} {description : Value}
  {globals : GlobalOptions}

/-- Layers of the right kinds are set up or refused. -/
theorem concludes_stack (hglobals : globals.Served) {options : List LayerOptions}
    (h : ∀ o ∈ options, o.TypedFor α) (c : ℤ) :
    (stack globals (.int c) options : Action Fault (List (ConvLayer α ω) × Option (SimilarityLoss ω))).Concludes := by
  induction options generalizing c with
  | nil => exact (Action.returns_pure _).concludes
  | cons o rest ih =>
    obtain ⟨ho, hrest⟩ := List.forall_mem_cons.mp h
    cases o with
    | orientedConv o =>
      have hconv : o.Typed α := ho
      refine (ConvLayer.concludes_build hglobals hconv).bind fun layer hlayer => ?_
      -- the layer was accepted, so its number of outputs is whole
      obtain ⟨n, -, hn, -⟩ := hconv.counts_of_check (ConvLayer.check_of_build ⟨Journal.empty, hlayer _⟩)
      rw [hn]
      exact (ih hrest n).bind fun _ _ => (Action.returns_pure _).concludes
    | similarity o =>
      refine (SimilarityLoss.concludes_build hglobals ho).bind fun own _ => ?_
      exact (ih hrest c).bind fun _ _ => (Action.returns_pure _).concludes

theorem exists_layer_of_stack {channels : Value} {options : List LayerOptions}
    {r : List (ConvLayer α ω) × Option (SimilarityLoss ω)} (h : (stack globals channels options).Gives r)
    {o : OrientedConvOptions} (ho : .orientedConv o ∈ options) {g : Geometry} (hg : o.check = .ok g) :
    ∃ l ∈ r.1, l.geometry = g := by
  have hconv : o ∈ LayerOptions.convs options := List.mem_filterMap.mpr ⟨_, ho, rfl⟩
  obtain ⟨i, hi, rfl⟩ := List.mem_iff_getElem.mp hconv
  have hgeometries := geometries_of_stack h
  have hi' : i < r.1.length := hgeometries.length_eq ▸ hi
  refine ⟨r.1[i], List.getElem_mem hi', ?_⟩
  exact Except.ok.inj ((hgeometries.get hi' hi).symm.trans hg)

theorem not_gives_build {options : List LayerOptions} (hoptions : layersOf description = .ok options)
    {o : OrientedConvOptions} (ho : .orientedConv o ∈ options) {g : Geometry} (hg : o.check = .ok g)
    (hsize : g.keepsSize = false) (n : Network α ω) : ¬(build source description globals).Gives n := by
  intro h
  obtain ⟨loss, hsetup, hkeeps⟩ := setUp_of_build h
  obtain ⟨_, _, _, _, hoptions', hstack⟩ := hsetup
  obtain rfl := Except.ok.inj (hoptions.symm.trans hoptions')
  obtain ⟨l, hl, rfl⟩ := exists_layer_of_stack hstack ho hg
  rw [hkeeps l hl] at hsize
  cases hsize

/-- A description of the right kinds with a layer that changes a size is refused as bad options. -/
theorem refused_of_usable (h : Usable α description globals) {options : List LayerOptions}
    (hoptions : layersOf description = .ok options) {o : OrientedConvOptions} (ho : .orientedConv o ∈ options)
    {g : Geometry} (hg : o.check = .ok g) (hsize : g.keepsSize = false) :
    ∃ cause, (build source description globals : Action Fault (Network α ω)).Results (.error (.option cause)) := by
  obtain ⟨entries, rfl⟩ : ∃ entries, description = .map entries := by
    unfold layersOf at hoptions
    split at hoptions
    · exact ⟨_, rfl⟩
    · cases hoptions
  obtain ⟨channels, hchannels⟩ := h.channels entries rfl
  obtain ⟨slope, hslope⟩ := h.slope entries rfl
  obtain ⟨gradient, hgradient⟩ : ∃ op, Operator.check .gradient
      { outputFormat := .value (.text "torch"), dtype := globals.dtype } = .ok op := ⟨_, by with_unfolding_all rfl⟩
  have hcreate := Operator.returns_create hgradient
  rcases concludes_stack h.served (h.layers options hoptions) channels with ⟨r, hr⟩ | ⟨cause, hcause⟩
  · have hstack : (stack globals (.int channels) options).Gives r := ⟨Journal.empty, hr _⟩
    have hsetup : SetUp (.map entries) globals r.1 r.2 :=
      ⟨rfl, hchannels, hslope, ⟨Journal.empty, hcreate _⟩, hoptions, hstack⟩
    obtain ⟨l, hl, rfl⟩ := exists_layer_of_stack hstack ho hg
    obtain ⟨l', -, -, hrefused⟩ := refused_of_setUp source hsetup hl hsize
    exact ⟨_, hrefused⟩
  · refine ⟨cause, ?_⟩
    refine Action.results_bind_of_returns (Action.returns_liftM rfl) ?_
    refine Action.results_bind_of_returns (Action.returns_liftM hchannels) ?_
    refine Action.results_bind_of_returns (Action.returns_liftM hslope) ?_
    refine Action.results_bind_of_returns hcreate ?_
    refine Action.results_bind_of_returns (Action.returns_liftM hoptions) ?_
    exact Action.results_bind_of_error hcause

/-- The test of sizes holds of a geometry exactly if it keeps the sizes of all images. Of layers that are set up, one
that changes some size is complained about if there is one, and else there is a network of them. A description
with a layer that changes some size gives no network, and is refused as bad options if its other values can be used. -/
theorem size_test_exact :
    (∀ g : Geometry, g.keepsSize = true ↔ g.KeepsSizes) ∧
    (∀ (source : String) (description : Value) (globals : GlobalOptions) (layers : List (ConvLayer α ω))
        (loss : Option (SimilarityLoss ω)), SetUp description globals layers loss →
      ((∃ l ∈ layers, ¬l.geometry.KeepsSizes) → ∃ l ∈ layers, ¬l.geometry.KeepsSizes ∧
        (build source description globals : Action Fault (Network α ω)).Results (.error (sizeFault l))) ∧
      ((∀ l ∈ layers, l.geometry.KeepsSizes) → layers ≠ [] →
        ∃ n : Network α ω, (build source description globals).Returns n ∧ n.layers = layers)) ∧
    ∀ (source : String) (description : Value) (globals : GlobalOptions) (options : List LayerOptions)
        (o : OrientedConvOptions) (g : Geometry), layersOf description = .ok options → .orientedConv o ∈ options →
      o.check = .ok g → ¬g.KeepsSizes →
      (∀ n : Network α ω, ¬(build source description globals).Gives n) ∧
      (Usable α description globals →
        ∃ cause, (build source description globals : Action Fault (Network α ω)).Results (.error (.option cause))) := by
  have hnot (g : Geometry) : ¬g.KeepsSizes ↔ g.keepsSize = false := by
    rw [← g.keepsSize_iff, Bool.not_eq_true]
  refine ⟨Geometry.keepsSize_iff, ?_, ?_⟩
  · intro source description globals layers loss h
    refine ⟨?_, fun hsizes hne => ?_⟩
    · rintro ⟨l, hl, hsize⟩
      obtain ⟨l', hl', hsize', hrefused⟩ := refused_of_setUp source h hl ((hnot _).mp hsize)
      exact ⟨l', hl', (hnot _).mpr hsize', hrefused⟩
    · exact returns_of_setUp h hne fun l hl => l.geometry.keepsSize_iff.mpr (hsizes l hl)
  · intro source description globals options o g hoptions ho hg hsize
    rw [hnot] at hsize
    exact ⟨not_gives_build hoptions ho hg hsize, fun h => refused_of_usable h hoptions ho hg hsize⟩

end Descriptions

/-! ### Windows two apart with a wide border -/

section Spaced

noncomputable local instance middlingNumbers : Draws ExactFloat ExactFloat := Draws.middling ExactFloat ExactFloat

/-- Options of a layer with one kernel of one entry in steps of two. -/
def spaced : OrientedConvOptions := { ConvLayer.single with stride := .int 2, pad := .int 8 }

theorem spaced_kernel_pos : 0 < ((1, 1) : ℕ × ℕ).1 ∧ 0 < ((1, 1) : ℕ × ℕ).2 := ⟨Nat.one_pos, Nat.one_pos⟩

theorem spaced_stride_pos : 0 < ((2, 2) : ℕ × ℕ).1 ∧ 0 < ((2, 2) : ℕ × ℕ).2 := ⟨Nat.two_pos, Nat.two_pos⟩

def spacedWindows : Geometry := ⟨(1, 1), (2, 2), (8, 8), spaced_kernel_pos, spaced_stride_pos⟩

/-- The layer of these options for one channel. -/
noncomputable def spacedLayer : ConvLayer ExactFloat ExactFloat :=
  { ConvLayer.ofSingle ExactFloat ExactFloat with
    options := spaced
    geometry := spacedWindows
    estimator := ⟨⟨.orientation, "torch", {}⟩, ⟨⟨.smoother, "torch", {}⟩, spacedWindows.gaussian .null,
      gaussianTable 1 1 (middle 1, middle 1) (footprintDeviation 1 1) true⟩⟩ }

/-- The description of this layer alone. -/
def spacedEntry : Value :=
  let one : Value := .map [(.text "type", .text "constant"), (.text "value", .int 1)]
  .map [(.text "type", .text "GradOrientConvolution"), (.text "num_output", .int 1),
    (.text "kernel_size", .int 1), (.text "stride", .int 2), (.text "pad", .int 8), (.text "bias_term", .bool false),
    (.text "weight_filler", one)]

def spacedDescription : Value := .map [(.text "negative_slope", .int 0), (.text "layers", .list [spacedEntry])]

theorem layersOf_spaced : layersOf spacedDescription = .ok [.orientedConv spaced] := by with_unfolding_all rfl

theorem check_spaced : spaced.check = .ok spacedWindows := by with_unfolding_all rfl

theorem not_keepsSizes_spaced : ¬spacedWindows.KeepsSizes := fun h =>
  absurd (h 1 1 Nat.one_pos Nat.one_pos) (by decide)

theorem setUp_spaced : SetUp spacedDescription {} [spacedLayer] none :=
  ⟨rfl, show _ = Except.ok 1 from rfl, rfl, ⟨Journal.empty, by with_unfolding_all rfl⟩, layersOf_spaced,
    ⟨Journal.empty, by with_unfolding_all rfl⟩⟩

theorem usable_spaced : Usable ExactFloat spacedDescription {} where
  channels := fun entries h => by
    obtain rfl := Except.ok.inj h
    exact ⟨1, rfl⟩
  slope := fun entries h => by
    obtain rfl := Except.ok.inj h
    exact ⟨_, rfl⟩
  served := fun component => ⟨⟨component, "torch", {}⟩, by with_unfolding_all rfl⟩
  layers := fun options h o ho => by
    obtain rfl := Except.ok.inj (layersOf_spaced.symm.trans h)
    rw [List.mem_singleton.mp ho]
    have hnone : Value.null.Sized := .inl rfl
    exact {
      outputs := .inr ⟨1, rfl⟩
      groups := .inr ⟨1, rfl⟩
      kernel := ⟨.inr ⟨1, rfl⟩, hnone, hnone⟩
      stride := ⟨.inr ⟨2, rfl⟩, hnone, hnone⟩
      pad := ⟨.inr ⟨8, rfl⟩, hnone, hnone⟩
      sigma := .inl rfl
      deviation := fun g hg => by
        obtain rfl := Except.ok.inj (check_spaced.symm.trans hg)
        show 1 + 1 < 12 * Nat.pow (Nat.pow 2 256) 2
        decide
      weight := ⟨_, rfl, by with_unfolding_all exact ⟨_, rfl, rfl⟩⟩
      bias := fun h => absurd h Bool.false_ne_true }

/-- Such windows keep sixteen rows and columns, but they are refused, and single windows are not. -/
theorem size_test_exact_spaced :
    spacedWindows.outputSize 16 16 = (16, 16) ∧ spacedWindows.keepsSize = false ∧
      (build "" spacedDescription {} : Action Fault (Network ExactFloat ExactFloat)).Results
        (.error (sizeFault spacedLayer)) ∧
      (∃ cause, (build "" spacedDescription {} : Action Fault (Network ExactFloat ExactFloat)).Results
        (.error (.option cause))) ∧
      ∃ n : Network ExactFloat ExactFloat, (build "" singleDescription {}).Returns n := by
  obtain ⟨hexact, hlayers, hdescriptions⟩ := @size_test_exact ExactFloat ExactFloat _ _ _
  obtain ⟨l, hl, -, hrefused⟩ := (hlayers "" _ _ _ _ setUp_spaced).1 ⟨_, List.mem_cons_self, not_keepsSizes_spaced⟩
  obtain rfl := List.mem_singleton.mp hl
  have hworded := hdescriptions "" spacedDescription {} _ _ _ layersOf_spaced List.mem_cons_self check_spaced
    not_keepsSizes_spaced
  obtain ⟨loss, hsetup, hkeeps⟩ := setUp_of_build build_singleNetwork
  obtain ⟨n, hn, -⟩ := (hlayers "" _ _ _ _ hsetup).2 (fun l hl => (hexact _).mp (hkeeps l hl)) (List.cons_ne_nil _ _)
  refine ⟨by decide, ?_, hrefused, hworded.2 usable_spaced, n, hn⟩
  exact Bool.eq_false_iff.mpr fun h => not_keepsSizes_spaced ((hexact _).mp h)

/-- The same layer for a number of channels that is no number. -/
def textChannels : Value := .map [(.text "in_channels", .text "x"), (.text "layers", .list [spacedEntry])]

/-- The layer changes sizes, and the description is refused for its channels instead. -/
theorem textChannels_unreported :
    layersOf textChannels = .ok [.orientedConv spaced] ∧ spaced.check = .ok spacedWindows ∧
      ¬spacedWindows.KeepsSizes ∧
      (build "" textChannels {} : Action Fault (Network ExactFloat ExactFloat)).Results
        (.error (.badValue ("invalid literal for int() with base 10: " ++ quoted "x"))) ∧
      ¬∀ description options o g, layersOf description = .ok options → .orientedConv o ∈ options →
        o.check = .ok g → ¬g.KeepsSizes →
        ∃ cause, (build "" description {} : Action Fault (Network ExactFloat ExactFloat)).Results
          (.error (.option cause)) := by
  have hlayers : layersOf textChannels = .ok [.orientedConv spaced] := by with_unfolding_all rfl
  have hwhole : Value.whole (.text "x") =
      .error (.badValue ("invalid literal for int() with base 10: " ++ quoted "x")) := by
    have hnone : Value.wholeOfText? "x" = none := by decide +kernel
    unfold Value.whole
    simp only [hnone]
  have hbuild : (build "" textChannels {} : Action Fault (Network ExactFloat ExactFloat)).Results
      (.error (.badValue ("invalid literal for int() with base 10: " ++ quoted "x"))) := by
    refine Action.results_bind_of_returns (Action.returns_liftM rfl) (Action.results_bind_of_error ?_)
    show (liftM (Value.whole (.text "x")) : Action Fault ℤ).Results _
    rw [hwhole]
    exact Action.results_liftM _
  refine ⟨hlayers, check_spaced, not_keepsSizes_spaced, hbuild, fun h => ?_⟩
  obtain ⟨cause, hcause⟩ := h _ _ _ _ hlayers List.mem_cons_self check_spaced not_keepsSizes_spaced
  cases (hbuild Journal.empty).symm.trans (hcause Journal.empty)

end Spaced

end Network

end SteeredConv
