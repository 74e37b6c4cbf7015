/-
# What training keeps

The form of a network is all but the entries of its parameters, their gradients and the
shapes that its layers have checked. Passes, evaluations and training steps keep the
form, whether they succeed or fail. What a network needs for its passes to be well
formed depends on the form alone and holds once it is built.

Key definitions: `Network.form`, `Network.Sound`.
Key theorems: `Network.fixes_trainStep`, `Network.fixes_evaluate_form`, `Network.parts_of_build`,
`Network.sound_of_build`.
-/
import SteeredConv.Proofs.NetworkRuns
import SteeredConv.Proofs.Weighting

namespace SteeredConv

/-! ### Forms -/

section Forms

variable {α ω : Type} [Zero α]

/-- A parameter of the same shape with zero entries and without a gradient. -/
def Parameter.blank (p : Parameter α) : Parameter α := .fresh (Tensor.fill p.value.shape 0)

theorem Parameter.blank_congr {p q : Parameter α} (h : p.value.shape = q.value.shape) :
    p.blank = q.blank := by
  unfold blank
  rw [h]

namespace ConvLayer

/-- A layer with blank parameters that has checked nothing yet. -/
def form (l : ConvLayer α ω) : ConvLayer α ω :=
  { l with weight := l.weight.blank, bias := l.bias.map Parameter.blank, lastShape := none }

theorem form_settled (l : ConvLayer α ω) : l.settled.form = l.form := rfl

theorem form_mapParameters {f : Parameter α → Parameter α}
    (hf : ∀ p, (f p).value.shape = p.value.shape) (l : ConvLayer α ω) :
    (l.mapParameters f).form = l.form := by
  have hblank : ∀ p, (f p).blank = p.blank := fun p => Parameter.blank_congr (hf p)
  unfold mapParameters form
  simp only [hblank, Option.map_map]
  congr 1
  exact congrArg (Option.map · l.bias) (funext hblank)

theorem form_withEntries (f : Role → ℕ → α) (l : ConvLayer α ω) : (l.withEntries f).form = l.form := by
  unfold withEntries form
  simp only [Option.map_map]
  rfl

theorem form_accumulate [Add α] (l : ConvLayer α ω) (g : Gradients α) : (l.accumulate g).form = l.form := by
  have hblank : ∀ (p : Parameter α) (t : Option (Tensor α)), (t.elim p p.accumulate).blank = p.blank :=
    fun p t => by cases t <;> rfl
  unfold accumulate form
  simp only [hblank, Option.map_map]
  congr 1
  exact congrArg (Option.map · l.bias) (funext fun p => hblank p g.bias)

end ConvLayer

namespace Network

/-- A network with blank parameters whose layers have checked nothing yet. -/
def form (n : Network α ω) : Network α ω :=
  { n with first := n.first.form, rest := n.rest.map ConvLayer.form }

theorem form_settled (n : Network α ω) : n.settled.form = n.form := by
  unfold settled form
  simp only [List.map_map]
  rfl

theorem form_of_settled {n n' : Network α ω} (h : n'.settled = n.settled) : n'.form = n.form := by
  rw [← form_settled n', h, form_settled]

theorem form_withEntries (f : Place → α) (n : Network α ω) : (n.withEntries f).form = n.form := by
  have hrest : (n.rest.mapIdx fun k l => l.withEntries fun r i => f (k + 1, r, i)).map ConvLayer.form =
      n.rest.map ConvLayer.form := by
    refine List.ext_getElem? fun k => ?_
    rw [List.getElem?_map, List.getElem?_mapIdx, List.getElem?_map, Option.map_map]
    exact congrArg (Option.map · n.rest[k]?) (funext fun l => ConvLayer.form_withEntries _ l)
  unfold withEntries form
  dsimp only
  rw [hrest, ConvLayer.form_withEntries]

theorem length_of_form {n n' : Network α ω} (h : n'.form = n.form) : n'.rest.length = n.rest.length := by
  have hrest : n'.rest.map ConvLayer.form = n.rest.map ConvLayer.form := congrArg Network.rest h
  simpa using congrArg List.length hrest

theorem form_mapParameters {f : Parameter α → Parameter α} (hf : ∀ p, (f p).value.shape = p.value.shape)
    (n : Network α ω) : (n.mapParameters f).form = n.form := by
  unfold mapParameters form
  simp only [ConvLayer.form_mapParameters hf, List.map_map]
  congr 1
  exact congrArg (List.map · n.rest) (funext fun l => ConvLayer.form_mapParameters hf l)

end Network

end Forms

/-! ### Every call keeps the form -/

namespace Network

section Gradients

variable {α ω : Type} [Scalar α]

/-- Adding one gradient for each layer keeps the form. -/
theorem form_accumulate {n : Network α ω} {g : Gradients α × List (Gradients α)}
    (h : g.2.length = n.rest.length) : (n.accumulate g).form = n.form := by
  have hrest : ∀ (ls : List (ConvLayer α ω)) (gs : List (Gradients α)), gs.length = ls.length →
      (List.zipWith (fun l own => l.accumulate own) ls gs).map ConvLayer.form = ls.map ConvLayer.form := by
    intro ls
    induction ls with
    | nil => intro gs _; rfl
    | cons l ls ih =>
      intro gs hgs
      cases gs with
      | nil => cases hgs
      | cons g gs =>
        rw [List.zipWith_cons_cons, List.map_cons, List.map_cons, ih gs (Nat.succ.inj hgs),
          ConvLayer.form_accumulate]
  unfold accumulate form
  dsimp only
  rw [ConvLayer.form_accumulate, hrest _ _ h]

theorem length_back {slope : α} {output c : Tensor α} {stages : List (Stage α)}
    {r : Tensor α × List (Gradients α)} (h : Stage.back slope output stages c = .ok r) :
    r.2.length = stages.length := by
  induction stages generalizing output r with
  | nil =>
    cases h
    rfl
  | cons s rest ih =>
    obtain ⟨later, hlater, h⟩ := bind_eq_ok_iff.mp h
    obtain ⟨own, -, h⟩ := bind_eq_ok_iff.mp h
    obtain ⟨below, -, h⟩ := bind_eq_ok_iff.mp h
    cases h
    exact congrArg Nat.succ (ih hlater)

theorem length_gradients {t : Trace α} {slope : α} {c : Tensor α} {g : Gradients α × List (Gradients α)}
    (h : t.gradients slope c = .ok g) : g.2.length = t.rest.length := by
  obtain ⟨later, hlater, h⟩ := bind_eq_ok_iff.mp h
  obtain ⟨own, -, h⟩ := bind_eq_ok_iff.mp h
  cases h
  exact length_back hlater

end Gradients

variable {α ω : Type} [Scalar α] [Stored α ω] [Directed α α]

theorem length_answers {slope : α} {map : Tensor α} {ls : List (ConvLayer α ω)} {before : Stage α}
    {stages : List (Stage α)} (h : answers slope map ls before = .ok stages) :
    stages.length = ls.length := by
  induction ls generalizing before stages with
  | nil =>
    cases h
    rfl
  | cons l rest ih =>
    obtain ⟨r, -, h⟩ := bind_eq_ok_iff.mp h
    obtain ⟨later, hlater, h⟩ := bind_eq_ok_iff.mp h
    cases h
    exact congrArg Nat.succ (ih hlater)

theorem parts_of_trace {n : Network α ω} {x : Tensor α} {t : Trace α} (h : n.trace x = .ok t) :
    (∃ o, n.first.answer x t.gradientMap = .ok (o, t.first)) ∧
      answers (Stored.narrow n.slope) t.gradientMap n.rest t.first = .ok t.rest := by
  obtain ⟨map, -, h⟩ := bind_eq_ok_iff.mp h
  obtain ⟨⟨o, first⟩, hfirst, h⟩ := bind_eq_ok_iff.mp h
  obtain ⟨rest, hrest, h⟩ := bind_eq_ok_iff.mp h
  obtain rfl := Except.ok.inj h
  exact ⟨⟨o, hfirst⟩, hrest⟩

theorem length_trace {n : Network α ω} {x : Tensor α} {t : Trace α} (h : n.trace x = .ok t) :
    t.rest.length = n.rest.length := length_answers (parts_of_trace h).2

theorem fixes_forward_form (image : Given α) :
    (forward image : Update (Network α ω) Fault (Trace α)).Fixes form :=
  fun n j => form_of_settled (fixes_forward image n j)

/-- Taking the gradients of a loss fixes what clearing, checking and adding gradients fix. -/
theorem fixes_lossOn {υ : Type} {view : Network α ω → υ} (hclear : ∀ n, view n.clear = view n)
    (hcheck : ∀ n n' : Network α ω, n'.settled = n.settled → view n' = view n)
    (hadd : ∀ (n : Network α ω) (g : Gradients α × List (Gradients α)), g.2.length = n.rest.length →
      view (n.accumulate g) = view n) (loss : Option (SimilarityLoss ω)) (b : Batch α) :
    (lossOn loss b).Fixes view := by
  intro n j
  have hsettled := fixes_forward b.image n.clear j
  have hforward := (hcheck _ _ hsettled).trans (hclear n)
  refine Update.view_bind (hclear n) ?_
  rintro _ _ _ ⟨⟩
  refine Update.view_bind hforward fun t n' j' hpass => ?_
  rw [hpass] at hforward hsettled
  obtain ⟨x, -, htrace⟩ := forward_eq_ok_iff.mp (congrArg (fun r => r.1.1) hpass)
  have hlength : t.rest.length = n'.rest.length := by
    rw [length_trace htrace, length_of_form (form_of_settled hsettled)]
  refine Update.view_bind hforward ?_
  rintro _ _ _ ⟨⟩
  refine Update.view_bind hforward fun p n'' j'' hcompare => ?_
  obtain rfl : n' = n'' := congrArg (fun r => r.1.2) hcompare
  refine Update.view_liftM_bind hforward fun c hc => ?_
  refine Update.view_liftM_bind hforward fun g hg => ?_
  -- One gradient is added for each layer.
  exact (hadd n' g ((length_gradients hg).trans hlength)).trans hforward

theorem fixes_lossOn_form (loss : Option (SimilarityLoss ω)) (b : Batch α) : (lossOn loss b).Fixes form :=
  fixes_lossOn (form_mapParameters (f := Parameter.clear) fun _ => rfl) (fun _ _ => form_of_settled)
    (fun _ _ => form_accumulate) loss b

/-- An optimizer only moves entries. -/
theorem fixes_trainStep {σ : Type} (o : Optimizer σ α) (loss : Option (SimilarityLoss ω)) (b : Batch α) :
    (trainStep o loss b).Fixes fun t : Trained σ α ω => t.network.form := by
  intro t j
  dsimp only
  rw [outcome_trainStep]
  have hfixes := fixes_lossOn_form loss b t.network j
  rcases hloss : (lossOn loss b).outcome t.network j with ⟨⟨e | v, n⟩, j'⟩ <;> rw [hloss] at hfixes
  · rw [stepOn_of_failed (congrArg Prod.fst hloss)]
    exact hfixes
  · rw [outcome_stepOn (congrArg Prod.fst hloss)]
    cases o.step t.memory n.parameter? with
    | error e => exact hfixes
    | ok r => exact (form_withEntries r.1 n).trans hfixes

theorem fixes_evaluate_form [Scalar ω] (bs : List (Batch α)) :
    (evaluate bs : Update (Network α ω) Fault (Scores ω)).Fixes form :=
  fun n j => form_of_settled (fixes_evaluate bs n j)

end Network

/-! ### What holds once a network is built -/

/-- The parts of a layer belong to its geometry. -/
structure ConvLayer.Sound {α ω : Type} (l : ConvLayer α ω) : Prop where
  options : ∃ sigma, l.estimator.smoother.options = l.geometry.gaussian sigma
  smoother : l.estimator.smoother.Sound
  square : l.geometry.kernel.1 = l.geometry.kernel.2
  weight : ∃ O B, l.weight.value.shape = [O, B, l.geometry.kernel.1, l.geometry.kernel.2]
  bias : ∀ b ∈ l.bias, b.value.shape = [l.weight.value.extent 0]

/-- The smoother of a comparator has the table of its windows, and the table weighs. -/
structure SimilarityLoss.Sound (l : SimilarityLoss ℝ) : Prop where
  smoother : l.smoother.Sound
  weighs : l.smoother.table.Weighs

/-- The parts of a network are sound. -/
structure Network.Sound (n : Network ℝ ℝ) : Prop where
  first : n.first.Sound
  rest : ∀ l ∈ n.rest, l.Sound
  loss : n.loss.Sound

section Built

variable {α ω : Type}

/-- The middle of a range and the mean, drawn for every entry. -/
@[reducible]
def Draws.middling (α ω : Type) [Scalar ω] [Stored α ω] : Draws α ω where
  spans _ _ := true
  spreads _ := true
  between low high _ _ := Stored.narrow ((low + high) / ((2 : ℕ) : ω))
  around mean _ _ _ := Stored.narrow mean
  spans_fanRoot _ _ := rfl
  spreads_fanRoot _ _ := rfl

theorem ConvLayer.sound_form [Zero α] {l : ConvLayer α ω} : l.form.Sound ↔ l.Sound := by
  constructor
  · intro h
    refine ⟨h.options, h.smoother, h.square, h.weight, fun b hb => ?_⟩
    exact h.bias b.blank (Option.mem_map_of_mem _ hb)
  · intro h
    refine ⟨h.options, h.smoother, h.square, h.weight, fun b hb => ?_⟩
    obtain ⟨b', hb', rfl⟩ := Option.mem_map.mp hb
    exact h.bias b' hb'

theorem shape_filledBy [Scalar ω] [Stored α ω] [Draws α ω] {s : Setting} {shape : List ℕ} {t : Tensor α}
    (h : filledBy s shape = .ok t) : t.shape = shape := by
  cases s with
  | filler o =>
    obtain ⟨_, -, rfl⟩ := map_eq_ok_iff.mp h
    rfl
  | value v => cases h
  | elementType e => cases h

theorem kernel_of_check {o : OrientedConvOptions} {g : Geometry} (h : o.check = .ok g) :
    g.kernel.1 = g.kernel.2 := by
  unfold OrientedConvOptions.check at h
  obtain ⟨_, -, h⟩ := bind_eq_ok_iff.mp h
  obtain ⟨_, -, h⟩ := bind_eq_ok_iff.mp h
  obtain ⟨_, -, h⟩ := bind_eq_ok_iff.mp h
  obtain ⟨kernel, -, h⟩ := bind_eq_ok_iff.mp h
  obtain ⟨stride, -, h⟩ := bind_eq_ok_iff.mp h
  obtain ⟨pad, -, h⟩ := bind_eq_ok_iff.mp h
  obtain ⟨g', hg, h⟩ := bind_eq_ok_iff.mp h
  dsimp only at h
  split at h
  · cases h
  · rename_i hsquare
    obtain ⟨_, -, h⟩ := bind_eq_ok_iff.mp h
    obtain rfl := Except.ok.inj h
    rw [Smoother.kernel_of_ofPairs hg, not_not.mp hsquare]

theorem check_of_accept {o : OrientedConvOptions} {inChannels : Value} {g : Geometry}
    (h : (ConvLayer.accept o inChannels).Gives g) : o.check = .ok g := by
  obtain ⟨g', hresolve, h⟩ := Action.gives_bind h
  obtain ⟨_, -, h⟩ := Action.gives_bind h
  obtain rfl := Action.gives_pure h
  obtain ⟨g'', hcheck, hresolve⟩ := Action.gives_bind hresolve
  obtain ⟨_, -, hresolve⟩ := Action.gives_bind hresolve
  obtain rfl := Action.gives_pure hresolve
  exact Action.gives_liftM hcheck

theorem exists_of_weightShape {o : OrientedConvOptions} {g : Geometry} {inChannels : Value} {shape : List ℕ}
    (h : ConvLayer.weightShape o g inChannels = .ok shape) :
    ∃ O B, shape = [O, B, g.kernel.1, g.kernel.2] := by
  obtain ⟨n, -, h⟩ := bind_eq_ok_iff.mp h
  split at h
  · cases h
    exact ⟨_, _, rfl⟩
  · cases h

/-- The parts that are made for a geometry: an estimator with its windows, kernels of its size and
a bias with one entry for each. -/
theorem parts_of_allocate [Scalar ω] [Stored α ω] [Draws α ω] {o : OrientedConvOptions} {globals : GlobalOptions}
    {g : Geometry} {inChannels : Value} {parts : ConvLayer.Parts α ω}
    (h : (ConvLayer.allocate o globals g inChannels).Gives parts) :
    parts.estimator.smoother.options = g.gaussian o.gaussianSigma ∧ parts.estimator.smoother.Sound ∧
      ∃ O B, parts.weight.shape = [O, B, g.kernel.1, g.kernel.2] ∧ ∀ b ∈ parts.bias, b.shape = [O] := by
  obtain ⟨estimator, hestimator, h⟩ := Action.gives_bind h
  obtain ⟨hoptions, hsound⟩ := Smoother.sound_of_create (Estimator.smoother_of_create hestimator)
  obtain ⟨shape, hshape, h⟩ := Action.gives_bind h
  obtain ⟨weight, hweight, h⟩ := Action.gives_bind h
  obtain ⟨O, B, rfl⟩ := exists_of_weightShape (Action.gives_liftM hshape)
  have hfill := shape_filledBy (Action.gives_liftM hweight)
  dsimp only at h
  split at h
  · obtain ⟨bias, hbias, h⟩ := Action.gives_bind h
    obtain ⟨b, hb, rfl⟩ := Action.gives_map hbias
    obtain rfl := Action.gives_pure h
    refine ⟨hoptions, hsound, O, B, hfill, ?_⟩
    rintro _ ⟨⟩
    exact shape_filledBy (Action.gives_liftM hb)
  · obtain ⟨bias, hbias, h⟩ := Action.gives_bind h
    obtain rfl := Action.gives_pure hbias
    obtain rfl := Action.gives_pure h
    exact ⟨hoptions, hsound, O, B, hfill, fun b hb => by cases hb⟩

/-- A layer that is built has the parts of its geometry. -/
theorem ConvLayer.sound_of_build [Scalar ω] [Stored α ω] [Draws α ω] {o : OrientedConvOptions}
    {globals : GlobalOptions} {inChannels : Value} {l : ConvLayer α ω}
    (h : (ConvLayer.build o globals inChannels).Gives l) :
    l.Sound := by
  obtain ⟨g, hg, h⟩ := Action.gives_bind (Action.gives_reporting h)
  obtain ⟨parts, hparts, h⟩ := Action.gives_bind h
  obtain ⟨_, -, h⟩ := Action.gives_bind h
  obtain rfl := Action.gives_pure h
  obtain ⟨hoptions, hsound, O, B, hweight, hbias⟩ := parts_of_allocate hparts
  refine ⟨⟨o.gaussianSigma, hoptions⟩, hsound, kernel_of_check (check_of_accept hg), ⟨O, B, hweight⟩, ?_⟩
  intro p hp
  obtain ⟨b, hb, rfl⟩ := Option.mem_map.mp hp
  show b.shape = [parts.weight.extent 0]
  rw [(Tensor.extents hweight).1, hbias b hb]

/-- The options of a comparator are resolved for its windows and once more for its smoother. -/
theorem SimilarityLoss.parts_of_build {o : SimilarityOptions} {globals : GlobalOptions} {l : SimilarityLoss ℝ}
    (h : (SimilarityLoss.build o globals).Gives l) : o.resolve.Gives l.geometry ∧
      ∃ g, o.resolve.Gives g ∧ (Smoother.create (g.gaussian o.gaussianSigma) globals).Gives l.smoother := by
  obtain ⟨windows, hwindows, h⟩ := Action.gives_bind (Action.gives_reporting h)
  obtain ⟨gaussian, hgaussian, h⟩ := Action.gives_bind h
  obtain ⟨smoother, hsmoother, h⟩ := Action.gives_bind h
  obtain ⟨_, -, h⟩ := Action.gives_bind h
  obtain rfl := Action.gives_pure h
  obtain ⟨g, hg, hgaussian⟩ := Action.gives_bind hgaussian
  obtain rfl := Action.gives_pure hgaussian
  exact ⟨hwindows, g, hg, hsmoother⟩

/-- A comparator that is built has a normalized table. -/
theorem SimilarityLoss.sound_of_build {o : SimilarityOptions} {globals : GlobalOptions} {l : SimilarityLoss ℝ}
    (h : (SimilarityLoss.build o globals).Gives l) : l.Sound := by
  obtain ⟨-, g, -, hsmoother⟩ := parts_of_build h
  exact ⟨(Smoother.sound_of_create hsmoother).2, Smoother.weighs_of_create rfl hsmoother⟩

namespace Network

variable [Draws ℝ ℝ]

/-- The layers of a description are sound, and its comparators are built. -/
theorem parts_of_stack {globals : GlobalOptions} {options : List LayerOptions} {channels : Value}
    {r : List (ConvLayer ℝ ℝ) × Option (SimilarityLoss ℝ)} (h : (stack globals channels options).Gives r) :
    (∀ l ∈ r.1, l.Sound) ∧ ∀ l ∈ r.2, ∃ o, (SimilarityLoss.build o globals).Gives l := by
  induction options generalizing channels r with
  | nil =>
    obtain rfl := Action.gives_pure h
    constructor <;> intro l hl <;> cases hl
  | cons o rest ih =>
    cases o with
    | orientedConv o =>
      obtain ⟨layer, hlayer, h⟩ := Action.gives_bind h
      obtain ⟨later, hlater, h⟩ := Action.gives_bind h
      obtain rfl := Action.gives_pure h
      obtain ⟨hlayers, hloss⟩ := ih hlater
      exact ⟨List.forall_mem_cons.mpr ⟨ConvLayer.sound_of_build hlayer, hlayers⟩, hloss⟩
    | similarity o =>
      obtain ⟨own, hown, h⟩ := Action.gives_bind h
      obtain ⟨later, hlater, h⟩ := Action.gives_bind h
      obtain rfl := Action.gives_pure h
      obtain ⟨hlayers, hloss⟩ := ih hlater
      refine ⟨hlayers, fun l hl => ?_⟩
      obtain rfl := Option.some.inj hl
      cases hlater : later.2 with
      | none => exact ⟨o, hown⟩
      | some l => exact hloss l hlater

/-- A network that is built has sound layers and a comparator that is built. -/
theorem parts_of_build {source : String} {description : Value} {globals : GlobalOptions} {n : Network ℝ ℝ}
    (h : (build source description globals).Gives n) : (n.first.Sound ∧ ∀ l ∈ n.rest, l.Sound) ∧
      ∃ o, (SimilarityLoss.build o globals).Gives n.loss := by
  obtain ⟨_, -, h⟩ := Action.gives_bind h
  obtain ⟨_, -, h⟩ := Action.gives_bind h
  obtain ⟨_, -, h⟩ := Action.gives_bind h
  obtain ⟨_, -, h⟩ := Action.gives_bind h
  obtain ⟨options, -, h⟩ := Action.gives_bind h
  obtain ⟨r, hr, h⟩ := Action.gives_bind h
  obtain ⟨hlayers, hloss⟩ := parts_of_stack hr
  split at h
  · exact absurd h Action.not_gives_throw
  · rename_i first rest loss
    have hsound := List.forall_mem_cons.mp hlayers
    obtain ⟨_, -, h⟩ := Action.gives_bind h
    dsimp only at h
    split at h
    · obtain ⟨loss, hown, h⟩ := Action.gives_bind h
      obtain rfl := Action.gives_pure hown
      obtain ⟨_, -, h⟩ := Action.gives_bind h
      obtain rfl := Action.gives_pure h
      exact ⟨hsound, hloss _ rfl⟩
    · obtain ⟨loss, hdefault, h⟩ := Action.gives_bind h
      obtain ⟨_, -, h⟩ := Action.gives_bind h
      obtain rfl := Action.gives_pure h
      exact ⟨hsound, {}, hdefault⟩

/-- The parts of a network that is built are sound. -/
theorem sound_of_build {source : String} {description : Value} {globals : GlobalOptions} {n : Network ℝ ℝ}
    (h : (build source description globals).Gives n) : n.Sound := by
  obtain ⟨⟨hfirst, hrest⟩, _, hloss⟩ := parts_of_build h
  exact ⟨hfirst, hrest, SimilarityLoss.sound_of_build hloss⟩

end Network

end Built
end SteeredConv
