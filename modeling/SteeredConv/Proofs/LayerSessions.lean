/-
# Layers at work

However a layer is set up again, filled, checked, run forward and backward and cleared,
its options stay, its geometry is the one that the options resolve to, and its
parameters and their gradients have the sizes of its channels.

A setup for a whole number of channels and a check that fail leave the layer as it was.
A pass that fails changes at most the shape that is remembered, and only to a shape that
has passed the check: in `failed_pass_is_remembered` a pass over numbers of another type
does so.

Arrays of any size can be made here. Setups are for whole numbers of channels.

Key definitions: `Parameter.Graded`, `ConvLayer.Intact`, `ConvLayer.Admits`, `ConvTape.Suits`, `ConvSession.Works`,
`LayerStep.Whole`, `ConvSession.Reached`, `ConvSession.Spared`, `ConvSession.answered`.
Key theorems: `extent_of_steer`, `ForwardPass.shapes_of_gradients`, `exists_filled`,
`ConvLayer.setup_cases`, `ConvSession.step_works`, `ConvSession.intact_throughout`.
-/
import SteeredConv.Layer.Session
import SteeredConv.Proofs.Borders
import SteeredConv.Proofs.LayerShapes
import SteeredConv.Proofs.OneIndex

namespace SteeredConv

open Tensor

/-! ### The sizes of gradients -/

/-- The gradient of a parameter, if there is one, has its shape. -/
def Parameter.Graded {α : Type} (p : Parameter α) : Prop := ∀ g ∈ p.gradient, g.shape = p.value.shape

namespace Parameter

variable {α : Type} {p q : Parameter α}

theorem graded_fresh (t : Tensor α) : (fresh t).Graded := fun _ h => absurd h (Option.not_mem_none _)

theorem graded_clear (p : Parameter α) : p.clear.Graded := fun _ h => absurd h (Option.not_mem_none _)

theorem Graded.assign [Zero α] {source : Tensor α} (hp : p.Graded) (h : p.assign? source = some q) : q.Graded := by
  have hshape := shape_assign? h
  obtain ⟨value, -, rfl⟩ := Option.map_eq_some_iff.mp h
  intro g hg
  rw [hshape]
  exact hp g hg

theorem Graded.accumulate [Zero α] [Add α] (hp : p.Graded) {g : Tensor α} (hg : g.shape = p.value.shape) :
    (p.accumulate g).Graded := by
  intro t ht
  obtain rfl := Option.mem_some_iff.mp ht
  cases hold : p.gradient with
  | none => exact hg
  | some old => exact hp old hold

end Parameter

section Shapes

variable {α : Type} [Zero α] [Add α] [Mul α] {s : Sweep} {groups : ℕ} {x w q y : Tensor α} {bias : Option (Tensor α)}

theorem commonExtent?_self (a : ℕ) : commonExtent? a a = some a := if_pos (Or.inl rfl)

theorem extent_of_weightedResponse {r : ℕ} (h : weightedResponse s groups x w q r = .ok y) :
    ∃ N I J, y.shape = [N, w.extent 0, I, J] := by
  obtain ⟨response, hresponse, h⟩ := bind_eq_ok_iff.mp h
  obtain ⟨N, C, I, J, -, hC, -, -, rfl⟩ := combine?_eq_some_iff.mp (fitting_eq_ok_iff.mp h)
  unfold correlate? at hresponse
  split at hresponse
  · obtain rfl := Except.ok.inj hresponse
    obtain rfl : w.extent 0 = C := Option.some.inj ((commonExtent?_one _).symm.trans hC)
    exact ⟨N, I, J, rfl⟩
  · cases hresponse

/-- The output of a convolution has a channel for each kernel. -/
theorem extent_of_steer (h : steer s groups x w bias q = .ok y) (hbias : ∀ b ∈ bias, b.shape = [w.extent 0]) :
    ∃ N I J, y.shape = [N, w.extent 0, I, J] := by
  obtain ⟨_, -, h⟩ := bind_eq_ok_iff.mp h
  obtain ⟨x', -, h⟩ := bind_eq_ok_iff.mp h
  obtain ⟨t, ht, h⟩ := bind_eq_ok_iff.mp h
  obtain ⟨first, hfirst, ht⟩ := bind_eq_ok_iff.mp ht
  obtain ⟨_, -, ht⟩ := bind_eq_ok_iff.mp ht
  obtain ⟨_, -, ht⟩ := bind_eq_ok_iff.mp ht
  obtain ⟨_, -, ht⟩ := bind_eq_ok_iff.mp ht
  have hshape : t.shape = first.shape := by
    rw [← Except.ok.inj ht]
    rfl
  obtain ⟨N, I, J, hN⟩ := extent_of_weightedResponse hfirst
  rw [hN] at hshape
  cases bias with
  | none =>
    obtain rfl := Except.ok.inj h
    exact ⟨N, I, J, hshape⟩
  | some b =>
    obtain ⟨C, hC, rfl⟩ := combine_biasImage_eq_some_iff.mp (fitting_eq_ok_iff.mp h)
    have hb : (biasImage b).extent 1 = w.extent 0 := by
      show b.size = w.extent 0
      unfold size
      rw [hbias b rfl, volume_cons, volume_nil, Nat.mul_one]
    rw [(extents hshape).2.1, hb, commonExtent?_self] at hC
    obtain rfl := Option.some.inj hC
    exact ⟨_, _, _, rfl⟩

omit [Zero α] [Add α] [Mul α] in
/-- What is wanted is made, and nothing else is. -/
theorem exists_wanted {γ : Type} {wanted : Bool} {a : Except Fault α} {f : Option α → Except Fault γ} {c : γ}
    (h : (if wanted = true then some <$> a >>= f else pure none >>= f) = .ok c) :
    ∃ b, (∀ t ∈ b, a = .ok t) ∧ f b = .ok c := by
  cases wanted with
  | false => exact ⟨none, fun _ ht => absurd ht (Option.not_mem_none _), h⟩
  | true =>
    cases a with
    | error e => cases h
    | ok t =>
      refine ⟨some t, fun t' ht => ?_, h⟩
      rw [Option.mem_some_iff.mp ht]

/-- The gradients of a pass have the shapes of its kernels and one entry of the bias for each channel of
the cotangent. -/
theorem ForwardPass.shapes_of_gradients {p : ForwardPass α} {r : Requested} {c : Tensor α}
    {g : Gradients α} (h : p.gradients r c = .ok g) :
    (∀ t ∈ g.weight, t.shape = p.weight.shape) ∧ ∀ t ∈ g.bias, t.shape = [c.extent 1] := by
  obtain ⟨cotangent, -, h⟩ := bind_eq_ok_iff.mp h
  obtain ⟨_, -, h⟩ := bind_eq_ok_iff.mp h
  obtain ⟨input, -, h⟩ := exists_wanted h
  obtain ⟨weight, hweight, h⟩ := exists_wanted h
  obtain ⟨bias, hbias, h⟩ := exists_wanted h
  obtain rfl := Except.ok.inj h
  constructor
  · intro t ht
    obtain ⟨_, -, hfold⟩ := bind_eq_ok_iff.mp (hweight t ht)
    obtain ⟨_, -, hfold⟩ := bind_eq_ok_iff.mp hfold
    obtain ⟨_, -, hfold⟩ := bind_eq_ok_iff.mp hfold
    obtain ⟨_, -, hfold⟩ := bind_eq_ok_iff.mp hfold
    rw [← Except.ok.inj hfold]
    rfl
  · intro t ht
    have hsum := hbias t ht
    unfold biasGradient at hsum
    split at hsum
    · cases hsum
    · rw [← Except.ok.inj hsum]
      rfl

end Shapes

/-! ### Fillers for other sizes -/

section Filling

variable {α ω : Type} [Scalar ω] {shape other : List ℕ}

/-- Some entries feed one output. -/
def HasFan (shape : List ℕ) : Prop := ∃ fan, fanIn shape = .ok fan ∧ fan ≠ 0

theorem hasFan_kernels {O B a b : ℕ} (hO : 0 < O) (hB : 0 < B) (ha : 0 < a) (hb : 0 < b) : HasFan [O, B, a, b] := by
  refine ⟨volume [B, a, b], if_neg hO.ne', Nat.ne_of_gt ?_⟩
  simp [volume_cons, hB, ha, hb]

variable [Draws α ω]

theorem exists_drawBetween {low high : ω} {f : ℕ → α} (h : drawBetween low high shape = .ok f) (other : List ℕ) :
    ∃ f' : ℕ → α, drawBetween low high other = .ok f' := by
  unfold drawBetween at h ⊢
  split at h
  · rename_i hspans
    exact ⟨_, if_pos hspans⟩
  · cases h

theorem exists_drawAround {mean deviation : ω} {f : ℕ → α} (h : drawAround mean deviation shape = .ok f)
    (other : List ℕ) : ∃ f' : ℕ → α, drawAround mean deviation other = .ok f' := by
  unfold drawAround at h ⊢
  split at h
  · rename_i hspreads
    exact ⟨_, if_pos hspreads⟩
  · cases h

theorem exists_drawBetween_fanScale (h : HasFan shape) :
    ∃ f : ℕ → α, (fanScale 3 shape >>= fun scale => drawBetween (-scale) scale shape) = .ok f := by
  obtain ⟨fan, hfan, hne⟩ := h
  unfold fanScale drawBetween
  rw [hfan, ok_bind, if_neg hne]
  exact ⟨_, if_pos (Draws.spans_fanRoot fan hne)⟩

theorem exists_drawAround_fanScale (h : HasFan shape) :
    ∃ f : ℕ → α, (fanScale 2 shape >>= fun deviation => drawAround 0 deviation shape) = .ok f := by
  obtain ⟨fan, hfan, hne⟩ := h
  unfold fanScale drawAround
  rw [hfan, ok_bind, if_neg hne]
  exact ⟨_, if_pos (Draws.spreads_fanRoot fan hne)⟩

variable [Stored α ω]

/-- A filler that fills one array fills every array of which some entries feed one output. -/
theorem exists_entries {o : FillerOptions} {f : ℕ → α} (h : o.entries shape = .ok f) (hfan : HasFan other) :
    ∃ f' : ℕ → α, o.entries other = .ok f' := by
  unfold FillerOptions.entries at h ⊢
  cases htype : o.type with
  | text name =>
    rw [htype] at h
    cases hkind : FillerKind.ofName? (inSmallLetters name) with
    | none => simp [hkind] at h
    | some kind =>
      simp only [hkind] at h ⊢
      cases kind with
      | constant => exact ⟨f, h⟩
      | uniform =>
        obtain ⟨exceeds, hexceeds, h⟩ := bind_eq_ok_iff.mp h
        rw [hexceeds, ok_bind]
        dsimp only at h ⊢
        split at h
        · cases h
        · rename_i hordered
          obtain ⟨low, hlow, h⟩ := bind_eq_ok_iff.mp h
          obtain ⟨high, hhigh, h⟩ := bind_eq_ok_iff.mp h
          obtain ⟨f', hf'⟩ := exists_drawBetween h other
          refine ⟨f', ?_⟩
          rw [if_neg hordered, hlow, ok_bind, hhigh, ok_bind, hf']
      | gaussian =>
        obtain ⟨none, hnone, h⟩ := bind_eq_ok_iff.mp h
        rw [hnone, ok_bind]
        dsimp only at h ⊢
        split at h
        · cases h
        · rename_i hpositive
          obtain ⟨mean, hmean, h⟩ := bind_eq_ok_iff.mp h
          obtain ⟨deviation, hdeviation, h⟩ := bind_eq_ok_iff.mp h
          obtain ⟨f', hf'⟩ := exists_drawAround h other
          refine ⟨f', ?_⟩
          rw [if_neg hpositive, hmean, ok_bind, hdeviation, ok_bind, hf']
      | xavier => exact exists_drawBetween_fanScale hfan
      | msra => exact exists_drawAround_fanScale hfan
  | _ =>
    rw [htype] at h
    cases h

theorem exists_filled {s : Setting} {t : Tensor α} (h : filledBy s shape = .ok t) (hfan : HasFan other) :
    ∃ t' : Tensor α, filledBy s other = .ok t' := by
  cases s with
  | filler o =>
    obtain ⟨f, hf, -⟩ := map_eq_ok_iff.mp h
    obtain ⟨f', hf'⟩ := exists_entries hf hfan
    exact ⟨ofFlat other f', map_eq_ok_iff.mpr ⟨f', hf', rfl⟩⟩
  | value v => cases h
  | elementType e => cases h

end Filling

/-! ### What holds of a layer throughout -/

section Layers

variable {α ω : Type} {o : OrientedConvOptions} {l : ConvLayer α ω}

namespace ConvLayer

/-- A layer of the given options: its geometry is what they resolve to, its kernels are square, the numbers of
its channels are multiples of its number of groups, its parameters have the sizes that belong to them, the bias
is there if it is wanted, and every gradient has the shape of its parameter. -/
structure Intact (o : OrientedConvOptions) (l : ConvLayer α ω) : Prop where
  options_eq : l.options = o
  resolves : o.resolve.Returns l.geometry
  square : l.geometry.kernel.1 = l.geometry.kernel.2
  sizes : ∃ G B P : ℕ, 0 < G ∧ 0 < B ∧ 0 < P ∧ o.group.number? = some (.whole G) ∧
    l.inChannels = .int (G * B : ℕ) ∧ o.numOutput = .int (G * P : ℕ) ∧
    l.weight.value.shape = [G * P, B, l.geometry.kernel.1, l.geometry.kernel.2] ∧
    (o.biasTerm.isTrue = false → l.bias = none) ∧
    (o.biasTerm.isTrue = true → ∃ b, l.bias = some b ∧ b.value.shape = [G * P])
  graded : ∀ e ∈ l.parameters, e.2.Graded

/-- What is fitted to a whole number of channels is intact. -/
theorem Fitted.intact {groups B P : ℕ} {n : ℤ} (h : l.Fitted groups B P) (hn : l.inChannels = .int n)
    (hcheck : l.options.check = .ok l.geometry) (hbias : l.bias.isSome = l.options.biasTerm.isTrue)
    (hgraded : ∀ e ∈ l.parameters, e.2.Graded) : l.Intact l.options := by
  obtain rfl := h.channels_eq hn
  refine ⟨rfl, ?_, h.sound.square, ⟨groups, B, P, h.groups_pos, h.inputs_pos, h.outputs_pos, h.group, hn, h.outputs,
    h.kernel, ?_, ?_⟩, hgraded⟩
  · exact Action.returns_bind (Action.returns_liftM hcheck)
      (Action.returns_bind (Action.returns_warnIf _ _) (Action.returns_pure _))
  · intro hterm
    rw [hterm] at hbias
    exact Option.not_isSome_iff_eq_none.mp (by rw [hbias]; exact Bool.false_ne_true)
  · intro hterm
    rw [hterm] at hbias
    obtain ⟨b, hb⟩ := Option.isSome_iff_exists.mp hbias
    refine ⟨b, hb, ?_⟩
    rw [h.sound.bias b hb, (extents h.kernel).1]

theorem forall_parameters {q : Parameter α → Prop} :
    (∀ e ∈ l.parameters, q e.2) ↔ q l.weight ∧ ∀ b ∈ l.bias, q b := by
  unfold parameters
  simp

/-- A layer stays intact in another of its form whose gradients fit. -/
theorem Intact.congr [Zero α] {l' : ConvLayer α ω} (h : l.Intact o) (hform : l'.form = l.form)
    (hgraded : ∀ e ∈ l'.parameters, e.2.Graded) : l'.Intact o := by
  have hoptions : l'.options = l.options := (congrArg ConvLayer.options hform :)
  have hchannels : l'.inChannels = l.inChannels := (congrArg ConvLayer.inChannels hform :)
  have hgeometry : l'.geometry = l.geometry := (congrArg ConvLayer.geometry hform :)
  have hweight : l'.weight.value.shape = l.weight.value.shape :=
    (congrArg (fun m : ConvLayer α ω => m.weight.value.shape) hform :)
  have hbias : l'.bias.map Parameter.blank = l.bias.map Parameter.blank := congrArg ConvLayer.bias hform
  obtain ⟨G, B, P, hG, hB, hP, hgroup, hin, hout, hkernel, hnone, hsome⟩ := h.sizes
  refine ⟨hoptions.trans h.options_eq, hgeometry ▸ h.resolves, hgeometry ▸ h.square,
    ⟨G, B, P, hG, hB, hP, hgroup, hchannels.trans hin, hout, ?_, fun hterm => ?_, fun hterm => ?_⟩, hgraded⟩
  · rw [hweight, hgeometry, hkernel]
  · rw [hnone hterm] at hbias
    exact Option.map_eq_none_iff.mp hbias
  · obtain ⟨b, hb, hshape⟩ := hsome hterm
    rw [hb, Option.map_some, Option.map_eq_some_iff] at hbias
    obtain ⟨b', hb', hblank⟩ := hbias
    refine ⟨b', hb', ?_⟩
    rw [← hshape]
    exact (congrArg (fun p : Parameter α => p.value.shape) hblank :)

theorem graded_of_parts {parts : Parts α ω} (hweight : l.weight = .fresh parts.weight)
    (hbias : l.bias = parts.bias.map .fresh) : ∀ e ∈ l.parameters, e.2.Graded := by
  rw [forall_parameters]
  refine ⟨hweight ▸ Parameter.graded_fresh _, fun b hb => ?_⟩
  rw [hbias] at hb
  obtain ⟨t, -, rfl⟩ := Option.mem_map.mp hb
  exact Parameter.graded_fresh t

/-- The bias has an entry for each kernel. -/
theorem Intact.shape_bias (h : l.Intact o) : ∀ b ∈ l.bias, b.value.shape = [l.weight.value.extent 0] := by
  obtain ⟨G, B, P, -, -, -, -, -, -, hkernel, hnone, hsome⟩ := h.sizes
  intro b hb
  cases hterm : o.biasTerm.isTrue with
  | false =>
    rw [hnone hterm] at hb
    exact absurd hb (Option.not_mem_none b)
  | true =>
    obtain ⟨b', hb', hshape⟩ := hsome hterm
    obtain rfl : b' = b := Option.some.inj (hb'.symm.trans hb)
    rw [hshape, (extents hkernel).1]

/-! ### Changes of a layer -/

/-- Setting a parameter keeps the form of a layer and its gradients. -/
theorem assign_keeps [Zero α] [Add α] [Element α] {l' : ConvLayer α ω} {name : String} {source : AnyTensor}
    (h : l.assign name source = .ok l') : l'.form = l.form ∧
      ((∀ e ∈ l.parameters, e.2.Graded) → ∀ e ∈ l'.parameters, e.2.Graded) := by
  simp only [forall_parameters]
  unfold assign at h
  split at h
  · obtain ⟨weight, hweight, h⟩ := bind_eq_ok_iff.mp h
    obtain rfl := Except.ok.inj h
    have hassign := fitting_eq_ok_iff.mp hweight
    refine ⟨?_, fun hgraded => ⟨hgraded.1.assign hassign, hgraded.2⟩⟩
    unfold form
    rw [Parameter.blank_congr (Parameter.shape_assign? hassign)]
  · rename_i b hb
    obtain ⟨bias, hbias, h⟩ := bind_eq_ok_iff.mp h
    obtain rfl := Except.ok.inj h
    have hassign := fitting_eq_ok_iff.mp hbias
    refine ⟨?_, fun hgraded => ⟨hgraded.1, fun b' hb' => ?_⟩⟩
    · unfold form
      rw [hb, Option.map_some, Option.map_some, Parameter.blank_congr (Parameter.shape_assign? hassign)]
    · obtain rfl := Option.mem_some_iff.mp hb'
      exact (hgraded.2 b hb).assign hassign
  · cases h

/-- Adding gradients of the right shapes keeps gradients right. -/
theorem graded_accumulate [Zero α] [Add α] {g : Gradients α} (h : ∀ e ∈ l.parameters, e.2.Graded)
    (hweight : ∀ t ∈ g.weight, t.shape = l.weight.value.shape)
    (hbias : ∀ t ∈ g.bias, ∀ b ∈ l.bias, t.shape = b.value.shape) : ∀ e ∈ (l.accumulate g).parameters, e.2.Graded := by
  rw [forall_parameters] at h ⊢
  obtain ⟨hw, hb⟩ := h
  have helim : ∀ {p : Parameter α} {t : Option (Tensor α)}, p.Graded → (∀ u ∈ t, u.shape = p.value.shape) →
      (t.elim p p.accumulate).Graded := fun {p t} hp ht => by
    cases t with
    | none => exact hp
    | some u => exact hp.accumulate (ht u rfl)
  refine ⟨helim hw hweight, fun b hmem => ?_⟩
  obtain ⟨b', hb', rfl⟩ := Option.mem_map.mp hmem
  exact helim (hb b' hb') fun u hu => hbias u hu b' hb'

theorem graded_clear : ∀ e ∈ (l.mapParameters Parameter.clear).parameters, e.2.Graded := by
  rw [forall_parameters]
  refine ⟨Parameter.graded_clear _, fun b hb => ?_⟩
  obtain ⟨b', -, rfl⟩ := Option.mem_map.mp hb
  exact Parameter.graded_clear b'

/-- The check of a batch of this shape and its map succeeds. -/
def Admits (l : ConvLayer α ω) (a b : Operand) (input : List ℕ) : Prop :=
  ∃ map size, shapesOf a b = .ok (input, map) ∧ l.sizeFor input map = .ok size

theorem reshape_of_shapes (a b : Operand) (l : ConvLayer α ω) (j : Journal) :
    ((reshape a b).outcome l j).1 = match shapesOf a b with
      | .error e => (.error e, l)
      | .ok (input, map) => ((settle input map).outcome l j).1 := by
  unfold reshape
  rw [outcome_loggedChange, Update.outcome_bind, Update.outcome_liftM]
  cases shapesOf a b with
  | error e => rfl
  | ok shapes => rfl

/-- A check of operands: what it gives and the layer that it leaves. -/
theorem outcome_reshape (a b : Operand) (l : ConvLayer α ω) (j : Journal) :
    (∃ e, (∀ input, ¬l.Admits a b input) ∧ ((reshape a b).outcome l j).1 = (.error e, l)) ∨
      ∃ input size, l.Admits a b input ∧
        ((reshape a b).outcome l j).1 = (.ok size, { l with lastShape := some input }) := by
  rw [reshape_of_shapes]
  cases hshapes : shapesOf a b with
  | error e =>
    refine .inl ⟨e, ?_, rfl⟩
    rintro input ⟨map, size, hok, -⟩
    cases hshapes.symm.trans hok
  | ok shapes =>
    obtain ⟨input, map⟩ := shapes
    dsimp only
    rw [outcome_settle]
    cases hsize : l.sizeFor input map with
    | error e =>
      refine .inl ⟨e, ?_, rfl⟩
      rintro input' ⟨map', size, hok, hsize'⟩
      obtain ⟨rfl, rfl⟩ := Prod.mk.inj (Except.ok.inj (hshapes.symm.trans hok))
      cases hsize.symm.trans hsize'
    | ok size => exact .inr ⟨input, size, ⟨map, size, hshapes, hsize⟩, rfl⟩

end ConvLayer

end Layers

/-! ### Setups -/

section Setup

variable {α ω : Type} [Scalar ω] {o : OrientedConvOptions} {globals : GlobalOptions} {g : Geometry}

theorem Operator.steady_create (component : Component) (globals : GlobalOptions) :
    (Operator.create component globals).Steady := by
  cases hcheck : Operator.check component globals with
  | ok op => exact (Operator.returns_create hcheck).steady
  | error e =>
    refine ⟨.error e, Action.results_bind_of_error ?_⟩
    rw [hcheck]
    exact Action.results_liftM _

theorem Smoother.steady_create (o : GaussianOptions) (globals : GlobalOptions) :
    (Smoother.create o globals : Action Fault (Smoother ω)).Steady :=
  (Operator.steady_create _ globals).bind fun _ => (Action.steady_liftM _).bind fun _ =>
    (Action.steady_liftM _).bind fun _ => Action.steady_pure _

theorem Estimator.steady_create (o : GaussianOptions) (globals : GlobalOptions) :
    (Estimator.create o globals : Action Fault (Estimator ω)).Steady :=
  (Operator.steady_create _ globals).bind fun _ => (Smoother.steady_create o globals).bind fun _ => Action.steady_pure _

theorem OrientedConvOptions.results_resolve (o : OrientedConvOptions) : o.resolve.Results o.check := by
  have h : o.resolve.Results (o.check >>= fun g => .ok g) :=
    Action.results_bind (Action.results_liftM _) fun g =>
      Action.returns_bind (Action.returns_warnIf _ _) (Action.returns_pure g)
  cases hcheck : o.check <;> rw [hcheck] at h <;> exact h

namespace ConvLayer

theorem results_accept (o : OrientedConvOptions) (c : Value) :
    (accept o c).Results (do let g ← o.check; checkChannels o c; return g) :=
  Action.results_bind o.results_resolve fun g =>
    Action.results_bind (Action.results_liftM _) fun _ => Action.returns_pure g

variable [Stored α ω] [Draws α ω]

/-- Parts that can be made for one number of channels can be made for every other one. -/
theorem exists_allocated {c c' : Value} {parts : Parts α ω} (h : (allocate o globals g c).Gives parts)
    {O B : ℕ} (hshape : weightShape o g c' = .ok [O, B, g.kernel.1, g.kernel.2]) (hO : 0 < O) (hB : 0 < B)
    (hhead : ∀ shape, weightShape o g c = .ok shape → shape.take 1 = [O]) :
    ∃ parts' : Parts α ω, (allocate o globals g c').Returns parts' := by
  obtain ⟨estimator, hestimator, h⟩ := Action.gives_bind h
  obtain ⟨shape, hown, h⟩ := Action.gives_bind h
  obtain ⟨weight, hweight, h⟩ := Action.gives_bind h
  obtain ⟨weight', hweight'⟩ :=
    exists_filled (Action.gives_liftM hweight) (hasFan_kernels hO hB g.kernel_pos.1 g.kernel_pos.2)
  have hstart : ∀ {f : Tensor α → Action Fault (Parts α ω)} {parts' : Parts α ω}, (f weight').Returns parts' →
      (liftM (filledBy o.weightFiller [O, B, g.kernel.1, g.kernel.2]) >>= f).Returns parts' :=
    fun hf => Action.returns_bind (Action.returns_liftM hweight') hf
  have hestimator := (Estimator.steady_create _ _).returns_of_gives hestimator
  unfold allocate
  cases hterm : o.biasTerm.isTrue with
  | false =>
    refine ⟨⟨estimator, weight', none⟩, ?_⟩
    exact Action.returns_bind hestimator (Action.returns_bind (Action.returns_liftM hshape)
      (hstart (Action.returns_bind (Action.returns_pure none) (Action.returns_pure _))))
  | true =>
    dsimp only at h
    rw [hterm, if_pos rfl] at h
    obtain ⟨_, hbias, -⟩ := Action.gives_bind h
    obtain ⟨b, hb, -⟩ := Action.gives_map hbias
    have hb := Action.gives_liftM hb
    rw [hhead shape (Action.gives_liftM hown)] at hb
    refine ⟨⟨estimator, weight', some b⟩, ?_⟩
    have hsome : (some <$> liftM (filledBy o.biasFiller [O]) : Action Fault (Option (Tensor α))).Returns (some b) := by
      rw [hb]
      exact fun _ => rfl
    exact Action.returns_bind hestimator (Action.returns_bind (Action.returns_liftM hshape)
      (hstart (Action.returns_bind hsome (Action.returns_pure _))))

/-- The bias is made if it is wanted. -/
theorem isSome_bias_of_allocate {c : Value} {parts : Parts α ω} (h : (allocate o globals g c).Gives parts) :
    parts.bias.isSome = o.biasTerm.isTrue := by
  obtain ⟨_, -, h⟩ := Action.gives_bind h
  obtain ⟨_, -, h⟩ := Action.gives_bind h
  obtain ⟨_, -, h⟩ := Action.gives_bind h
  cases hterm : o.biasTerm.isTrue <;> rw [hterm] at h
  · obtain ⟨bias, hbias, h⟩ := Action.gives_bind h
    obtain rfl := Action.gives_pure hbias
    obtain rfl := Action.gives_pure h
    rfl
  · obtain ⟨bias, hbias, h⟩ := Action.gives_bind h
    obtain ⟨b, -, rfl⟩ := Action.gives_map hbias
    obtain rfl := Action.gives_pure h
    rfl

variable {c : ℤ} {l l₀ : ConvLayer α ω}

theorem checked_of_accept {n : ℤ} (h : (accept o (.int n)).Gives g) {G : ℕ}
    (hgroups : o.group.number? = some (.whole G)) (hG : 0 < G) : ∃ B : ℕ, 0 < B ∧ n = (G * B : ℕ) ∧
      (Int.fdiv n G).toNat = B := by
  obtain ⟨_, -, h⟩ := Action.gives_bind h
  obtain ⟨⟨⟩, hchannels, -⟩ := Action.gives_bind h
  obtain ⟨hpos, hdivides⟩ := channels_of_check (Action.gives_liftM hchannels) rfl hgroups
  obtain ⟨G', B, -, hB, hG', rfl, hquotient⟩ := exists_quotient hpos (Int.natCast_pos.mpr hG) hdivides
  obtain rfl : G = G' := Int.ofNat.inj hG'
  exact ⟨B, hB, rfl, hquotient⟩

/-- Setting up again a layer whose options were built once fails before it changes anything, or does not
fail. -/
theorem setup_cases (hbuild : (build o globals (.int c)).Gives l₀) (ho : l.options = o) (hglobals : l.globals = globals)
    (n : ℤ) : (∃ e, (l.setup (.int n)).Returns (l, .error e)) ∨
      ∃ g, ∃ parts : Parts α ω, o.check = .ok g ∧ parts.bias.isSome = o.biasTerm.isTrue ∧
        (l.setup (.int n)).Returns
          ({ l with
              inChannels := .int n, geometry := g, estimator := parts.estimator
              weight := .fresh parts.weight, bias := parts.bias.map .fresh }, .ok ()) := by
  subst ho hglobals
  obtain ⟨g₀, haccept₀, hbuild⟩ := Action.gives_bind (Action.gives_reporting hbuild)
  obtain ⟨parts₀, hparts₀, -⟩ := Action.gives_bind hbuild
  obtain ⟨G, B₀, P, hG, hB₀, hP, -, hcount, hgroups, hshape₀⟩ :=
    weightShape_of_accept haccept₀ (weightShape_of_allocate hparts₀)
  have hattempt : (Action.attempt (logged "setup" (accept l.options (.int n)))).Returns
      (do let g ← l.options.check; checkChannels l.options (.int n); return g) :=
    Action.returns_attempt (Action.results_reporting (results_accept l.options (.int n)))
  cases haccept : (do let g ← l.options.check; checkChannels l.options (.int n); return g : Except Fault Geometry) with
  | error e =>
    rw [haccept] at hattempt
    exact .inl ⟨e, Action.returns_bind hattempt (Action.returns_pure _)⟩
  | ok g =>
    rw [haccept] at hattempt
    have hgives : (accept l.options (.int n)).Gives g := ⟨Journal.empty, (results_accept _ _ _).trans haccept⟩
    obtain ⟨B, hB, rfl, hquotient⟩ := checked_of_accept hgives hgroups hG
    have hcheck := check_of_accept hgives
    obtain rfl : g₀ = g := Except.ok.inj ((check_of_accept haccept₀).symm.trans hcheck)
    have hshape : weightShape l.options g₀ (.int (G * B : ℕ)) = .ok [G * P, B, g₀.kernel.1, g₀.kernel.2] := by
      unfold weightShape
      rw [hcount, hgroups]
      show Except.ok [_, (Int.fdiv (G * B : ℕ) G).toNat, _, _] = _
      rw [hquotient]
      rfl
    obtain ⟨parts, hparts⟩ := exists_allocated hparts₀ hshape (Nat.mul_pos hG hP) hB fun shape h => by
      rw [Except.ok.inj (h.symm.trans (weightShape_of_allocate hparts₀)), hshape₀]
      rfl
    refine .inr ⟨g₀, parts, hcheck, isSome_bias_of_allocate ⟨Journal.empty, hparts _⟩, ?_⟩
    refine Action.returns_bind hattempt (Action.returns_bind (b := .ok parts) ?_ (Action.returns_pure _))
    refine Action.returns_attempt (Action.results_reporting ?_)
    exact Action.returns_bind hparts (Action.returns_bind (Action.returns_record _) (Action.returns_pure _))

theorem intact_of_build (h : (build o globals (.int c)).Gives l) : l.Intact o := by
  obtain ⟨G, B, P, hfitted⟩ := fitted_of_build h
  obtain ⟨g, haccept, h⟩ := Action.gives_bind (Action.gives_reporting h)
  obtain ⟨parts, hparts, h⟩ := Action.gives_bind h
  obtain ⟨_, -, h⟩ := Action.gives_bind h
  obtain rfl := Action.gives_pure h
  have hbias : (parts.bias.map Parameter.fresh).isSome = o.biasTerm.isTrue := by
    rw [Option.isSome_map, isSome_bias_of_allocate hparts]
  exact hfitted.intact rfl (check_of_accept haccept) hbias (graded_of_parts rfl rfl)

end ConvLayer

end Setup

/-! ### Sessions -/

/-- Conversions to numbers of the type keep shapes. -/
class Element.Shaped (α : Type) [Element α] : Prop where
  shape_convert (t : AnyTensor) : (Element.convert t : Tensor α).shape = t.shape

instance : Element.Shaped Float := ⟨shape_toFloat64⟩

instance : Element.Shaped Float32 := ⟨shape_toFloat32⟩

/-- The gradients of the pass suit a layer that was set up so many times: if the pass used its parameters, it
used kernels of their shape and put out a channel for each. -/
structure ConvTape.Suits {α : Type} (t : ConvTape α) (l : ConvLayer α Float) (generation : ℕ) : Prop where
  earlier : t.generation ≤ generation
  kernels : t.generation = generation → t.pass.weight.shape = l.weight.value.shape
  channels : t.generation = generation → ∃ N I J, t.output = [N, l.weight.value.extent 0, I, J]

/-- The request is no setup, or one for a whole number of channels. -/
def LayerStep.Whole : LayerStep → Prop
  | .setup arguments => ∃ n : ℤ, arguments = [.int n]
  | _ => True

namespace ConvSession

variable {α : Type} [Scalar α] [Element α] {o : OrientedConvOptions} {globals : GlobalOptions}
  {c : ℤ} {l₀ : ConvLayer α Float} {s s' : ConvSession α}

/-- A session whose layer is intact and whose pass suits it. -/
structure Works (o : OrientedConvOptions) (globals : GlobalOptions) (s : ConvSession α) : Prop where
  intact : s.layer.Intact o
  globals_eq : s.layer.globals = globals
  suits : ∀ t ∈ s.tape, t.Suits s.layer s.generation

/-- What a failure spares: the whole layer if a setup or a check fails; if a pass fails, the whole layer if its
batch did not pass the check, and otherwise all but the shape that is remembered, which is that of the batch. -/
def Spared (s : ConvSession α) (r : LayerStep) (reply : Except Fault LayerReply) (s' : ConvSession α) : Prop :=
  match r, reply with
  | .setup _, .error _ | .reshape _ _, .error _ => s'.layer = s.layer
  | .forward a b _, .error _ => ((∀ input, ¬s.layer.Admits a b input) ∧ s'.layer = s.layer) ∨
      ∃ input, s.layer.Admits a b input ∧ s'.layer = { s.layer with lastShape := some input }
  | _, _ => True

omit [Element α] in
/-- A session goes on with another layer of the same form whose gradients fit. -/
theorem Works.withLayer (hs : s.Works o globals) {l : ConvLayer α Float} (hform : l.form = s.layer.form)
    (hgraded : ∀ e ∈ l.parameters, e.2.Graded) : ({ s with layer := l } : ConvSession α).Works o globals := by
  have hweight : l.weight.value.shape = s.layer.weight.value.shape :=
    (congrArg (fun m : ConvLayer α Float => m.weight.value.shape) hform :)
  have hglobals : l.globals = s.layer.globals := (congrArg ConvLayer.globals hform :)
  refine ⟨hs.intact.congr hform hgraded, hglobals.trans hs.globals_eq, fun t ht => ?_⟩
  obtain ⟨hearlier, hkernels, hchannels⟩ := hs.suits t ht
  refine ⟨hearlier, fun heq => (hkernels heq).trans hweight.symm, fun heq => ?_⟩
  unfold extent
  rw [hweight]
  exact hchannels heq

theorem works_assign (hs : s.Works o globals) (name : String) (source : AnyTensor) :
    (s.assign name source).1.Works o globals := by
  unfold assign
  cases hassign : s.layer.assign name source with
  | error e => exact hs
  | ok l =>
    obtain ⟨hform, hgraded⟩ := ConvLayer.assign_keeps hassign
    have hworks := hs.withLayer hform (hgraded hs.intact.graded)
    refine ⟨hworks.intact, hworks.globals_eq, fun t ht => ?_⟩
    obtain ⟨t', ht', rfl⟩ := Option.mem_map.mp ht
    obtain ⟨hearlier, hkernels, hchannels⟩ := hworks.suits t' ht'
    dsimp only
    split
    · exact ⟨hearlier, hkernels, hchannels⟩
    · exact ⟨hearlier, hkernels, hchannels⟩

omit [Element α] in
theorem works_clear (hs : s.Works o globals) :
    ({ s with layer := s.layer.mapParameters Parameter.clear } : ConvSession α).Works o globals :=
  hs.withLayer (ConvLayer.form_mapParameters (f := Parameter.clear) (fun _ => rfl) s.layer) ConvLayer.graded_clear

theorem unpack_of_respond {l : ConvLayer α Float} {a b : Operand} {r : ConvOutputs × ForwardPass α × List ℕ}
    (h : respond l a b = .ok r) : ∃ x, a.asTensor = .ok x ∧ ∃ t : Tensor α, Element.unpack? x = some t := by
  obtain ⟨_, -, h⟩ := bind_eq_ok_iff.mp h
  obtain ⟨_, -, h⟩ := bind_eq_ok_iff.mp h
  obtain ⟨x, hx, h⟩ := bind_eq_ok_iff.mp h
  obtain ⟨t, ht, -⟩ := bind_eq_ok_iff.mp h
  exact ⟨x, hx, t, fitting_eq_ok_iff.mp ht⟩

/-- A pass uses the kernels of its layer and puts out a channel for each. -/
theorem pass_of_respond {l : ConvLayer α Float} (hbias : ∀ b ∈ l.bias, b.value.shape = [l.weight.value.extent 0])
    {a b : Operand} {r : ConvOutputs × ForwardPass α × List ℕ} (h : respond l a b = .ok r) :
    r.2.1.weight = l.weight.value ∧ ∃ N I J, r.2.2 = [N, l.weight.value.extent 0, I, J] := by
  obtain ⟨map, -, h⟩ := bind_eq_ok_iff.mp h
  obtain ⟨orientation, -, h⟩ := bind_eq_ok_iff.mp h
  obtain ⟨x, -, h⟩ := bind_eq_ok_iff.mp h
  obtain ⟨x', -, h⟩ := bind_eq_ok_iff.mp h
  obtain ⟨response, hresponse, h⟩ := bind_eq_ok_iff.mp h
  obtain rfl := Except.ok.inj h
  obtain ⟨groups, -, hresponse⟩ := bind_eq_ok_iff.mp hresponse
  obtain ⟨output, houtput, hresponse⟩ := bind_eq_ok_iff.mp hresponse
  obtain rfl := Except.ok.inj hresponse
  refine ⟨rfl, extent_of_steer houtput fun b hb => ?_⟩
  obtain ⟨p, hp, rfl⟩ := Option.mem_map.mp hb
  exact hbias p hp

/-- A cotangent has the shape of the output that it belongs to. -/
theorem shape_cotangentFor [Element.Shaped α] {output : List ℕ} {given : Option AnyTensor} {g : Tensor α}
    (h : cotangentFor output given = .ok g) : g.shape = output := by
  unfold cotangentFor at h
  cases given with
  | none =>
    dsimp only at h
    split at h
    · rw [← Except.ok.inj h]
      rfl
    · cases h
  | some t =>
    dsimp only at h
    split at h
    · rename_i hshape
      rw [← Except.ok.inj h, Element.Shaped.shape_convert, hshape]
    · cases h

/-- Gradients are added to the parameters that the pass used. -/
theorem works_backward [Element.Shaped α] (hs : s.Works o globals) (cotangent : Option AnyTensor) :
    (s.backward cotangent).1.Works o globals := by
  unfold backward
  cases htape : s.tape with
  | none => exact hs
  | some t =>
    have hsuits := hs.suits t htape
    dsimp only
    by_cases hspent : t.spent = true
    · rw [if_pos hspent]
      exact hs
    · rw [if_neg hspent]
      have hspend : ({ s with tape := some { t with spent := true } } : ConvSession α).Works o globals := by
        refine ⟨hs.intact, hs.globals_eq, fun u hu => ?_⟩
        obtain rfl := Option.mem_some_iff.mp hu
        exact ⟨hsuits.earlier, hsuits.kernels, hsuits.channels⟩
      cases hcotangent : (cotangentFor t.output cotangent : Except Fault (Tensor α)) with
      | error e => exact hs
      | ok u =>
        dsimp only
        by_cases hstale : t.stale = true
        · rw [if_pos hstale]
          exact hspend
        · rw [if_neg hstale]
          cases hgradients : t.pass.gradients { input := t.wantsInput, bias := s.layer.bias.isSome } u with
          | error e => exact hspend
          | ok g =>
            dsimp only
            by_cases hsame : t.generation = s.generation
            · rw [if_pos hsame]
              refine hspend.withLayer (ConvLayer.form_accumulate s.layer g) ?_
              obtain ⟨hweight, hbias⟩ := ForwardPass.shapes_of_gradients hgradients
              obtain ⟨N, I, J, houtput⟩ := hsuits.channels hsame
              refine ConvLayer.graded_accumulate hs.intact.graded (fun v hv => ?_) fun v hv b hb => ?_
              · exact (hweight v hv).trans (hsuits.kernels hsame)
              · rw [hbias v hv, hs.intact.shape_bias b hb,
                  (extents ((shape_cotangentFor hcotangent).trans houtput)).2.1]
            · rw [if_neg hsame]
              exact hspend

variable [Stored α Float] [Draws α Float]

omit [Scalar α] [Element α] in
/-- A setup fails and changes nothing, or leaves a fresh layer to which no earlier pass belongs. -/
theorem works_setup (hbuild : (ConvLayer.build o globals (.int c)).Gives l₀) (hs : s.Works o globals) (n : ℤ) :
    ∃ s' reply, (s.setup [.int n]).Returns (s', reply) ∧ s'.Works o globals ∧ s.Spared (.setup [.int n]) reply s' := by
  obtain rfl := hs.intact.options_eq
  rcases ConvLayer.setup_cases hbuild rfl hs.globals_eq n with ⟨e, hfails⟩ | ⟨g, parts, hcheck, hbias, hdone⟩
  · exact ⟨s, .error e, Action.returns_bind hfails (Action.returns_pure _), hs, rfl⟩
  · refine ⟨_, _, Action.returns_bind hdone (Action.returns_pure _), ⟨?_, hs.globals_eq, fun t ht => ?_⟩, trivial⟩
    · obtain ⟨G, B, P, hfitted⟩ := ConvLayer.fitted_of_setup ⟨Journal.empty, hdone _⟩
      exact hfitted.intact rfl hcheck (Option.isSome_map.trans hbias) (ConvLayer.graded_of_parts rfl rfl)
    · obtain ⟨hearlier, -, -⟩ := hs.suits t ht
      have hlt : t.generation < s.generation + 1 := Nat.lt_succ_of_le hearlier
      exact ⟨hlt.le, fun heq => absurd heq hlt.ne, fun heq => absurd heq hlt.ne⟩

/-- A check leaves the layer, or remembers a shape that it accepted. -/
theorem works_reshape (hs : s.Works o globals) (a b : Operand) (j : Journal) :
    ∃ s' reply, ((s.step (.reshape a b)).outcome j).1 = .ok (s', reply) ∧ s'.Works o globals ∧
      s.Spared (.reshape a b) reply s' := by
  have hstep : ((s.step (.reshape a b)).outcome j).1 =
      .ok ({ s with layer := ((ConvLayer.reshape a b).outcome s.layer j).1.2 },
        ((ConvLayer.reshape a b).outcome s.layer j).1.1.map .size) := by
    unfold step
    rw [Action.outcome_bind, Update.outcome_start]
    rfl
  rw [hstep]
  rcases ConvLayer.outcome_reshape a b s.layer j with ⟨e, -, h⟩ | ⟨input, size, -, h⟩ <;> rw [h]
  · exact ⟨_, _, rfl, hs, rfl⟩
  · exact ⟨_, _, rfl, hs.withLayer rfl hs.intact.graded, trivial⟩

/-- A pass that fails after its check leaves the shape that was checked. -/
theorem works_forward (hs : s.Works o globals) (a b : Operand) (wanted : Bool × Bool) (j : Journal) :
    ∃ s' reply, ((s.step (.forward a b wanted)).outcome j).1 = .ok (s', reply) ∧ s'.Works o globals ∧
      s.Spared (.forward a b wanted) reply s' := by
  show ∃ s' reply, ((s.forward a b wanted.1).outcome j).1 = .ok (s', reply) ∧ _
  unfold forward
  rw [Action.outcome_bind, Update.outcome_start]
  dsimp only
  rcases ConvLayer.outcome_reshape a b s.layer j with ⟨e, hrefused, h⟩ | ⟨input, size, hadmits, h⟩ <;> rw [h]
  · exact ⟨s, .error e, rfl, hs, .inl ⟨hrefused, rfl⟩⟩
  · have hchecked := hs.withLayer (l := { s.layer with lastShape := some input }) rfl hs.intact.graded
    dsimp only
    cases hrespond : respond { s.layer with lastShape := some input } a b with
    | error e => exact ⟨_, _, rfl, hchecked, .inr ⟨input, hadmits, rfl⟩⟩
    | ok r =>
      obtain ⟨hkernels, hchannels⟩ := pass_of_respond hchecked.intact.shape_bias hrespond
      refine ⟨_, _, rfl, ⟨hchecked.intact, hchecked.globals_eq, fun t ht => ?_⟩, trivial⟩
      obtain rfl := Option.mem_some_iff.mp ht
      exact ⟨le_rfl, fun _ => congrArg Tensor.shape hkernels, fun _ => hchannels⟩

/-- Every request is answered by a session that works and a reply that says what was spared. -/
theorem step_works [Element.Shaped α] (hbuild : (ConvLayer.build o globals (.int c)).Gives l₀) (hs : s.Works o globals)
    {r : LayerStep} (hr : r.Whole) (j : Journal) :
    ∃ s' reply, ((s.step r).outcome j).1 = .ok (s', reply) ∧ s'.Works o globals ∧ s.Spared r reply s' := by
  cases r with
  | assign name source => exact ⟨_, _, rfl, works_assign hs name source, trivial⟩
  | parameters => exact ⟨_, _, rfl, hs, trivial⟩
  | describe => exact ⟨_, _, rfl, hs, trivial⟩
  | setup arguments =>
    obtain ⟨n, rfl⟩ := hr
    obtain ⟨s', reply, hreturns, hworks, hspared⟩ := works_setup hbuild hs n
    exact ⟨s', reply, hreturns j, hworks, hspared⟩
  | reshape a b => exact works_reshape hs a b j
  | forward a b wanted => exact works_forward hs a b wanted j
  | backward cotangent => exact ⟨_, _, rfl, works_backward hs cotangent, trivial⟩
  | clear => exact ⟨_, _, rfl, works_clear hs, trivial⟩

/-- The sessions that come about by building a layer and answering requests, whether they succeed or fail. -/
inductive Reached (o : OrientedConvOptions) (globals : GlobalOptions) (c : ℤ) : ConvSession α → Prop where
  | built {l : ConvLayer α Float} (h : (ConvLayer.build o globals (.int c)).Gives l) : Reached o globals c ⟨l, 0, none⟩
  | next {s s' : ConvSession α} {r : LayerStep} {reply : Except Fault LayerReply} (h : Reached o globals c s)
      (hr : r.Whole) (hstep : (s.step r).Gives (s', reply)) : Reached o globals c s'

/-- What is reached works, and its layer could be built. -/
theorem Reached.works [Element.Shaped α] (h : s.Reached o globals c) :
    (∃ l₀ : ConvLayer α Float, (ConvLayer.build o globals (.int c)).Gives l₀) ∧ s.Works o globals := by
  induction h with
  | @built l hbuild =>
    refine ⟨⟨l, hbuild⟩, ConvLayer.intact_of_build hbuild, ?_, fun t ht => absurd ht (Option.not_mem_none t)⟩
    obtain ⟨_, -, h⟩ := Action.gives_bind (Action.gives_reporting hbuild)
    obtain ⟨_, -, h⟩ := Action.gives_bind h
    obtain ⟨_, -, h⟩ := Action.gives_bind h
    rw [← Action.gives_pure h]
  | next _ hr hstep ih =>
    obtain ⟨⟨l₀, hbuild⟩, hworks⟩ := ih
    obtain ⟨j, hj⟩ := hstep
    obtain ⟨s', reply, hdone, hworks', -⟩ := step_works hbuild hworks hr j
    obtain ⟨rfl, -⟩ := Prod.mk.inj (Except.ok.inj (hdone.symm.trans hj))
    exact ⟨⟨l₀, hbuild⟩, hworks'⟩

/-- However a layer is used, it stays intact; every further request is answered, and a failure of a setup or
of a check changes nothing and one of a pass at most the shape that is remembered. -/
theorem intact_throughout [Element.Shaped α] (h : s.Reached o globals c) : s.layer.Intact o ∧
    ∀ r : LayerStep, r.Whole → ∀ j : Journal, ∃ s' reply, ((s.step r).outcome j).1 = .ok (s', reply) ∧
      s.Spared r reply s' := by
  obtain ⟨⟨l₀, hbuild⟩, hworks⟩ := h.works
  refine ⟨hworks.intact, fun r hr j => ?_⟩
  obtain ⟨s', reply, hstep, -, hspared⟩ := step_works hbuild hworks hr j
  exact ⟨s', reply, hstep, hspared⟩

/-- The session after a request, whether it succeeds or fails. -/
def answered (s : ConvSession α) (r : LayerStep) : ConvSession α :=
  match ((s.step r).outcome Journal.empty).1 with
  | .ok (s', _) => s'
  | .error _ => s

/-- Whether a request fails. -/
def refuses (s : ConvSession α) (r : LayerStep) : Bool :=
  match ((s.step r).outcome Journal.empty).1 with
  | .ok (_, .ok _) => false
  | _ => true

/-- Requests that are answered one after the other lead from what is reached to what is reached. -/
theorem Reached.answers [Element.Shaped α] {requests : List LayerStep} (h : s.Reached o globals c)
    (hr : ∀ r ∈ requests, r.Whole) : (requests.foldl answered s).Reached o globals c := by
  induction requests generalizing s with
  | nil => exact h
  | cons r rest ih =>
    obtain ⟨⟨l₀, hbuild⟩, hworks⟩ := h.works
    have hwhole := hr r List.mem_cons_self
    obtain ⟨s', reply, hstep, -, -⟩ := step_works hbuild hworks hwhole Journal.empty
    have hanswered : s.answered r = s' := by rw [answered, hstep]
    rw [List.foldl_cons, hanswered]
    exact ih (.next h hwhole ⟨Journal.empty, hstep⟩) fun r' hr' => hr r' (List.mem_cons_of_mem r hr')

section Drawn

local instance middlingFloat : Draws Float Float := Draws.middling Float Float

/-- A layer that is set up for two channels, has taken a batch of no samples and the gradients of its pass. -/
def sampleSession : ConvSession Float :=
  [.setup [.int 2], .forward (AnyTensor.float64 (fill [0, 2, 1, 1] 0)).operand
      (AnyTensor.float64 (fill [0, 2, 1, 1] 0)).operand (true, true),
    .backward (some (.float64 (fill [0, 1, 1, 1] 0)))].foldl answered ⟨ConvLayer.ofSingle Float Float, 0, none⟩

/-- A pass over images of one channel, which is not the number of channels of the layer, and a setup for none
both fail and change nothing. -/
theorem intact_throughout_single : sampleSession.Reached ConvLayer.single {} 1 ∧
    sampleSession.layer.Intact ConvLayer.single ∧ sampleSession.layer.lastShape = some [0, 2, 1, 1] ∧
    sampleSession.layer.weight.gradient.map Tensor.shape = some [1, 2, 1, 1] ∧
    (∃ s' e, ((sampleSession.step (.setup [.int 0])).outcome Journal.empty).1 = .ok (s', .error e) ∧
      s'.layer = sampleSession.layer) ∧
    ∃ s' e, ((sampleSession.step (.forward (AnyTensor.float64 (fill [1, 1, 1, 1] 0)).operand
        (AnyTensor.float64 (fill [1, 2, 1, 1] 0)).operand (true, true))).outcome Journal.empty).1 =
          .ok (s', .error e) ∧ s'.layer = sampleSession.layer := by
  have hreached : sampleSession.Reached ConvLayer.single {} 1 := by
    refine Reached.answers (.built (ConvLayer.build_single Float Float rfl)) fun r hr => ?_
    simp only [List.mem_cons, List.not_mem_nil, or_false] at hr
    rcases hr with rfl | rfl | rfl
    · exact ⟨2, rfl⟩
    · trivial
    · trivial
  have hwhole : (LayerStep.setup [.int 0]).Whole := ⟨0, rfl⟩
  obtain ⟨hintact, hanswers⟩ := intact_throughout hreached
  refine ⟨hreached, hintact, by decide +kernel, by decide +kernel, ?_, ?_⟩
  · obtain ⟨s', reply, hstep, hspared⟩ := hanswers _ hwhole Journal.empty
    have hrefuses : sampleSession.refuses (.setup [.int 0]) = true := by decide +kernel
    rw [refuses, hstep] at hrefuses
    cases reply with
    | ok => cases hrefuses
    | error e => exact ⟨s', e, hstep, hspared⟩
  · obtain ⟨s', reply, hstep, hspared⟩ := hanswers (.forward (AnyTensor.float64 (fill [1, 1, 1, 1] 0)).operand
      (AnyTensor.float64 (fill [1, 2, 1, 1] 0)).operand (true, true)) trivial Journal.empty
    have hrefuses : sampleSession.refuses (.forward (AnyTensor.float64 (fill [1, 1, 1, 1] 0)).operand
      (AnyTensor.float64 (fill [1, 2, 1, 1] 0)).operand (true, true)) = true := by decide +kernel
    have hsize : (sampleSession.layer.sizeFor [1, 1, 1, 1] [1, 2, 1, 1]).isOk = false := by decide +kernel
    rw [refuses, hstep] at hrefuses
    cases reply with
    | ok => cases hrefuses
    | error e =>
      rcases hspared with ⟨-, hlayer⟩ | ⟨input, ⟨map, size, hshapes, haccepted⟩, -⟩
      · exact ⟨s', e, hstep, hlayer⟩
      · obtain ⟨rfl, rfl⟩ := Prod.mk.inj (Except.ok.inj hshapes)
        change sampleSession.layer.sizeFor [1, 1, 1, 1] [1, 2, 1, 1] = .ok size at haccepted
        rw [haccepted] at hsize
        cases hsize

/-- A pass over numbers of another type fails, and the shape of its batch is remembered. -/
theorem failed_pass_is_remembered :
    (⟨ConvLayer.ofSingle Float Float, 0, none⟩ : ConvSession Float).Reached ConvLayer.single {} 1 ∧
      ∃ (s' : ConvSession Float) (e : Fault),
        (((⟨ConvLayer.ofSingle Float Float, 0, none⟩ : ConvSession Float).step
          (.forward (AnyTensor.float32 (fill [1, 1, 1, 1] 1)).operand
            (AnyTensor.float32 (fill [1, 2, 1, 1] 1)).operand (false, false))).outcome Journal.empty).1 =
              .ok (s', .error e) ∧
        (ConvLayer.ofSingle Float Float).lastShape = none ∧ s'.layer.lastShape = some [1, 1, 1, 1] := by
  refine ⟨.built (ConvLayer.build_single Float Float rfl), ?_⟩
  set l := ConvLayer.ofSingle Float Float
  set x := AnyTensor.float32 (fill [1, 1, 1, 1] 1)
  set map := AnyTensor.float32 (fill [1, 2, 1, 1] 1)
  obtain ⟨_, _, _, hfitted⟩ := ConvLayer.fitted_of_ready (ConvLayer.ready_single Float Float rfl)
  obtain ⟨_, _, _, -, -, -, -, hsize⟩ :=
    ConvLayer.sizeFor_of_not_misfits hfitted (ConvLayer.not_misfits_single Float Float)
  show ∃ s' e, ((ConvSession.forward _ x.operand map.operand false).outcome Journal.empty).1 = _ ∧ _
  unfold forward
  rw [Action.outcome_bind, Update.outcome_start]
  dsimp only
  rcases ConvLayer.outcome_reshape x.operand map.operand l Journal.empty with
    ⟨_, hrefused, -⟩ | ⟨input, _, ⟨_, _, hshapes, -⟩, h⟩
  · exact absurd ⟨_, _, rfl, hsize⟩ (hrefused [1, 1, 1, 1])
  · rw [h]
    dsimp only
    obtain ⟨rfl, -⟩ := Prod.mk.inj (Except.ok.inj hshapes)
    cases hrespond : respond { l with lastShape := some x.shape } x.operand map.operand with
    | error e => exact ⟨_, e, rfl, rfl, rfl⟩
    | ok r =>
      -- the kernels hold other numbers than the batch
      obtain ⟨_, hx, _, hunpack⟩ := unpack_of_respond hrespond
      cases Except.ok.inj hx
      cases hunpack

end Drawn

end ConvSession

end SteeredConv
