/-
# Borders of zeros

A border is read and never stored. Operations with a border give what they give without one on batches
that have been extended by rows and columns of zeros, and what they bring back to the pixels is the middle
of what the operations without a border bring back to the extended batches. They refuse the same batches,
but for images without pixels, which only become images by being extended.

Key definitions: `Tensor.bordered`, `Tensor.cropped`, `Corresponds`, `Smoother.borderless`,
`ForwardPass.extended`, `SimilarityPass.extended`.
Key theorems: `correlate_bordered`, `correlateInput_bordered`, `Smoother.corresponds_smooth`,
`corresponds_forwardPass`, `gradients_extended`, `corresponds_similarityPass`, `border_is_zeros`.
-/
import SteeredConv.Proofs.Responses
import SteeredConv.Proofs.SimilarityBounds

namespace SteeredConv

open Finset Tensor

/-! ### Operations that correspond -/

section Corresponds

variable {β γ β' γ' : Type} {P Q : Prop} {r : β → γ → Prop}

/-- Two operations on batches, of which the second one works on extended batches: what the first one
gives, the second one gives as well, up to a relation, and conversely for batches that are `whole`. -/
structure Corresponds (whole : Prop) (r : β → γ → Prop) (a : Except Fault β) (b : Except Fault γ) : Prop where
  implicit : ∀ y, a = .ok y → whole ∧ ∃ z, b = .ok z ∧ r y z
  explicit : whole → ∀ z, b = .ok z → ∃ y, a = .ok y ∧ r y z

theorem Corresponds.ok {y : β} {z : γ} (h : r y z) : Corresponds True r (.ok y) (.ok z) where
  implicit _ h' := by
    cases h'
    exact ⟨trivial, z, rfl, h⟩
  explicit _ _ h' := by
    cases h'
    exact ⟨y, rfl, h⟩

theorem Corresponds.refl {a : Except Fault β} : Corresponds True Eq a a where
  implicit y h := ⟨trivial, y, h, rfl⟩
  explicit _ z h := ⟨z, h, rfl⟩

/-- Sequences of operations that correspond step by step correspond. -/
theorem Corresponds.bind {a : Except Fault β} {b : Except Fault γ} {f : β → Except Fault β'}
    {k : γ → Except Fault γ'} {t : β' → γ' → Prop} (h : Corresponds P r a b)
    (hf : ∀ y z, r y z → Corresponds Q t (f y) (k z)) : Corresponds (P ∧ Q) t (a >>= f) (b >>= k) where
  implicit y' h' := by
    obtain ⟨y, hy, h'⟩ := bind_eq_ok_iff.mp h'
    obtain ⟨hP, z, hz, hr⟩ := h.implicit y hy
    obtain ⟨hQ, z', hz', ht⟩ := (hf y z hr).implicit y' h'
    exact ⟨⟨hP, hQ⟩, z', bind_eq_ok_iff.mpr ⟨z, hz, hz'⟩, ht⟩
  explicit hwhole z' h' := by
    obtain ⟨z, hz, h'⟩ := bind_eq_ok_iff.mp h'
    obtain ⟨y, hy, hr⟩ := h.explicit hwhole.1 z hz
    obtain ⟨y', hy', ht⟩ := (hf y z hr).explicit hwhole.2 z' h'
    exact ⟨y', bind_eq_ok_iff.mpr ⟨y, hy, hy'⟩, ht⟩

theorem Corresponds.congr {a : Except Fault β} {b : Except Fault γ} (h : Corresponds P r a b) (hPQ : P ↔ Q) :
    Corresponds Q r a b := by
  rwa [← hPQ]

theorem Corresponds.andThen {a b : Except Fault β} (h : Corresponds P Eq a b) (f : β → Except Fault γ) :
    Corresponds P Eq (a >>= f) (b >>= f) :=
  (h.bind fun y z hyz => by subst hyz; exact Corresponds.refl).congr (and_iff_left trivial)

theorem Corresponds.of_eq_map {a : Except Fault β} {b : Except Fault γ} {f : γ → β} (hwhole : ∀ y, a = .ok y → P)
    (h : P → a = f <$> b) : Corresponds P (fun y z => y = f z) a b where
  implicit y hy := by
    have hP := hwhole y hy
    rw [h hP] at hy
    cases hb : b with
    | error e =>
      rw [hb] at hy
      cases hy
    | ok z =>
      rw [hb] at hy
      exact ⟨hP, z, rfl, (Except.ok.inj hy).symm⟩
  explicit hP z hz := ⟨f z, by rw [h hP, hz]; rfl, rfl⟩

end Corresponds

/-! ### Extending and cropping -/

/-- Whether the images of a batch have pixels; a batch of no images is whole, too. -/
def Whole (N H W : ℕ) : Prop := N = 0 ∨ 0 < H ∧ 0 < W

section Extending

variable {α : Type} [Zero α] {x : Tensor α} {pad : ℕ × ℕ} {N C H W : ℕ}

/-- A batch with rows and columns of zeros on each side. -/
def Tensor.bordered (pad : ℕ × ℕ) (x : Tensor α) : Tensor α :=
  ofImages (x.extent 0) (x.extent 1) (x.extent 2 + 2 * pad.1) (x.extent 3 + 2 * pad.2) (x.padded pad)

/-- A batch without the rows and columns on each side. -/
def Tensor.cropped (pad : ℕ × ℕ) (x : Tensor α) : Tensor α :=
  ofImages (x.extent 0) (x.extent 1) (x.extent 2 - 2 * pad.1) (x.extent 3 - 2 * pad.2) fun n c h w =>
    x.at4 n c (h + pad.1) (w + pad.2)

theorem shape_bordered (hx : x.shape = [N, C, H, W]) :
    (x.bordered pad).shape = [N, C, H + 2 * pad.1, W + 2 * pad.2] := by
  obtain ⟨x0, x1, x2, x3⟩ := extents hx
  unfold bordered
  rw [x0, x1, x2, x3, shape_ofImages]

theorem at4_bordered (hx : x.shape = [N, C, H, W]) (n c h w : ℕ) :
    (x.bordered pad).at4 n c h w = x.padded pad n c h w := by
  by_cases hin : n < N ∧ c < C ∧ h < H + 2 * pad.1 ∧ w < W + 2 * pad.2
  · obtain ⟨x0, x1, x2, x3⟩ := extents hx
    unfold bordered
    rw [x0, x1, x2, x3, at4_ofImages hin.1 hin.2.1 hin.2.2.1 hin.2.2.2]
  · rw [at4_of_not (shape_bordered hx) hin]
    unfold padded
    split
    · rw [at4_of_not hx]
      omega
    · rfl

theorem cropped_ofImages (f : ℕ → ℕ → ℕ → ℕ → α) :
    (ofImages N C (H + 2 * pad.1) (W + 2 * pad.2) f).cropped pad =
      ofImages N C H W fun n c h w => f n c (h + pad.1) (w + pad.2) := by
  obtain ⟨e0, e1, e2, e3⟩ := extents (shape_ofImages N C (H + 2 * pad.1) (W + 2 * pad.2) f)
  unfold cropped
  rw [e0, e1, e2, e3, Nat.add_sub_cancel, Nat.add_sub_cancel]
  exact ofImages_congr fun n hn c hc h hh w hw => at4_ofImages hn hc (by omega) (by omega)

theorem cropped_eq (hx : x.shape = [N, C, H + 2 * pad.1, W + 2 * pad.2]) :
    x.cropped pad = ofImages N C H W fun n c h w => x.at4 n c (h + pad.1) (w + pad.2) := by
  obtain ⟨x0, x1, x2, x3⟩ := extents hx
  unfold cropped
  rw [x0, x1, x2, x3, Nat.add_sub_cancel, Nat.add_sub_cancel]

theorem cropped_zipWith {f : α → α → α} {s t : Tensor α} (hs : s.shape = [N, C, H + 2 * pad.1, W + 2 * pad.2])
    (ht : t.shape = [N, C, H + 2 * pad.1, W + 2 * pad.2]) :
    (zipWith f s t).cropped pad = zipWith f (s.cropped pad) (t.cropped pad) := by
  rw [cropped_eq (by exact hs), cropped_eq hs, cropped_eq ht]
  refine ext_at4 (N := N) (C := C) (H := H) (W := W) rfl rfl fun n hn c hc h hh w hw => ?_
  rw [at4_ofImages hn hc hh hw, at4_zipWith rfl rfl hn hc hh hw, at4_ofImages hn hc hh hw, at4_ofImages hn hc hh hw,
    at4_zipWith hs ht hn hc (by omega) (by omega)]

end Extending

/-! ### Windows without a border -/

def Sweep.borderless (s : Sweep) : Sweep := ⟨s.stride, (0, 0)⟩

def Geometry.borderless (g : Geometry) : Geometry := { g with pad := (0, 0) }

theorem windows_borderless (size kernel stride pad : ℕ) :
    windows (size + 2 * pad) kernel stride 0 = windows size kernel stride pad := by
  simp [windows]

theorem Sweep.grid_borderless (s : Sweep) (kernel : ℕ × ℕ) (H W : ℕ) :
    s.borderless.grid kernel (H + 2 * s.pad.1, W + 2 * s.pad.2) = s.grid kernel (H, W) :=
  Prod.ext (windows_borderless _ _ _ _) (windows_borderless _ _ _ _)

/-- Batches are correlated with a border exactly if they are whole and correlated when extended. -/
theorem correlates_borderless_iff {s : Sweep} {groups N C H W : ℕ} {w : List ℕ} :
    Correlates s groups [N, C, H, W] w ↔
      Whole N H W ∧ Correlates s.borderless groups [N, C, H + 2 * s.pad.1, W + 2 * s.pad.2] w := by
  by_cases hw : ∃ o block a b, w = [o, block, a, b]
  · obtain ⟨o, block, a, b, rfl⟩ := hw
    unfold Correlates Whole Sweep.borderless
    dsimp only
    omega
  · have hno (s : Sweep) (x : List ℕ) : ¬Correlates s groups x w := by
      intro h
      unfold Correlates at h
      split at h
      · exact hw ⟨_, _, _, _, rfl⟩
      · exact h
    exact ⟨fun h => absurd h (hno _ _), fun h => absurd h.2 (hno _ _)⟩

theorem correlationShape_borderless (s : Sweep) (N C H W : ℕ) (w : List ℕ) :
    correlationShape s.borderless [N, C, H + 2 * s.pad.1, W + 2 * s.pad.2] w = correlationShape s [N, C, H, W] w := by
  have hgrid := s.grid_borderless (w.getD 2 0, w.getD 3 0) H W
  show [N, w.getD 0 0, (s.borderless.grid _ (H + 2 * s.pad.1, W + 2 * s.pad.2)).1,
    (s.borderless.grid _ (H + 2 * s.pad.1, W + 2 * s.pad.2)).2] = _
  rw [hgrid]
  rfl

/-! ### Correlations of extended batches -/

section Correlations

variable {α : Type} [Zero α] [Add α] [Mul α] {s : Sweep} {groups N C H W : ℕ} {x : Tensor α}

omit [Add α] [Mul α] in
theorem padded_bordered (hx : x.shape = [N, C, H, W]) (n c h w : ℕ) :
    (x.bordered s.pad).padded s.borderless.pad n c h w = x.padded s.pad n c h w := by
  show (x.bordered s.pad).padded (0, 0) n c h w = _
  rw [padded_zero, at4_bordered hx]

theorem correlate_bordered (hx : x.shape = [N, C, H, W]) (w : Tensor α) :
    correlate s.borderless groups (x.bordered s.pad) w = correlate s groups x w := by
  have hx' : (x.bordered s.pad).shape = _ := shape_bordered hx
  obtain ⟨x0, -, -, -⟩ := extents hx
  obtain ⟨e0, -, -, -⟩ := extents hx'
  unfold correlate
  rw [area_batch hx, area_batch hx', x0, e0]
  dsimp only
  simp only [s.grid_borderless, padded_bordered hx]
  rfl

theorem correlateKernel_bordered (hx : x.shape = [N, C, H, W]) (shape : List ℕ) (g : Tensor α) :
    correlateKernel s.borderless groups shape (x.bordered s.pad) g = correlateKernel s groups shape x g := by
  obtain ⟨x0, -, -, -⟩ := extents hx
  obtain ⟨e0, -, -, -⟩ := extents (shape_bordered hx : (x.bordered s.pad).shape = _)
  unfold correlateKernel
  rw [x0, e0]
  simp only [padded_bordered hx]
  rfl

theorem correlateInput_bordered (w g : Tensor α) : correlateInput s groups [N, C, H, W] w g =
    (correlateInput s.borderless groups [N, C, H + 2 * s.pad.1, W + 2 * s.pad.2] w g).cropped s.pad := by
  unfold correlateInput
  symm
  exact cropped_ofImages _

theorem windowAverage_bordered (hx : x.shape = [N, C, H, W]) (table : Tensor α) :
    windowAverage s.borderless table (x.bordered s.pad) = windowAverage s table x := by
  have hx' : (x.bordered s.pad).shape = _ := shape_bordered hx
  obtain ⟨x0, x1, -, -⟩ := extents hx
  obtain ⟨e0, e1, -, -⟩ := extents hx'
  unfold windowAverage
  rw [area_batch hx, area_batch hx', x0, x1, e0, e1]
  dsimp only
  simp only [s.grid_borderless, padded_bordered hx]
  rfl

theorem windowSpread_bordered (table g : Tensor α) : windowSpread s table [N, C, H, W] g =
    (windowSpread s.borderless table [N, C, H + 2 * s.pad.1, W + 2 * s.pad.2] g).cropped s.pad := by
  unfold windowSpread
  symm
  exact cropped_ofImages _

end Correlations

/-! ### Smoothing -/

/-- The options of a window without a border. -/
def GaussianOptions.borderless (o : GaussianOptions) : GaussianOptions := { o with padH := .int 0, padW := .int 0 }

theorem Operator.check_of_create {component : Component} {globals : GlobalOptions} {op : Operator}
    (h : (Operator.create component globals).Gives op) : Operator.check component globals = .ok op := by
  obtain ⟨op', hcheck, h⟩ := Action.gives_bind h
  obtain rfl : op' = op := by
    split at h
    · obtain ⟨_, -, h⟩ := Action.gives_bind h
      exact Action.gives_pure h
    · exact Action.gives_pure h
  exact Action.gives_liftM hcheck

namespace Smoother

def borderless {ω : Type} (s : Smoother ω) : Smoother ω := { s with options := s.options.borderless }

theorem geometry_borderless {ω : Type} {s : Smoother ω} {g : Geometry} (h : s.geometry = .ok g) :
    s.borderless.geometry = .ok g.borderless := by
  rw [geometry_eq_ok_iff] at h ⊢
  obtain ⟨h1, h2, h3, h4, -, -⟩ := h
  exact ⟨h1, h2, h3, h4, rfl, rfl⟩

theorem returns_borderless {ω : Type} [Scalar ω] {o : GaussianOptions} {globals : GlobalOptions} {s : Smoother ω}
    (h : (Smoother.create o globals).Gives s) : (Smoother.create o.borderless globals).Returns s.borderless := by
  obtain ⟨op, table, hop, hcheck, htable, rfl⟩ := parts_of_create h
  obtain ⟨htall, hwide, -, -⟩ := check_eq_ok_iff.mp hcheck
  have hcheck' : Smoother.check o.borderless = .ok () :=
    check_eq_ok_iff.mpr ⟨htall, hwide, less_zero 0, less_zero 0⟩
  exact returns_create (Operator.check_of_create hop) hcheck' htable

variable {ω α : Type} [Zero α] [Add α] [Mul α] [Stored α ω] {s : Smoother ω} {g : Geometry} {x u : Tensor α}
  {N C H W : ℕ}

theorem smooth_eq_ok_iff (hs : s.geometry = .ok g) (hx : x.shape = [N, C, H, W]) {y : Tensor α} :
    s.smooth x = .ok y ↔ Correlates g.sweep C [N, C, H, W] (kernelShape g C) ∧
      windowAverage g.sweep (s.table.map Stored.narrow) x = y := by
  constructor
  · intro h
    obtain ⟨g', haccepts, h⟩ := bind_eq_ok_iff.mp h
    rw [hx] at haccepts
    obtain ⟨-, hg, hc⟩ := accepts_eq_ok_iff.mp haccepts
    obtain rfl : g = g' := Except.ok.inj (hs.symm.trans hg)
    exact ⟨hc, Except.ok.inj h⟩
  · rintro ⟨hc, rfl⟩
    refine smooth_eq ?_
    rw [hx]
    exact accepts_of_geometry hs hc

/-- Smoothing with a border is smoothing extended batches. -/
theorem corresponds_smooth (hs : s.geometry = .ok g) (hx : x.shape = [N, C, H, W]) :
    Corresponds (Whole N H W) Eq (s.smooth x) (s.borderless.smooth (x.bordered g.pad)) := by
  have hborderless (y : Tensor α) :=
    smooth_eq_ok_iff (y := y) (geometry_borderless hs) (shape_bordered hx : (x.bordered g.pad).shape = _)
  have haverage := windowAverage_bordered (s := g.sweep) hx (s.table.map Stored.narrow)
  constructor
  · intro y h
    obtain ⟨hc, rfl⟩ := (smooth_eq_ok_iff hs hx).mp h
    obtain ⟨hwhole, hc⟩ := correlates_borderless_iff.mp hc
    exact ⟨hwhole, _, (hborderless _).mpr ⟨hc, haverage⟩, rfl⟩
  · intro hwhole y h
    obtain ⟨hc, rfl⟩ := (hborderless y).mp h
    exact ⟨_, (smooth_eq_ok_iff hs hx).mpr ⟨correlates_borderless_iff.mpr ⟨hwhole, hc⟩, rfl⟩, haverage.symm⟩

/-- What the adjoint of a smoother with a geometry gives, and when it fails. -/
theorem adjoint_eq_ite (hs : s.geometry = .ok g) (shape : List ℕ) (u : Tensor α) : s.adjoint shape u =
    if u.shape.length < 2 then .error .outOfRange
    else if Correlates g.sweep (u.extent 1) shape (kernelShape g (u.extent 1)) ∧
        u.shape = correlationShape g.sweep shape (kernelShape g (u.extent 1)) then
      .ok (windowSpread g.sweep (s.table.map Stored.narrow) shape u)
    else .error .incompatible := by
  unfold adjoint
  rw [hs]
  by_cases hrank : u.shape.length < 2
  · rw [if_pos hrank, if_pos hrank]
    rfl
  · rw [if_neg hrank, if_neg hrank]
    rfl

theorem shape_of_adjoint (hs : s.geometry = .ok g) {v : Tensor α} (h : s.adjoint [N, C, H, W] u = .ok v) :
    v.shape = [N, C, H, W] := by
  rw [adjoint_eq_ite hs] at h
  split_ifs at h
  obtain rfl := Except.ok.inj h
  rfl

/-- Spreading over extended batches and cropping them is spreading with a border. -/
theorem adjoint_bordered (hs : s.geometry = .ok g) (hwhole : Whole N H W) (u : Tensor α) :
    s.adjoint [N, C, H, W] u =
      Tensor.cropped g.pad <$> s.borderless.adjoint [N, C, H + 2 * g.pad.1, W + 2 * g.pad.2] u := by
  have hshape := correlationShape_borderless g.sweep N C H W (kernelShape g (u.extent 1))
  have hc : (Correlates g.sweep (u.extent 1) [N, C, H, W] (kernelShape g (u.extent 1)) ∧
        u.shape = correlationShape g.sweep [N, C, H, W] (kernelShape g (u.extent 1))) ↔
      Correlates g.borderless.sweep (u.extent 1) [N, C, H + 2 * g.pad.1, W + 2 * g.pad.2]
          (kernelShape g (u.extent 1)) ∧
        u.shape = correlationShape g.borderless.sweep [N, C, H + 2 * g.pad.1, W + 2 * g.pad.2]
          (kernelShape g (u.extent 1)) :=
    and_congr (correlates_borderless_iff.trans (and_iff_right hwhole)) (by rw [← hshape]; exact Iff.rfl)
  rw [adjoint_eq_ite hs, adjoint_eq_ite (geometry_borderless hs)]
  split_ifs with hrank hcorrelates hcorrelates'
  · rfl
  · exact congrArg Except.ok (windowSpread_bordered (s := g.sweep) _ u)
  · exact absurd (hc.mp hcorrelates) hcorrelates'
  · exact absurd (hc.mpr ‹_›) hcorrelates
  · rfl

theorem corresponds_adjoint (hs : s.geometry = .ok g) (u : Tensor α) :
    Corresponds (Whole N H W) (fun v v₀ => v = v₀.cropped g.pad) (s.adjoint [N, C, H, W] u)
      (s.borderless.adjoint [N, C, H + 2 * g.pad.1, W + 2 * g.pad.2] u) := by
  refine Corresponds.of_eq_map (fun v h => ?_) fun hwhole => adjoint_bordered hs hwhole u
  rw [adjoint_eq_ite hs] at h
  split_ifs at h with hrank hc
  exact (correlates_borderless_iff.mp hc.1).1

end Smoother

/-! ### The oriented convolution -/

def Estimator.borderless {ω : Type} (e : Estimator ω) : Estimator ω := { e with smoother := e.smoother.borderless }

/-- A forward pass without a border, over the extended batch. -/
def ForwardPass.extended {α : Type} [Zero α] (p : ForwardPass α) : ForwardPass α :=
  { p with input := p.input.bordered p.sweep.pad, sweep := p.sweep.borderless }

/-- Gradients whose part in the input is cropped. -/
def Gradients.cropped {α : Type} [Zero α] (pad : ℕ × ℕ) (g : Gradients α) : Gradients α :=
  { g with input := g.input.map (Tensor.cropped pad) }

section Convolution

variable {α : Type} [Zero α] [Add α] [Mul α] {s : Sweep} {groups N C H W : ℕ} {x w q : Tensor α}
  {bias : Option (Tensor α)}

theorem corresponds_correlate (hx : x.shape = [N, C, H, W]) (w : Tensor α) : Corresponds (Whole N H W) Eq
    (correlate? s groups x w) (correlate? s.borderless groups (x.bordered s.pad) w) := by
  have hc : Correlates s groups [N, C, H, W] w.shape ↔ _ := correlates_borderless_iff
  have hsame : correlate s.borderless groups (x.bordered s.pad) w = _ := correlate_bordered hx w
  unfold correlate?
  rw [hx, shape_bordered hx, hsame]
  constructor
  · intro y h
    split_ifs at h with hcorrelates
    obtain ⟨hwhole, hc⟩ := hc.mp hcorrelates
    exact ⟨hwhole, y, by rw [if_pos hc]; exact h, rfl⟩
  · intro hwhole y h
    split_ifs at h with hcorrelates
    exact ⟨y, by rw [if_pos (hc.mpr ⟨hwhole, hcorrelates⟩)]; exact h, rfl⟩

theorem corresponds_steeredSum (hx : x.shape = [N, C, H, W]) (w q : Tensor α) : Corresponds (Whole N H W) Eq
    (steeredSum s groups x w q) (steeredSum s.borderless groups (x.bordered s.pad) w q) := by
  have hresponse (r : ℕ) : Corresponds (Whole N H W) Eq (weightedResponse s groups x w q r)
      (weightedResponse s.borderless groups (x.bordered s.pad) w q r) :=
    (corresponds_correlate hx (turned r w)).andThen _
  have h := (hresponse 0).bind fun p p' h₀ => (hresponse 1).bind fun p₁ p₁' h₁ => (hresponse 2).bind fun p₂ p₂' h₂ =>
    (hresponse 3).bind fun p₃ p₃' h₃ => by
      subst h₀ h₁ h₂ h₃
      exact Corresponds.refl (a := .ok (zipWith (· + ·) (zipWith (· + ·) (zipWith (· + ·) p p₁) p₂) p₃))
  exact h.congr (by simp only [and_self, and_true])

theorem corresponds_steer (hx : x.shape = [N, C, H, W]) : Corresponds (Whole N H W) Eq
    (steer s groups x w bias q) (steer s.borderless groups (x.bordered s.pad) w bias q) := by
  have hsum : Corresponds (Whole N H W) Eq (steeredSum s groups x w q)
      (steeredSum s.borderless groups (x.bordered s.pad) w q) := corresponds_steeredSum hx w q
  unfold steer
  rw [toImages?_batch hx, toImages?_batch (shape_bordered hx), fitting_some, fitting_some]
  exact (Corresponds.refl.bind fun _ _ _ => hsum.andThen _).congr (and_iff_right trivial)

theorem correlateKernel?_bordered (hx : x.shape = [N, C, H, W]) (hwhole : Whole N H W) (shape : List ℕ)
    (g : Tensor α) :
    correlateKernel? s.borderless groups shape (x.bordered s.pad) g = correlateKernel? s groups shape x g := by
  unfold correlateKernel?
  rw [hx, shape_bordered hx, correlateKernel_bordered hx, correlationShape_borderless]
  refine if_congr (and_congr_left fun _ => ?_) rfl rfl
  exact (correlates_borderless_iff.trans (and_iff_right hwhole)).symm

theorem correlateInput?_bordered (hwhole : Whole N H W) (w g : Tensor α) : correlateInput? s groups [N, C, H, W] w g =
    Tensor.cropped s.pad <$> correlateInput? s.borderless groups [N, C, H + 2 * s.pad.1, W + 2 * s.pad.2] w g := by
  unfold correlateInput?
  rw [correlateInput_bordered, correlationShape_borderless]
  have hc : Correlates s groups [N, C, H, W] w.shape ↔ _ := correlates_borderless_iff.trans (and_iff_right hwhole)
  by_cases h : Correlates s groups [N, C, H, W] w.shape ∧ g.shape = correlationShape s [N, C, H, W] w.shape
  · rw [if_pos h, if_pos ⟨hc.mp h.1, h.2⟩]
    rfl
  · rw [if_neg h, if_neg fun h' => h ⟨hc.mpr h'.1, h'.2⟩]
    rfl

variable {p : ForwardPass α}

/-- The gradient in the kernel does not depend on how the border is given. -/
theorem weightGradient_extended (hx : p.input.shape = [N, C, H, W]) (hwhole : Whole N H W) (u : Tensor α) :
    p.extended.weightGradient u = p.weightGradient u := by
  have hshare (r : ℕ) : p.extended.weightShare u r = p.weightShare u r := by
    unfold ForwardPass.weightShare
    show (p.share u r >>= correlateKernel? p.sweep.borderless p.groups p.weight.shape
      (p.input.bordered p.sweep.pad)) = _
    cases p.share u r with
    | error e => rfl
    | ok t => exact correlateKernel?_bordered hx hwhole _ t
  unfold ForwardPass.weightGradient
  rw [hshare, hshare, hshare, hshare]
  rfl

/-- The gradient in the batch is the middle of that in the extended batch. -/
theorem inputGradient_extended (hx : p.input.shape = [N, C, H, W]) (hwhole : Whole N H W) (u : Tensor α) :
    p.inputGradient u = Tensor.cropped p.sweep.pad <$> p.extended.inputGradient u := by
  have hextended : (p.input.bordered p.sweep.pad).shape = _ := shape_bordered hx
  have hshare (r : ℕ) : p.inputShare u r = Tensor.cropped p.sweep.pad <$> p.extended.inputShare u r := by
    unfold ForwardPass.inputShare
    show (p.share u r >>= correlateInput? p.sweep p.groups p.input.shape (turned r p.weight)) =
      _ <$> (p.share u r >>= correlateInput? p.sweep.borderless p.groups (p.input.bordered p.sweep.pad).shape
        (turned r p.weight))
    rw [hx, hextended]
    cases p.share u r with
    | error e => rfl
    | ok t => exact correlateInput?_bordered hwhole _ t
  have hshape (r : ℕ) {t : Tensor α} (h : p.extended.inputShare u r = .ok t) :
      t.shape = [N, C, H + 2 * p.sweep.pad.1, W + 2 * p.sweep.pad.2] := by
    obtain ⟨t', -, h⟩ := bind_eq_ok_iff.mp h
    unfold correlateInput? at h
    split_ifs at h
    obtain rfl := Except.ok.inj h
    show [_, _, _, _] = _
    rw [show p.extended.input.shape = _ from hextended]
    rfl
  unfold ForwardPass.inputGradient
  rw [hshare, hshare, hshare, hshare]
  rcases h₀ : p.extended.inputShare u 0 with _ | t₀
  · rfl
  rcases h₁ : p.extended.inputShare u 1 with _ | t₁
  · rfl
  rcases h₂ : p.extended.inputShare u 2 with _ | t₂
  · rfl
  rcases h₃ : p.extended.inputShare u 3 with _ | t₃
  · rfl
  refine congrArg Except.ok ?_
  have s₀ := hshape 0 h₀
  rw [cropped_zipWith (by exact s₀) (hshape 3 h₃), cropped_zipWith (by exact s₀) (hshape 2 h₂),
    cropped_zipWith s₀ (hshape 1 h₁)]

/-- The gradients of a pass with a border are those of the extended pass, cropped. -/
theorem gradients_extended (hx : p.input.shape = [N, C, H, W]) (hwhole : Whole N H W) (requested : Requested)
    (u : Tensor α) : p.gradients requested u = Gradients.cropped p.sweep.pad <$> p.extended.gradients requested u := by
  have hshare (c : Tensor α) (r : ℕ) : p.extended.share c r = p.share c r := rfl
  unfold ForwardPass.gradients
  cases fitting u.toImages? with
  | error e => rfl
  | ok c =>
    rw [ok_bind, ok_bind, inputGradient_extended hx hwhole, weightGradient_extended hx hwhole]
    simp only [hshare]
    cases (forIn (List.range rotations) PUnit.unit fun r _ => p.share c r >>= fun _ => pure (.yield PUnit.unit) :
        Except Fault PUnit) with
    | error e => rfl
    | ok _ =>
      rw [ok_bind, ok_bind]
      obtain ⟨input, weight, bias⟩ := requested
      cases input <;> cases weight <;> cases bias <;> cases p.extended.inputGradient c <;>
        cases p.weightGradient c <;> cases biasGradient u <;> rfl

end Convolution

section Pass

variable {s : Sweep} {groups N C H W N' C' H' W' : ℕ} {x map w : Tensor ℝ} {bias : Option (Tensor ℝ)}
  {e : Estimator ℝ} {g : Geometry}

/-- Two results of the oriented convolution: they have the same outputs, and their gradients are the same
but for that in the batch, which is cropped. -/
structure SamePass (pad : ℕ × ℕ) (r r₀ : Orientation ℝ ℝ × Tensor ℝ × ForwardPass ℝ) : Prop where
  orientation : r.1 = r₀.1
  output : r.2.1 = r₀.2.1
  gradients : ∀ (requested : Requested) (u : Tensor ℝ),
    r.2.2.gradients requested u = Gradients.cropped pad <$> r₀.2.2.gradients requested u

theorem corresponds_orient (he : e.smoother.geometry = .ok g) (hmap : map.shape = [N, C, H, W]) :
    Corresponds (Whole N H W) Eq (orient e map : Except Fault (Orientation ℝ ℝ × Tensor ℝ))
      (orient e.borderless (map.bordered g.pad)) := by
  have hestimate : Corresponds (Whole N H W) Eq (e.estimate map : Except Fault (Orientation ℝ ℝ))
      (e.borderless.estimate (map.bordered g.pad)) :=
    (Smoother.corresponds_smooth he hmap).andThen fun smoothed => .ok (orientationOf smoothed)
  exact hestimate.andThen _

/-- The oriented convolution with a border is the one of the extended batch and the extended map. -/
theorem corresponds_forwardPass (he : e.smoother.geometry = .ok g) (hx : x.shape = [N, C, H, W])
    (hmap : map.shape = [N', C', H', W']) : Corresponds (Whole N' H' W' ∧ Whole N H W) (SamePass s.pad)
      (forwardPass e s groups x map w bias)
      (forwardPass e.borderless s.borderless groups (x.bordered s.pad) (map.bordered g.pad) w bias) := by
  constructor
  · intro r h
    obtain ⟨⟨orientation, q⟩, horient, h⟩ := bind_eq_ok_iff.mp h
    obtain ⟨output, hsteer, h⟩ := bind_eq_ok_iff.mp h
    obtain rfl := Except.ok.inj h
    obtain ⟨hwhole', _, horient', rfl⟩ := (corresponds_orient he hmap).implicit _ horient
    obtain ⟨hwhole, _, hsteer', rfl⟩ := (corresponds_steer hx).implicit _ hsteer
    refine ⟨⟨hwhole', hwhole⟩, (orientation, output, ForwardPass.extended ⟨x, w, q, s, groups⟩), ?_, rfl, rfl,
      gradients_extended (p := ⟨x, w, q, s, groups⟩) hx hwhole⟩
    exact bind_eq_ok_iff.mpr ⟨_, horient', bind_eq_ok_iff.mpr ⟨_, hsteer', rfl⟩⟩
  · rintro ⟨hwhole', hwhole⟩ r h
    obtain ⟨_, horient', h⟩ := bind_eq_ok_iff.mp h
    obtain ⟨_, hsteer', h⟩ := bind_eq_ok_iff.mp h
    obtain rfl := Except.ok.inj h
    obtain ⟨⟨orientation, q⟩, horient, rfl⟩ := (corresponds_orient he hmap).explicit hwhole' _ horient'
    obtain ⟨output, hsteer, rfl⟩ := (corresponds_steer hx).explicit hwhole _ hsteer'
    refine ⟨(orientation, output, ⟨x, w, q, s, groups⟩), ?_, rfl, rfl,
      gradients_extended (p := ⟨x, w, q, s, groups⟩) hx hwhole⟩
    exact bind_eq_ok_iff.mpr ⟨_, horient, bind_eq_ok_iff.mpr ⟨_, hsteer, rfl⟩⟩

end Pass

/-! ### The loss -/

section Loss

variable {N C H W N' C' H' W' : ℕ} {s : Smoother ℝ} {g : Geometry} {a b : Tensor ℝ} {pad : ℕ × ℕ}

theorem products_bordered (ha : a.shape = [N, C, H, W]) (hb : b.shape = [N, C, H, W]) :
    products (a.bordered pad) (b.bordered pad) = (products a b).bordered pad := by
  have ha' : (a.bordered pad).shape = _ := shape_bordered ha
  refine ext_at4 (by exact ha') (shape_bordered (by exact ha)) fun n hn c hc h hh w hw => ?_
  rw [at4_bordered (by exact ha), padded_products ha hb]
  unfold products
  rw [at4_zipWith ha' (shape_bordered hb) hn hc hh hw, at4_bordered ha, at4_bordered hb]

theorem averagesOver_bordered (sweep : Sweep) (table : Tensor ℝ) (ha : a.shape = [N, C, H, W])
    (hb : b.shape = [N, C, H, W]) :
    averagesOver sweep.borderless table (a.bordered sweep.pad) (b.bordered sweep.pad) =
      averagesOver sweep table a b := by
  unfold averagesOver
  dsimp only
  rw [products_bordered ha ha, products_bordered hb hb, products_bordered ha hb, windowAverage_bordered ha,
    windowAverage_bordered hb, windowAverage_bordered (by exact ha), windowAverage_bordered (by exact hb),
    windowAverage_bordered (by exact ha)]

/-- What the averages of two batches are, and when there are some. -/
theorem windowAverages_eq_ok_iff (hs : s.geometry = .ok g) (ha : a.shape = [N, C, H, W]) {v : WindowAverages ℝ} :
    windowAverages s a b = .ok v ↔ b.shape = a.shape ∧ Correlates g.sweep C [N, C, H, W] (Smoother.kernelShape g C) ∧
      averagesOver g.sweep s.table a b = v := by
  have haverages (hab : b.shape = a.shape) (hc : Correlates g.sweep C [N, C, H, W] (Smoother.kernelShape g C)) :
      windowAverages s a b = .ok (averagesOver g.sweep s.table a b) := by
    have haccepts : s.accepts a.shape = .ok g := by
      rw [ha]
      exact Smoother.accepts_of_geometry hs hc
    rw [windowAverages_eq haccepts hab, map_narrow_real]
  constructor
  · intro h
    have hab : b.shape = a.shape := by
      by_contra hab
      unfold windowAverages at h
      rw [if_pos (Ne.symm hab)] at h
      cases h
    have hc : Correlates g.sweep C [N, C, H, W] (Smoother.kernelShape g C) := by
      unfold windowAverages at h
      rw [if_neg (not_not.mpr hab.symm)] at h
      obtain ⟨mean, hmean, -⟩ := bind_eq_ok_iff.mp h
      exact ((Smoother.smooth_eq_ok_iff hs ha).mp hmean).1
    exact ⟨hab, hc, Except.ok.inj ((haverages hab hc).symm.trans h)⟩
  · rintro ⟨hab, hc, rfl⟩
    exact haverages hab hc

/-- The averages of two batches with a border are those of the extended batches. -/
theorem corresponds_windowAverages (hs : s.geometry = .ok g) (ha : a.shape = [N, C, H, W])
    (hb : b.shape = [N', C', H', W']) : Corresponds (Whole N H W) (fun v v₀ => v = v₀ ∧ b.shape = a.shape)
      (windowAverages s a b) (windowAverages s.borderless (a.bordered g.pad) (b.bordered g.pad)) := by
  have hborderless (v : WindowAverages ℝ) := windowAverages_eq_ok_iff (b := b.bordered g.pad) (v := v)
    (Smoother.geometry_borderless hs) (shape_bordered ha : (a.bordered g.pad).shape = _)
  constructor
  · intro v h
    obtain ⟨hab, hc, rfl⟩ := (windowAverages_eq_ok_iff hs ha).mp h
    obtain ⟨hwhole, hc⟩ := correlates_borderless_iff.mp hc
    have hb := hab.trans ha
    refine ⟨hwhole, _, (hborderless _).mpr ⟨?_, hc, averagesOver_bordered g.sweep s.table ha hb⟩, rfl, hab⟩
    rw [shape_bordered ha, shape_bordered hb]
  · intro hwhole v h
    obtain ⟨hab, hc, rfl⟩ := (hborderless v).mp h
    have hab : b.shape = a.shape := by
      rw [shape_bordered ha, shape_bordered hb] at hab
      rw [ha, hb]
      simp only [List.cons.injEq, and_true] at hab ⊢
      omega
    refine ⟨_, (windowAverages_eq_ok_iff hs ha).mpr ⟨hab, correlates_borderless_iff.mpr ⟨hwhole, hc⟩, rfl⟩, ?_, hab⟩
    exact (averagesOver_bordered g.sweep s.table ha (hab.trans ha)).symm

/-- A comparison without a border, of the extended batches. -/
noncomputable def SimilarityPass.extended (pad : ℕ × ℕ) (p : SimilarityPass ℝ ℝ) : SimilarityPass ℝ ℝ :=
  { p with smoother := p.smoother.borderless, first := p.first.bordered pad, second := p.second.bordered pad }

theorem ofFlat_combination {mean own square other cross : Tensor ℝ} (hm : mean.shape = [N, C, H, W])
    (ho : own.shape = [N, C, H, W]) (hs : square.shape = [N, C, H, W]) (h : other.shape = [N, C, H, W])
    (hc : cross.shape = [N, C, H, W]) :
    (ofFlat [N, C, H, W] fun i => mean.flat i + two * own.flat i * square.flat i + other.flat i * cross.flat i) =
      ofImages N C H W fun n c i j => mean.at4 n c i j + two * own.at4 n c i j * square.at4 n c i j +
        other.at4 n c i j * cross.at4 n c i j := by
  refine ext_at4 (N := N) (C := C) (H := H) (W := W) rfl rfl fun n hn c hc' i hi j hj => ?_
  rw [at4_eq_flat rfl hn hc' hi hj, flat_ofFlat (position_lt hn hc' hi hj), at4_ofImages hn hc' hi hj,
    at4_eq_flat hm hn hc' hi hj, at4_eq_flat ho hn hc' hi hj, at4_eq_flat hs hn hc' hi hj, at4_eq_flat h hn hc' hi hj,
    at4_eq_flat hc hn hc' hi hj]

/-- A combination at every pixel is cropped by cropping what was spread. -/
theorem cropped_combination {mean own square other cross : Tensor ℝ}
    (hm : mean.shape = [N, C, H + 2 * pad.1, W + 2 * pad.2]) (ho : own.shape = [N, C, H, W])
    (hs : square.shape = [N, C, H + 2 * pad.1, W + 2 * pad.2]) (h : other.shape = [N, C, H, W])
    (hc : cross.shape = [N, C, H + 2 * pad.1, W + 2 * pad.2]) :
    (ofFlat own.shape fun i => (mean.cropped pad).flat i + two * own.flat i * (square.cropped pad).flat i +
        other.flat i * (cross.cropped pad).flat i) =
      (ofFlat (own.bordered pad).shape fun i => mean.flat i + two * (own.bordered pad).flat i * square.flat i +
        (other.bordered pad).flat i * cross.flat i).cropped pad := by
  have hshape {t : Tensor ℝ} (ht : t.shape = [N, C, H + 2 * pad.1, W + 2 * pad.2]) :
      (t.cropped pad).shape = [N, C, H, W] := by
    rw [cropped_eq ht, shape_ofImages]
  have hcropped {t : Tensor ℝ} (ht : t.shape = [N, C, H + 2 * pad.1, W + 2 * pad.2]) {n c i j : ℕ} (hn : n < N)
      (hc : c < C) (hi : i < H) (hj : j < W) : (t.cropped pad).at4 n c i j = t.at4 n c (i + pad.1) (j + pad.2) := by
    rw [cropped_eq ht, at4_ofImages hn hc hi hj]
  have hinside {t : Tensor ℝ} (ht : t.shape = [N, C, H, W]) (n c i j : ℕ) :
      (t.bordered pad).at4 n c (i + pad.1) (j + pad.2) = t.at4 n c i j := by
    rw [at4_bordered ht, padded_inside]
  rw [ho, shape_bordered ho, ofFlat_combination (hshape hm) ho (hshape hs) h (hshape hc),
    ofFlat_combination hm (shape_bordered ho) hs (shape_bordered h) hc, cropped_ofImages]
  refine ofImages_congr fun n hn c hc' i hi j hj => ?_
  rw [hcropped hm hn hc' hi hj, hcropped hs hn hc' hi hj, hcropped hc hn hc' hi hj, hinside ho, hinside h]

/-- The gradient of the loss in a batch is the middle of that in the extended batch. -/
theorem gradientIn_extended {p : SimilarityPass ℝ ℝ} (hs : p.smoother.geometry = .ok g) {own other : Tensor ℝ}
    (hown : own.shape = [N, C, H, W]) (hother : other.shape = [N, C, H, W]) (hwhole : Whole N H W)
    (ownMean otherMean : Tensor ℝ) (u : ℝ) : p.gradientIn own other ownMean otherMean u = Tensor.cropped g.pad <$>
      (p.extended g.pad).gradientIn (own.bordered g.pad) (other.bordered g.pad) ownMean otherMean u := by
  have hback (t : Tensor ℝ) : p.smoother.adjoint own.shape t = Tensor.cropped g.pad <$>
      p.smoother.borderless.adjoint (own.bordered g.pad).shape t := by
    rw [hown, shape_bordered hown]
    exact Smoother.adjoint_bordered hs hwhole t
  have hshape {t v : Tensor ℝ} (h : p.smoother.borderless.adjoint (own.bordered g.pad).shape t = .ok v) :
      v.shape = [N, C, H + 2 * g.pad.1, W + 2 * g.pad.2] := by
    rw [shape_bordered hown] at h
    exact Smoother.shape_of_adjoint (Smoother.geometry_borderless hs) h
  have hgradient (q : SimilarityPass ℝ ℝ) (own other : Tensor ℝ) : q.gradientIn own other ownMean otherMean u =
      q.smoother.adjoint own.shape (q.inSquare u) >>= fun square =>
        q.smoother.adjoint own.shape (q.inCross u) >>= fun cross =>
          q.smoother.adjoint own.shape (q.inMean ownMean otherMean u) >>= fun mean => .ok (ofFlat own.shape fun i =>
            mean.flat i + two * own.flat i * square.flat i + other.flat i * cross.flat i) := rfl
  rw [hgradient, hgradient, hback, hback, hback]
  show _ = Tensor.cropped g.pad <$> (p.smoother.borderless.adjoint _ (p.inSquare u) >>= fun square =>
    p.smoother.borderless.adjoint _ (p.inCross u) >>= fun cross =>
      p.smoother.borderless.adjoint _ (p.inMean ownMean otherMean u) >>= _)
  rcases hsquare : p.smoother.borderless.adjoint (own.bordered g.pad).shape (p.inSquare u) with _ | square
  · rfl
  rcases hcross : p.smoother.borderless.adjoint (own.bordered g.pad).shape (p.inCross u) with _ | cross
  · rfl
  rcases hmean : p.smoother.borderless.adjoint (own.bordered g.pad).shape (p.inMean ownMean otherMean u) with _ | mean
  · rfl
  exact congrArg Except.ok (cropped_combination (hshape hmean) hown (hshape hsquare) hother (hshape hcross))

/-- Two comparisons: they have the same loss, and the gradients of the first are those of the second, cropped. -/
structure SameLoss (pad : ℕ × ℕ) (p p₀ : SimilarityPass ℝ ℝ) : Prop where
  loss : p.loss = p₀.loss
  first : ∀ u : ℝ, p.firstGradient u = Tensor.cropped pad <$> p₀.firstGradient u
  second : ∀ u : ℝ, p.secondGradient u = Tensor.cropped pad <$> p₀.secondGradient u

/-- The loss of two batches with a border is that of the extended batches. -/
theorem corresponds_similarityPass (hs : s.geometry = .ok g) (ha : a.shape = [N, C, H, W])
    (hb : b.shape = [N', C', H', W']) (c1 c2 : ℝ) : Corresponds (Whole N H W) (SameLoss g.pad)
      (similarityPass s c1 c2 a b) (similarityPass s.borderless c1 c2 (a.bordered g.pad) (b.bordered g.pad)) := by
  have hsame (v : WindowAverages ℝ) (hab : b.shape = a.shape) (hwhole : Whole N H W) :
      SameLoss g.pad ⟨s, a, b, v, v.factors c1 c2⟩
        ⟨s.borderless, a.bordered g.pad, b.bordered g.pad, v, v.factors c1 c2⟩ :=
    ⟨rfl, gradientIn_extended (p := ⟨s, a, b, v, v.factors c1 c2⟩) hs ha (hab.trans ha) hwhole _ _,
      gradientIn_extended (p := ⟨s, a, b, v, v.factors c1 c2⟩) hs (hab.trans ha) ha hwhole _ _⟩
  have hcorresponds := corresponds_windowAverages hs ha hb
  constructor
  · intro p h
    obtain ⟨v, hv, h⟩ := bind_eq_ok_iff.mp h
    obtain rfl := Except.ok.inj h
    obtain ⟨hwhole, _, hv₀, rfl, hab⟩ := hcorresponds.implicit v hv
    exact ⟨hwhole, _, bind_eq_ok_iff.mpr ⟨v, hv₀, rfl⟩, hsame v hab hwhole⟩
  · intro hwhole p h
    obtain ⟨_, hv₀, h⟩ := bind_eq_ok_iff.mp h
    obtain rfl := Except.ok.inj h
    obtain ⟨v, hv, rfl, hab⟩ := hcorresponds.explicit hwhole _ hv₀
    exact ⟨_, bind_eq_ok_iff.mpr ⟨v, hv, rfl⟩, hsame v hab hwhole⟩

end Loss

/-! ### All operations of one window -/

/-- A border is zeros around the images, for every operation with the windows of a smoother: smoothing and
its adjoint, the oriented convolution with the orientation of a map, and the loss of two batches. -/
structure BorderIsZeros (s : Smoother ℝ) (g : Geometry) : Prop where
  smooth : ∀ (x : Tensor ℝ) (N C H W : ℕ), x.shape = [N, C, H, W] →
    Corresponds (Whole N H W) Eq (s.smooth x) (s.borderless.smooth (x.bordered g.pad))
  adjoint : ∀ (x : Tensor ℝ) (N C H W : ℕ), x.shape = [N, C, H, W] → ∀ u : Tensor ℝ,
    Corresponds (Whole N H W) (fun v v₀ => v = v₀.cropped g.pad) (s.adjoint x.shape u)
      (s.borderless.adjoint (x.bordered g.pad).shape u)
  convolution : ∀ (op : Operator) (sweep : Sweep) (groups : ℕ) (x map w : Tensor ℝ) (bias : Option (Tensor ℝ))
    (N C H W N' C' H' W' : ℕ), x.shape = [N, C, H, W] → map.shape = [N', C', H', W'] →
    Corresponds (Whole N' H' W' ∧ Whole N H W) (SamePass sweep.pad) (forwardPass ⟨op, s⟩ sweep groups x map w bias)
      (forwardPass ⟨op, s.borderless⟩ sweep.borderless groups (x.bordered sweep.pad) (map.bordered g.pad) w bias)
  loss : ∀ (c1 c2 : ℝ) (a b : Tensor ℝ) (N C H W N' C' H' W' : ℕ), a.shape = [N, C, H, W] →
    b.shape = [N', C', H', W'] → Corresponds (Whole N H W) (SameLoss g.pad) (similarityPass s c1 c2 a b)
      (similarityPass s.borderless c1 c2 (a.bordered g.pad) (b.bordered g.pad))

/-- A border is zeros around the images for the windows of every geometry, and the windows without a border
are those that are built from the options without one. -/
theorem border_is_zeros {s : Smoother ℝ} {g : Geometry} (hs : s.geometry = .ok g) :
    BorderIsZeros s g ∧ s.borderless.geometry = .ok g.borderless ∧
      ∀ (o : GaussianOptions) (globals : GlobalOptions), (Smoother.create o globals).Gives s →
        (Smoother.create o.borderless globals).Returns s.borderless := by
  refine ⟨⟨?_, ?_, ?_, ?_⟩, Smoother.geometry_borderless hs, fun _ _ => Smoother.returns_borderless⟩
  · intro x N C H W hx
    exact Smoother.corresponds_smooth hs hx
  · intro x N C H W hx u
    rw [hx, shape_bordered hx]
    exact Smoother.corresponds_adjoint hs u
  · intro op sweep groups x map w bias N C H W N' C' H' W' hx hmap
    exact corresponds_forwardPass (e := ⟨op, s⟩) hs hx hmap
  · intro c1 c2 a b N C H W N' C' H' W' ha hb
    exact corresponds_similarityPass hs ha hb c1 c2

/-- Windows of two by two pixels with a border of one column, over an image of one column. -/
theorem border_is_zeros_sample : (evenSmoother sampleGeometry).geometry = .ok sampleGeometry ∧
    ∃ y : Tensor ℝ, (evenSmoother sampleGeometry).smooth (fill [1, 1, 2, 1] (3 : ℝ)) = .ok y ∧
      (evenSmoother sampleGeometry).borderless.smooth ((fill [1, 1, 2, 1] (3 : ℝ)).bordered (0, 1)) = .ok y := by
  have hs : (evenSmoother sampleGeometry).geometry = .ok sampleGeometry := Smoother.geometry_gaussian rfl
  have hsmooth := (border_is_zeros hs).1.smooth (fill [1, 1, 2, 1] 3) 1 1 2 1 (shape_fill _ _)
  have hy := Smoother.smooth_eq (x := fill [1, 1, 2, 1] (3 : ℝ))
    (show (evenSmoother sampleGeometry).accepts [1, 1, 2, 1] = .ok sampleGeometry from
      Smoother.accepts_gaussian rfl (by decide))
  obtain ⟨-, _, hz, rfl⟩ := hsmooth.implicit _ hy
  exact ⟨hs, _, hy, hz⟩

end SteeredConv
