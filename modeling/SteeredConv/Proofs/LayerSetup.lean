/-
# Layers that are set up

A layer comes about by building it or by setting it up again for other channels, and
its parameters take other entries afterwards. Whatever came before, the numbers of its
channels are multiples of its number of groups, and its parameters have the sizes that
belong to them.

Key definitions: `ConvLayer.Fitted`, `ConvLayer.Ready`.
Key theorems: `weightShape_of_accept`, `ConvLayer.fitted_of_build`,
`ConvLayer.fitted_of_setup`, `ConvLayer.fitted_of_ready`.
-/
import SteeredConv.Proofs.NetworkForm

namespace SteeredConv

open Tensor

/-- What the numbers of a layer that is set up have to do with its parts: the input channels are those of
so many groups, the output channels too, and the parameters have their sizes. -/
structure ConvLayer.Fitted {α ω : Type} (l : ConvLayer α ω) (groups B P : ℕ) : Prop where
  sound : l.Sound
  channels : l.inChannels.number? = some (.whole (groups * B : ℕ))
  outputs : l.options.numOutput = .int (groups * P : ℕ)
  group : l.options.group.number? = some (.whole groups)
  groups_pos : 0 < groups
  inputs_pos : 0 < B
  outputs_pos : 0 < P
  kernel : l.weight.value.shape = [groups * P, B, l.geometry.kernel.1, l.geometry.kernel.2]

section Setup

variable {α ω : Type}

theorem atMost_of_number {v : Value} {n : Number} (h : v.number? = some n) :
    v.atMost (.int 0) = .ok (n.le (.whole 0)) := by
  unfold Value.atMost
  rw [h]
  rfl

theorem pos_of_requirePositive {owner : OptionSet} {name : String} {v : Value} {n : ℤ}
    (h : requirePositive owner name v = .ok ()) (hn : v.number? = some (.whole n)) : 0 < n := by
  unfold requirePositive at h
  by_contra hnot
  rw [atMost_of_number hn, Number.le_whole, decide_eq_true (by omega)] at h
  split at h <;> cases h

theorem dividedBy_whole (n g : ℤ) : (Number.whole n).dividedBy (.whole g) = .ok (n % g == 0) := rfl

/-- A whole number of outputs is a multiple of a whole number of groups. -/
theorem requireMultiple_whole {owner : OptionSet} {outputs group : Value} {n g : ℤ}
    (hn : outputs.number? = some (.whole n)) (hg : group.number? = some (.whole g)) :
    requireMultiple owner outputs group =
      if n % g = 0 then .ok () else .error (.option (.groupsDoNotDivide owner)) := by
  unfold requireMultiple
  rw [hn, hg]
  dsimp only
  rw [dividedBy_whole, ok_bind]
  by_cases h : n % g = 0
  · rw [if_pos h, h]
    rfl
  · rw [if_neg h, beq_false_of_ne h]
    rfl

theorem exists_quotient {n g : ℤ} (hn : 0 < n) (hg : 0 < g) (h : n % g = 0) :
    ∃ G B : ℕ, 0 < G ∧ 0 < B ∧ g = G ∧ n = (G * B : ℕ) ∧ (Int.fdiv n g).toNat = B := by
  lift g to ℕ using hg.le with G
  obtain ⟨b, rfl⟩ := Int.dvd_of_emod_eq_zero h
  have hb : 0 < b := pos_of_mul_pos_right hn hg.le
  lift b to ℕ using hb.le with B
  refine ⟨G, B, by omega, by omega, rfl, by push_cast; rfl, ?_⟩
  rw [Int.fdiv_eq_ediv_of_nonneg _ hg.le, Int.mul_ediv_cancel_left _ hg.ne']
  simp

/-- Options that are checked have positive numbers of outputs and groups, one dividing the other. -/
theorem counts_of_check {o : OrientedConvOptions} {g : Geometry} (h : o.check = .ok g) {n groups : ℤ}
    (hn : o.numOutput.number? = some (.whole n)) (hgroups : o.group.number? = some (.whole groups)) :
    0 < n ∧ 0 < groups ∧ n % groups = 0 := by
  unfold OrientedConvOptions.check at h
  obtain ⟨⟨⟩, houtputs, h⟩ := bind_eq_ok_iff.mp h
  obtain ⟨⟨⟩, hgroup, h⟩ := bind_eq_ok_iff.mp h
  obtain ⟨⟨⟩, hmultiple, -⟩ := bind_eq_ok_iff.mp h
  refine ⟨pos_of_requirePositive houtputs hn, pos_of_requirePositive hgroup hgroups, ?_⟩
  rw [requireMultiple_whole hn hgroups] at hmultiple
  by_contra hnot
  rw [if_neg hnot] at hmultiple
  cases hmultiple

/-- A whole number of channels is refused unless it is a positive multiple of the groups. -/
theorem checkChannels_whole {o : OrientedConvOptions} {c : Value} {n groups : ℤ} (hn : c.number? = some (.whole n))
    (hgroups : o.group.number? = some (.whole groups)) : ConvLayer.checkChannels o c =
      if 0 < n ∧ n % groups = 0 then .ok () else .error (.option (.channels c o.group)) := by
  unfold ConvLayer.checkChannels
  rw [atMost_of_number hn, Number.le_whole, ok_bind, hn, hgroups]
  dsimp only
  rw [dividedBy_whole]
  by_cases hpos : 0 < n
  · rw [decide_eq_false (not_le.mpr hpos)]
    by_cases h : n % groups = 0
    · rw [if_pos (show 0 < n ∧ n % groups = 0 from ⟨hpos, h⟩), h]
      rfl
    · rw [if_neg fun hboth : 0 < n ∧ n % groups = 0 => h hboth.2, beq_false_of_ne h]
      rfl
  · rw [if_neg fun h : 0 < n ∧ n % groups = 0 => hpos h.1, decide_eq_true (not_lt.mp hpos)]
    rfl

theorem channels_of_check {o : OrientedConvOptions} {c : Value} (h : ConvLayer.checkChannels o c = .ok ())
    {n groups : ℤ} (hn : c.number? = some (.whole n)) (hgroups : o.group.number? = some (.whole groups)) :
    0 < n ∧ n % groups = 0 := by
  rw [checkChannels_whole hn hgroups] at h
  by_contra hnot
  rw [if_neg hnot] at h
  cases h

/-- The kernels of a layer have the numbers of its channels. -/
theorem weightShape_of_accept {o : OrientedConvOptions} {g : Geometry} {c : Value} {shape : List ℕ}
    (haccept : (ConvLayer.accept o c).Gives g) (h : ConvLayer.weightShape o g c = .ok shape) :
    ∃ G B P : ℕ, 0 < G ∧ 0 < B ∧ 0 < P ∧ c.number? = some (.whole (G * B : ℕ)) ∧
      o.numOutput = .int (G * P : ℕ) ∧ o.group.number? = some (.whole G) ∧
        shape = [G * P, B, g.kernel.1, g.kernel.2] := by
  have hcheck := check_of_accept haccept
  obtain ⟨g', -, haccept⟩ := Action.gives_bind haccept
  obtain ⟨⟨⟩, hchannels, -⟩ := Action.gives_bind haccept
  obtain ⟨outputs, houtputs, h⟩ := bind_eq_ok_iff.mp h
  have hcount : o.numOutput = .int outputs := Smoother.count_eq_ok_iff.mp houtputs
  split at h
  · rename_i n groups hn hgroups
    obtain ⟨hpos, hgroup, hdivides⟩ := counts_of_check hcheck (by rw [hcount]; rfl) hgroups
    obtain ⟨hin, hdivides'⟩ := channels_of_check (Action.gives_liftM hchannels) hn hgroups
    obtain ⟨G, P, hG, hP, rfl, rfl, -⟩ := exists_quotient hpos hgroup hdivides
    obtain ⟨G', B, -, hB, hG', rfl, hquotient⟩ := exists_quotient hin hgroup hdivides'
    obtain rfl : G = G' := by omega
    refine ⟨G, B, P, hG, hB, hP, hn, hcount, hgroups, ?_⟩
    rw [hquotient] at h
    exact (Except.ok.inj h).symm
  · cases h


theorem ConvLayer.Fitted.channels_eq {l : ConvLayer α ω} {groups B P : ℕ} {c : ℤ} (h : l.Fitted groups B P)
    (hc : l.inChannels = .int c) : c = (groups * B : ℕ) := by
  have hchannels := h.channels
  rw [hc] at hchannels
  exact Number.whole.inj (Option.some.inj hchannels)

/-- What a layer is fitted to depends on its form alone. -/
theorem ConvLayer.Fitted.congr [Zero α] {l l' : ConvLayer α ω} {groups B P : ℕ} (h : l.Fitted groups B P)
    (hform : l'.form = l.form) : l'.Fitted groups B P := by
  have hoptions := congrArg ConvLayer.options hform
  have hchannels := congrArg ConvLayer.inChannels hform
  have hgeometry := congrArg ConvLayer.geometry hform
  have hweight := congrArg (fun m : ConvLayer α ω => m.weight.value.shape) hform
  change l'.options = l.options at hoptions
  change l'.inChannels = l.inChannels at hchannels
  change l'.geometry = l.geometry at hgeometry
  change l'.weight.value.shape = l.weight.value.shape at hweight
  refine ⟨?_, ?_, ?_, ?_, h.groups_pos, h.inputs_pos, h.outputs_pos, ?_⟩
  · rw [← ConvLayer.sound_form, hform, ConvLayer.sound_form]
    exact h.sound
  · rw [hchannels, h.channels]
  · rw [hoptions, h.outputs]
  · rw [hoptions, h.group]
  · rw [hweight, hgeometry, h.kernel]

variable [Scalar ω] [Stored α ω]

section Drawn

variable [Draws α ω]

/-- The kernels that are made have the shape that the options give. -/
theorem weightShape_of_allocate {o : OrientedConvOptions} {globals : GlobalOptions} {g : Geometry} {c : Value}
    {parts : ConvLayer.Parts α ω} (h : (ConvLayer.allocate o globals g c).Gives parts) :
    ConvLayer.weightShape o g c = .ok parts.weight.shape := by
  obtain ⟨estimator, -, h⟩ := Action.gives_bind h
  obtain ⟨shape, hshape, h⟩ := Action.gives_bind h
  obtain ⟨weight, hweight, h⟩ := Action.gives_bind h
  have hfill := shape_filledBy (Action.gives_liftM hweight)
  have hparts : parts.weight = weight := by
    dsimp only at h
    split at h
    · obtain ⟨bias, -, h⟩ := Action.gives_bind h
      exact congrArg ConvLayer.Parts.weight (Action.gives_pure h).symm
    · obtain ⟨bias, -, h⟩ := Action.gives_bind h
      exact congrArg ConvLayer.Parts.weight (Action.gives_pure h).symm
  rw [hparts, hfill]
  exact Action.gives_liftM hshape

/-- A layer with the parts that are made for accepted options is fitted. -/
theorem ConvLayer.fitted_of_parts {l : ConvLayer α ω} {parts : ConvLayer.Parts α ω}
    (haccept : (ConvLayer.accept l.options l.inChannels).Gives l.geometry)
    (hparts : (ConvLayer.allocate l.options l.globals l.geometry l.inChannels).Gives parts)
    (hestimator : l.estimator = parts.estimator) (hweight : l.weight.value = parts.weight)
    (hbias : l.bias = parts.bias.map Parameter.fresh) : ∃ groups B P, l.Fitted groups B P := by
  obtain ⟨hoptions, hsmoother, O, B', hshape, hb⟩ := parts_of_allocate hparts
  obtain ⟨G, B, P, hG, hB, hP, hn, hcount, hgroups, hkernel⟩ :=
    weightShape_of_accept haccept (weightShape_of_allocate hparts)
  have hsound : l.Sound := by
    refine ⟨⟨_, hestimator ▸ hoptions⟩, hestimator ▸ hsmoother, kernel_of_check (check_of_accept haccept),
      ⟨O, B', hweight ▸ hshape⟩, fun p hp => ?_⟩
    rw [hbias] at hp
    obtain ⟨b, hmem, rfl⟩ := Option.mem_map.mp hp
    rw [hweight, (extents hshape).1]
    exact hb b hmem
  exact ⟨G, B, P, hsound, hn, hcount, hgroups, hG, hB, hP, hweight ▸ hkernel⟩

theorem ConvLayer.fitted_of_build {o : OrientedConvOptions} {globals : GlobalOptions} {c : Value}
    {l : ConvLayer α ω} (h : (ConvLayer.build o globals c).Gives l) : ∃ groups B P, l.Fitted groups B P := by
  obtain ⟨g, haccept, h⟩ := Action.gives_bind (Action.gives_reporting h)
  obtain ⟨parts, hparts, h⟩ := Action.gives_bind h
  obtain ⟨_, -, h⟩ := Action.gives_bind h
  obtain rfl := Action.gives_pure h
  exact ConvLayer.fitted_of_parts haccept hparts rfl rfl rfl

/-- A layer that is set up again for other channels is fitted to them. -/
theorem ConvLayer.fitted_of_setup {l l' : ConvLayer α ω} {c : Value} (h : (l.setup c).Gives (l', .ok ())) :
    ∃ groups B P, l'.Fitted groups B P := by
  obtain ⟨accepted, haccept, h⟩ := Action.gives_bind h
  cases accepted with
  | error e => cases Action.gives_pure h
  | ok g =>
    obtain ⟨remaining, hremaining, h⟩ := Action.gives_bind h
    cases remaining with
    | error e => cases Action.gives_pure h
    | ok parts =>
      obtain ⟨parts', hparts, hremaining⟩ :=
        Action.gives_bind (Action.gives_reporting (Action.gives_attempt hremaining))
      obtain ⟨_, -, hremaining⟩ := Action.gives_bind hremaining
      obtain rfl := Action.gives_pure hremaining
      obtain ⟨rfl, -⟩ := Prod.mk.inj (Action.gives_pure h)
      exact ConvLayer.fitted_of_parts (Action.gives_reporting (Action.gives_attempt haccept)) hparts rfl rfl rfl

end Drawn

/-- Layers as they come about: built, set up again for other channels, or with other entries of the
parameters and after other shapes. -/
inductive ConvLayer.Ready [Zero α] : ConvLayer α ω → Prop
  | built [Draws α ω] {o : OrientedConvOptions} {globals : GlobalOptions} {c : Value} {l : ConvLayer α ω}
      (h : (ConvLayer.build o globals c).Gives l) : Ready l
  | again [Draws α ω] {l l' : ConvLayer α ω} {c : Value} (h : (l.setup c).Gives (l', .ok ())) : Ready l'
  | changed {l l' : ConvLayer α ω} (h : Ready l) (hform : l'.form = l.form) : Ready l'

theorem ConvLayer.fitted_of_ready [Zero α] {l : ConvLayer α ω} (h : l.Ready) :
    ∃ groups B P, l.Fitted groups B P := by
  induction h with
  | built h => exact fitted_of_build h
  | again h => exact fitted_of_setup h
  | changed _ hform ih =>
    obtain ⟨groups, B, P, hl⟩ := ih
    exact ⟨groups, B, P, hl.congr hform⟩

end Setup

end SteeredConv
