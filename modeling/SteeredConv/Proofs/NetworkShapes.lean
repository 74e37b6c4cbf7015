/-
# Every network runs on every size

A network that is built feeds the channels of one layer to the next, past the
comparators that stand between them, and none of its layers changes the size of an
image. So a pass succeeds for images of any size, down to a single pixel, unless some
layer finds an angle that is no number.

Key definitions: `LayerOptions.convs`, `Network.Lined`, `Network.RowAnswers`.
Key theorems: `Network.lined_of_build`, `Network.head_cases`, `Network.answers_cases`,
`Network.trace_cases`, `Network.forward_of_build`.
-/
import SteeredConv.Proofs.Descent
import SteeredConv.Proofs.LayerShapes

namespace SteeredConv

open Tensor

/-- The options of the convolutions among the layers of a description, in order. -/
def LayerOptions.convs (options : List LayerOptions) : List OrientedConvOptions :=
  options.filterMap fun
    | .orientedConv o => some o
    | .similarity _ => none

/-! ### Layers in a row -/

section Rows

variable {α ω : Type}

/-- Each layer takes the channels that the one before it puts out. -/
def ConvLayer.Feeds (l m : ConvLayer α ω) : Prop := m.inChannels = l.options.numOutput

/-- The layers of a network are those of its description: each is set up, takes the channels that the one
before it puts out, and keeps the size. -/
structure Network.Lined (n : Network α ω) (channels : ℤ) (convs : List OrientedConvOptions) : Prop where
  entries : n.layers.map ConvLayer.options = convs
  channels : n.first.inChannels = .int channels
  chain : n.layers.IsChain ConvLayer.Feeds
  fitted : ∀ l ∈ n.layers, ∃ groups B P, l.Fitted groups B P
  sizes : ∀ l ∈ n.layers, l.geometry.keepsSize = true

/-- A layer that keeps the size has a window around every pixel. -/
theorem ConvLayer.gridOf_of_keepsSize {l : ConvLayer α ω} (h : l.geometry.keepsSize = true) {H W : ℕ} (hH : 0 < H)
    (hW : 0 < W) : l.gridOf H W = (H, W) ∧ l.geometry.kernel.1 ≤ H + 2 * l.geometry.pad.1 ∧
      l.geometry.kernel.2 ≤ W + 2 * l.geometry.pad.2 := by
  simp only [Geometry.keepsSize, Bool.and_eq_true, decide_eq_true_eq] at h
  obtain ⟨⟨hstride, hrows⟩, hcolumns⟩ := h
  have hwindows : ∀ {size kernel pad : ℕ}, 0 < size → 2 * pad + 1 = kernel → windows size kernel 1 pad = size := by
    intro size kernel pad hsize hkernel
    unfold windows
    rw [if_pos (by omega), Nat.div_one]
    omega
  refine ⟨?_, by omega, by omega⟩
  show (windows H l.geometry.kernel.1 l.geometry.stride.1 l.geometry.pad.1,
    windows W l.geometry.kernel.2 l.geometry.stride.2 l.geometry.pad.2) = _
  rw [hstride, hwindows hH hrows, hwindows hW hcolumns]

theorem ConvLayer.keepsSize_of_checkSize {l : ConvLayer α ω} (h : Network.checkSize l = .ok ()) :
    l.geometry.keepsSize = true := by
  by_contra hnot
  unfold Network.checkSize at h
  dsimp only at h
  rw [if_neg hnot] at h
  cases h

theorem Network.checkSize_of_forM {ls : List (ConvLayer α ω)} (h : ls.forM Network.checkSize = .ok ()) :
    ∀ l ∈ ls, Network.checkSize l = .ok () := by
  induction ls with
  | nil => simp
  | cons l rest ih =>
    obtain ⟨⟨⟩, hl, h⟩ := bind_eq_ok_iff.mp h
    exact List.forall_mem_cons.mpr ⟨hl, ih h⟩

/-- What a row of layers is depends on the form of the network alone. -/
theorem Network.Lined.congr [Zero α] {n n' : Network α ω} {channels : ℤ} {convs : List OrientedConvOptions}
    (h : n.Lined channels convs) (hform : n'.form = n.form) : n'.Lined channels convs := by
  have hlayers : n'.layers.map ConvLayer.form = n.layers.map ConvLayer.form := by
    have hfirst := congrArg Network.first hform
    have hrest := congrArg Network.rest hform
    change n'.first.form = n.first.form at hfirst
    change n'.rest.map ConvLayer.form = n.rest.map ConvLayer.form at hrest
    unfold layers
    rw [List.map_cons, List.map_cons, hfirst, hrest]
  have hmember : ∀ l' ∈ n'.layers, ∃ l ∈ n.layers, l'.form = l.form := by
    intro l' hl'
    have hmem : l'.form ∈ n.layers.map ConvLayer.form := hlayers ▸ List.mem_map_of_mem hl'
    obtain ⟨l, hl, heq⟩ := List.mem_map.mp hmem
    exact ⟨l, hl, heq.symm⟩
  refine ⟨?_, ?_, ?_, fun l' hl' => ?_, fun l' hl' => ?_⟩
  · have hoptions := congrArg (List.map ConvLayer.options) hlayers
    rw [List.map_map, List.map_map] at hoptions
    exact hoptions.trans h.entries
  · have hchannels := congrArg (fun m : Network α ω => m.first.inChannels) hform
    exact hchannels.trans h.channels
  · have hchain : (n.layers.map ConvLayer.form).IsChain ConvLayer.Feeds := (List.isChain_map _).mpr h.chain
    rw [← hlayers] at hchain
    exact (List.isChain_map ConvLayer.form).mp hchain
  · obtain ⟨l, hl, heq⟩ := hmember l' hl'
    obtain ⟨groups, B, P, hfitted⟩ := h.fitted l hl
    exact ⟨groups, B, P, hfitted.congr heq⟩
  · obtain ⟨l, hl, heq⟩ := hmember l' hl'
    have hgeometry := congrArg ConvLayer.geometry heq
    change l'.geometry = l.geometry at hgeometry
    rw [hgeometry]
    exact h.sizes l hl

end Rows

/-! ### Networks that are built -/

section Built

variable {α ω : Type} [Scalar ω] [Stored α ω] [Draws α ω]

theorem ConvLayer.options_of_build {o : OrientedConvOptions} {globals : GlobalOptions} {c : Value}
    {l : ConvLayer α ω} (h : (ConvLayer.build o globals c).Gives l) : l.options = o ∧ l.inChannels = c := by
  obtain ⟨g, -, h⟩ := Action.gives_bind (Action.gives_reporting h)
  obtain ⟨parts, -, h⟩ := Action.gives_bind h
  obtain ⟨_, -, h⟩ := Action.gives_bind h
  obtain rfl := Action.gives_pure h
  exact ⟨rfl, rfl⟩

namespace Network

/-- The layers of a description are set up in a row; comparators between them pass the channels on. -/
theorem row_of_stack {globals : GlobalOptions} {options : List LayerOptions} {channels : Value}
    {r : List (ConvLayer α ω) × Option (SimilarityLoss ω)} (h : (stack globals channels options).Gives r) :
    r.1.map ConvLayer.options = LayerOptions.convs options ∧ (∀ l ∈ r.1.head?, l.inChannels = channels) ∧
      r.1.IsChain ConvLayer.Feeds ∧ ∀ l ∈ r.1, ∃ groups B P, l.Fitted groups B P := by
  induction options generalizing channels r with
  | nil =>
    obtain rfl := Action.gives_pure h
    refine ⟨rfl, ?_, List.isChain_nil, ?_⟩ <;> intro l hl <;> cases hl
  | cons o rest ih =>
    cases o with
    | orientedConv o =>
      obtain ⟨layer, hlayer, h⟩ := Action.gives_bind h
      obtain ⟨later, hlater, h⟩ := Action.gives_bind h
      obtain rfl := Action.gives_pure h
      obtain ⟨hoptions, hchannels⟩ := ConvLayer.options_of_build hlayer
      obtain ⟨hentries, hhead, hchain, hfitted⟩ := ih hlater
      refine ⟨?_, ?_, ?_, List.forall_mem_cons.mpr ⟨ConvLayer.fitted_of_build hlayer, hfitted⟩⟩
      · rw [List.map_cons, hoptions, hentries]
        rfl
      · rintro _ ⟨⟩
        exact hchannels
      · refine List.isChain_cons.mpr ⟨fun l hl => ?_, hchain⟩
        show l.inChannels = layer.options.numOutput
        rw [hhead l hl, hoptions]
    | similarity o =>
      obtain ⟨own, -, h⟩ := Action.gives_bind h
      obtain ⟨later, hlater, h⟩ := Action.gives_bind h
      obtain rfl := Action.gives_pure h
      obtain ⟨hentries, hhead, hchain, hfitted⟩ := ih hlater
      exact ⟨hentries, hhead, hchain, hfitted⟩

/-- A network that is built is the row of layers of its description. -/
theorem lined_of_build {source : String} {description : Value} {globals : GlobalOptions} {n : Network α ω}
    (h : (build source description globals).Gives n) : ∃ entries channels options,
      description = .map entries ∧ ((Value.lookup? entries "in_channels").getD (.int 1)).whole = .ok channels ∧
        layersOf description = .ok options ∧ n.Lined channels (LayerOptions.convs options) := by
  obtain ⟨entries, hentries, h⟩ := Action.gives_bind h
  obtain ⟨channels, hchannels, h⟩ := Action.gives_bind h
  obtain ⟨_, -, h⟩ := Action.gives_bind h
  obtain ⟨_, -, h⟩ := Action.gives_bind h
  obtain ⟨options, hoptions, h⟩ := Action.gives_bind h
  obtain ⟨r, hr, h⟩ := Action.gives_bind h
  obtain ⟨hmap, hhead, hchain, hfitted⟩ := row_of_stack hr
  have hdescription : description = .map entries := by
    have hmapping := Action.gives_liftM hentries
    unfold entriesOf at hmapping
    split at hmapping
    · rw [Except.ok.inj hmapping]
    · cases hmapping
  refine ⟨entries, channels, options, hdescription, Action.gives_liftM hchannels, Action.gives_liftM hoptions, ?_⟩
  split at h
  · exact absurd h Action.not_gives_throw
  · rename_i first rest loss
    obtain ⟨⟨⟩, hsizes, h⟩ := Action.gives_bind h
    have hkeeps : ∀ l ∈ first :: rest, l.geometry.keepsSize = true := fun l hl =>
      ConvLayer.keepsSize_of_checkSize (checkSize_of_forM (Action.gives_liftM hsizes) l hl)
    have hlined : n.first = first → n.rest = rest → n.Lined channels (LayerOptions.convs options) := by
      intro hfirst hrest
      have hlayers : n.layers = first :: rest := by
        unfold layers
        rw [hfirst, hrest]
      refine ⟨?_, ?_, ?_, ?_, ?_⟩
      · rw [hlayers, ← hmap]
      · rw [hfirst]
        exact hhead first rfl
      · rw [hlayers]
        exact hchain
      · rw [hlayers]
        exact hfitted
      · rw [hlayers]
        exact hkeeps
    dsimp only at h
    split at h
    · obtain ⟨_, -, h⟩ := Action.gives_bind h
      obtain ⟨_, -, h⟩ := Action.gives_bind h
      obtain rfl := Action.gives_pure h
      exact hlined rfl rfl
    · obtain ⟨_, -, h⟩ := Action.gives_bind h
      obtain ⟨_, -, h⟩ := Action.gives_bind h
      obtain rfl := Action.gives_pure h
      exact hlined rfl rfl

end Network

end Built

/-! ### Passes -/

section Passes

variable {α ω : Type} [Scalar α] [Stored α ω] [Directed α α] {N H W : ℕ} {x map : Tensor α}

/-- What a layer that keeps the size answers to a batch of its channels: an output of the same size, unless
some angle is no number. -/
theorem ConvLayer.answer_cases {l : ConvLayer α ω} {groups B P : ℕ} (hl : l.Fitted groups B P)
    (hsize : l.geometry.keepsSize = true) (hgroup : ∃ g, l.options.group = .int g)
    (hx : x.shape = [N, groups * B, H, W]) (hmap : map.shape = [N, 2, H, W]) (hH : 0 < H) (hW : 0 < W) :
    (l.HasAngles map → ∃ o s, l.answer x map = .ok (o, s) ∧ o.sinCos.shape = [N, 2, H, W] ∧
        s.output.shape = [N, groups * P, H, W]) ∧
      (¬l.HasAngles map → l.answer x map = .error .outOfRange) := by
  obtain ⟨hgrid, hh, hw⟩ := gridOf_of_keepsSize hsize hH hW
  have hfits : ¬l.Misfits x.shape map.shape := by
    rw [hx, hmap]
    simp only [Misfits, List.length_cons, List.length_nil, List.getD_cons_zero, List.getD_cons_succ, hl.channels,
      ne_eq, not_true_eq_false, false_or]
    omega
  obtain ⟨_, _, _, -, -, -, -, hsizeFor⟩ := sizeFor_of_not_misfits hl hfits
  obtain ⟨hok, -, herror⟩ := compute_cases hl hx hmap ⟨hH, hW⟩ hh hw
  unfold answer
  rw [hsizeFor, ok_bind]
  constructor
  · intro hangles
    obtain ⟨⟨o, y, p⟩, hr, hcovers⟩ := hok hangles hgroup
    rw [hgrid] at hcovers
    obtain ⟨O, hO, hy⟩ := hcovers.output
    obtain rfl : groups * P = O := by
      rw [hl.outputs, Value.int.injEq] at hO
      exact_mod_cast hO
    refine ⟨o, ⟨p, y⟩, ?_, hcovers.sinCos, hy⟩
    rw [hr]
    rfl
  · intro hangles
    rw [herror hangles]
    rfl

namespace Network

/-- The later layers of a row answer to a batch of `c` channels: the last output has the size of the batch and
the channels of the last layer, unless some layer finds an angle that is no number. -/
structure RowAnswers (slope : α) (map : Tensor α) (ls : List (ConvLayer α ω)) (before : Stage α)
    (N H W c : ℕ) : Prop where
  ok : (∀ l ∈ ls, l.HasAngles map) → ∃ (stages : List (Stage α)) (O : ℕ), answers slope map ls before = .ok stages ∧
    (ls.map fun l => l.options.numOutput).getLast?.getD (.int c) = .int O ∧
    (stages.getLast?.getD before).output.shape = [N, O, H, W]
  error : (¬∀ l ∈ ls, l.HasAngles map) → answers slope map ls before = .error .outOfRange

/-- What a layer and the later layers answer, if these answer to all outputs of the layer. -/
theorem head_cases {slope : α} {l : ConvLayer α ω} {rest : List (ConvLayer α ω)} {groups B P : ℕ}
    (hl : l.Fitted groups B P) (hsize : l.geometry.keepsSize = true) (hgroup : ∃ g, l.options.group = .int g)
    (hx : x.shape = [N, groups * B, H, W]) (hmap : map.shape = [N, 2, H, W]) (hH : 0 < H) (hW : 0 < W)
    (hlater : ∀ s : Stage α, s.output.shape = [N, groups * P, H, W] →
      RowAnswers slope map rest s N H W (groups * P)) :
    ((∀ m ∈ l :: rest, m.HasAngles map) → ∃ o s stages, ∃ O : ℕ, l.answer x map = .ok (o, s) ∧
        answers slope map rest s = .ok stages ∧ o.sinCos.shape = [N, 2, H, W] ∧
        (rest.map fun m => m.options.numOutput).getLast?.getD l.options.numOutput = .int O ∧
        (stages.getLast?.getD s).output.shape = [N, O, H, W]) ∧
      ((¬∀ m ∈ l :: rest, m.HasAngles map) → l.answer x map = .error .outOfRange ∨
        ∃ r, l.answer x map = .ok r ∧ answers slope map rest r.2 = .error .outOfRange) := by
  obtain ⟨hok, herror⟩ := ConvLayer.answer_cases hl hsize hgroup hx hmap hH hW
  constructor
  · intro hangles
    obtain ⟨hown, hrest⟩ := List.forall_mem_cons.mp hangles
    obtain ⟨o, s, hs, hsinCos, hshape⟩ := hok hown
    obtain ⟨stages, O, hstages, hlast, houtput⟩ := (hlater s hshape).ok hrest
    exact ⟨o, s, stages, O, hs, hstages, hsinCos, by rw [hl.outputs]; exact hlast, houtput⟩
  · intro hangles
    by_cases hown : l.HasAngles map
    · obtain ⟨o, s, hs, -, hshape⟩ := hok hown
      have hrest : ¬∀ m ∈ rest, m.HasAngles map := fun h => hangles (List.forall_mem_cons.mpr ⟨hown, h⟩)
      exact .inr ⟨(o, s), hs, (hlater s hshape).error hrest⟩
    · exact .inl (herror hown)

/-- What the later layers of a row answer. The induction is on the row; what it carries along is that each
layer is given the channels that it takes. -/
theorem answers_cases {slope : α} {ls : List (ConvLayer α ω)} {before : Stage α} {c : ℕ}
    (hbefore : before.output.shape = [N, c, H, W]) (hmap : map.shape = [N, 2, H, W]) (hH : 0 < H) (hW : 0 < W)
    (hhead : ∀ l ∈ ls.head?, l.inChannels = .int c) (hchain : ls.IsChain ConvLayer.Feeds)
    (hfitted : ∀ l ∈ ls, ∃ groups B P, l.Fitted groups B P) (hsizes : ∀ l ∈ ls, l.geometry.keepsSize = true)
    (hgroups : ∀ l ∈ ls, ∃ g, l.options.group = .int g) : RowAnswers slope map ls before N H W c := by
  induction ls generalizing before c with
  | nil => exact ⟨fun _ => ⟨[], c, rfl, rfl, hbefore⟩, fun h => absurd (by simp) h⟩
  | cons l rest ih =>
    obtain ⟨⟨groups, B, P, hfit⟩, hrest⟩ := List.forall_mem_cons.mp hfitted
    obtain ⟨hsize, hsizes⟩ := List.forall_mem_cons.mp hsizes
    obtain ⟨hgroup, hgroups⟩ := List.forall_mem_cons.mp hgroups
    obtain ⟨hnext, hchain⟩ := List.isChain_cons.mp hchain
    obtain rfl : groups * B = c := by
      exact_mod_cast (hfit.channels_eq (hhead l rfl)).symm
    have hx : (before.output.map (leaky slope)).shape = [N, groups * B, H, W] := hbefore
    have hfeeds : ∀ m ∈ rest.head?, m.inChannels = .int (groups * P : ℕ) := fun m hm =>
      (hnext m hm).trans hfit.outputs
    obtain ⟨hok, herror⟩ := head_cases hfit hsize hgroup hx hmap hH hW fun _ hs =>
      ih hs hfeeds hchain hrest hsizes hgroups
    constructor
    · intro hangles
      obtain ⟨o, s, stages, O, hs, hstages, -, hlast, houtput⟩ := hok hangles
      refine ⟨s :: stages, O, ?_, ?_, ?_⟩
      · unfold answers
        rw [hs, ok_bind]
        dsimp only
        rw [hstages]
        rfl
      · rw [List.map_cons, List.getLast?_cons, Option.getD_some]
        exact hlast
      · rw [List.getLast?_cons, Option.getD_some]
        exact houtput
    · intro hangles
      unfold answers
      obtain hs | ⟨⟨o, s⟩, hs, hstages⟩ := herror hangles
      · rw [hs]
        rfl
      · rw [hs, ok_bind]
        dsimp only
        rw [hstages]
        rfl

/-- What a row of layers answers to an image of its channels, whatever the size. -/
theorem trace_cases {n : Network α ω} {channels : ℤ} {convs : List OrientedConvOptions} (hn : n.Lined channels convs)
    (hgroups : ∀ o ∈ convs, ∃ g, o.group = .int g) {image : Tensor α} {C : ℕ} (hC : channels = C)
    (himage : image.shape = [N, C, H, W]) (hH : 0 < H) (hW : 0 < W) :
    ((∀ l ∈ n.layers, l.HasAngles (gradientMap image)) → ∃ (t : Trace α) (O : ℕ), n.trace image = .ok t ∧
        n.outChannels = .int O ∧ t.output.shape = [N, O, H, W] ∧ t.sinCos.shape = [N, 2, H, W] ∧
        t.gradientMap.shape = [N, 2, H, W]) ∧
      ((¬∀ l ∈ n.layers, l.HasAngles (gradientMap image)) → n.trace image = .error .outOfRange) := by
  obtain ⟨hmap, hshape⟩ := mapOf_eq himage hH hW
  have hwhole : ∀ l ∈ n.layers, ∃ g, l.options.group = .int g := fun l hl =>
    hgroups _ (hn.entries ▸ List.mem_map_of_mem hl)
  have hlayers : n.layers = n.first :: n.rest := rfl
  obtain ⟨⟨groups, B, P, hfit⟩, hfitted⟩ := List.forall_mem_cons.mp (hlayers ▸ hn.fitted)
  obtain ⟨hsize, hsizes⟩ := List.forall_mem_cons.mp (hlayers ▸ hn.sizes)
  obtain ⟨hgroup, hgroups⟩ := List.forall_mem_cons.mp (hlayers ▸ hwhole)
  obtain ⟨hnext, hchain⟩ := List.isChain_cons.mp (hlayers ▸ hn.chain)
  obtain rfl : groups * B = C := by
    exact_mod_cast (hC.symm.trans (hfit.channels_eq hn.channels)).symm
  have hfeeds : ∀ m ∈ n.rest.head?, m.inChannels = .int (groups * P : ℕ) := fun m hm =>
    (hnext m hm).trans hfit.outputs
  obtain ⟨hok, herror⟩ := head_cases hfit hsize hgroup himage hshape hH hW
    fun _ hs => answers_cases hs hshape hH hW hfeeds hchain hfitted hsizes hgroups
  unfold trace
  rw [hmap, ok_bind, hlayers]
  constructor
  · intro hangles
    obtain ⟨o, s, stages, O, hs, hstages, hsinCos, hlast, houtput⟩ := hok hangles
    refine ⟨⟨gradientMap image, o.sinCos, s, stages⟩, O, ?_, ?_, houtput, hsinCos, hshape⟩
    · rw [hs, ok_bind]
      dsimp only
      rw [hstages]
      rfl
    · unfold outChannels
      rw [List.getLast?_map] at hlast
      cases hrest : n.rest.getLast? with
      | none => simpa [hrest] using hlast
      | some l => simpa [hrest] using hlast
  · intro hangles
    obtain hs | ⟨⟨o, s⟩, hs, hstages⟩ := herror hangles
    · rw [hs]
      rfl
    · rw [hs, ok_bind]
      dsimp only
      rw [hstages]
      rfl

/-- Every network runs on every size: whatever the description, if a network comes of it, its layers are the
convolutions of the description in order, each taking the channels that the one before it puts out and the
first one those of the description; and for an image of any size a pass of the network, with whatever
entries its parameters have, returns an output of that size, unless some layer finds an angle that is no
number. -/
theorem forward_of_build [Scalar ω] [Draws α ω] {source : String} {description : Value}
    {globals : GlobalOptions} {n₀ n : Network α ω} (h : (build source description globals).Gives n₀)
    (hform : n.form = n₀.form) :
    ∃ entries channels options, description = .map entries ∧
      ((Value.lookup? entries "in_channels").getD (.int 1)).whole = .ok channels ∧
      layersOf description = .ok options ∧ n.layers.map ConvLayer.options = LayerOptions.convs options ∧
      n.inChannels = .int channels ∧ n.layers.IsChain ConvLayer.Feeds ∧
      ((∀ o ∈ LayerOptions.convs options, ∃ g, o.group = .int g) →
        ∀ {image : Tensor α} {N H W : ℕ}, image.shape = [N, channels.toNat, H, W] → 0 < H → 0 < W → ∀ j,
          ((∀ l ∈ n.layers, l.HasAngles (gradientMap image)) → ∃ (t : Trace α) (O : ℕ),
            ((forward (.own image)).outcome n j).1.1 = .ok t ∧ n.outChannels = .int O ∧
            t.output.shape = [N, O, H, W] ∧ t.sinCos.shape = [N, 2, H, W] ∧ t.gradientMap.shape = [N, 2, H, W]) ∧
          ((¬∀ l ∈ n.layers, l.HasAngles (gradientMap image)) →
            ((forward (.own image)).outcome n j).1.1 = .error .outOfRange)) := by
  obtain ⟨entries, channels, options, hdescription, hchannels, hoptions, hlined⟩ := lined_of_build h
  have hn := hlined.congr hform
  refine ⟨entries, channels, options, hdescription, hchannels, hoptions, hn.entries, hn.channels, hn.chain, ?_⟩
  intro hgroups image N H W himage hH hW j
  have hpositive : channels = (channels.toNat : ℕ) := by
    obtain ⟨groups, B, P, hfit⟩ := hn.fitted n.first (List.mem_cons_self)
    have hfirst := hfit.channels_eq hn.channels
    omega
  have hpass : ((forward (.own image)).outcome n j).1.1 = n.trace image := result_pass image n j
  rw [hpass]
  exact trace_cases hn hgroups hpositive himage hH hW

/-- Two layers pass an image of two by two pixels. -/
theorem forward_of_build_sample : ∃ (t : Trace ℝ) (O : ℕ),
    ((forward (.own (fill [1, 1, 2, 2] 0))).outcome sampleNetwork Journal.empty).1.1 = .ok t ∧
      sampleNetwork.outChannels = .int O ∧ t.output.shape = [1, O, 2, 2] := by
  have := Draws.middling ℝ ℝ
  obtain ⟨entries, channels, options, -, -, -, hlayers, hchannels, -, hpass⟩ :=
    forward_of_build build_sampleNetwork rfl
  obtain rfl : 1 = channels := Value.int.inj hchannels
  have hgroups : ∀ o ∈ LayerOptions.convs options, ∃ g, o.group = .int g := by
    rw [← hlayers]
    intro o ho
    obtain ⟨l, hl, rfl⟩ := List.mem_map.mp ho
    rcases List.mem_cons.mp hl with rfl | hl
    · exact ⟨1, rfl⟩
    · rw [List.mem_singleton.mp hl]
      exact ⟨1, rfl⟩
  have himage : (fill [1, 1, 2, 2] (0 : ℝ)).shape = [1, (1 : ℤ).toNat, 2, 2] := rfl
  obtain ⟨t, O, ht, hO, houtput, -, -⟩ :=
    (hpass hgroups himage Nat.two_pos Nat.two_pos Journal.empty).1 fun l _ => l.hasAngles_real _
  exact ⟨t, O, ht, hO, houtput⟩

end Network

end Passes

/-! ### A network of one entry -/

section Single

open ConvLayer

noncomputable local instance middlingExact : Draws ExactFloat ExactFloat := Draws.middling ExactFloat ExactFloat

/-- The description of one layer with one kernel of one entry, and a comparator. -/
def singleDescription : Value :=
  let one : Value := .map [(.text "type", .text "constant"), (.text "value", .int 1)]
  let conv : Value := .map [(.text "type", .text "GradOrientConvolution"), (.text "num_output", .int 1),
    (.text "kernel_size", .int 1), (.text "bias_term", .bool false), (.text "weight_filler", one)]
  let loss : Value := .map [(.text "type", .text "SSIMLoss"), (.text "kernel_size", .int 2),
    (.text "c1", .int 1), (.text "c2", .int 1)]
  .map [(.text "negative_slope", .int 0), (.text "layers", .list [conv, loss])]

/-- The network of this description. -/
noncomputable def singleNetwork : Network ExactFloat ExactFloat where
  gradient := ⟨.gradient, "torch", {}⟩
  slope := Scalar.ofFloat (Float.ofInt 0)
  first := ofSingle ExactFloat ExactFloat
  rest := []
  loss := ⟨sampleLoss, {}, squareWindows 2 0 (Nat.succ_pos _), ⟨⟨.smoother, "torch", {}⟩,
    (squareWindows 2 0 (Nat.succ_pos _)).gaussian .null,
    gaussianTable 2 2 (middle 2, middle 2) (footprintDeviation 2 2) true⟩⟩

set_option maxRecDepth 10000 in
theorem build_singleNetwork : (Network.build "" singleDescription {}).Gives singleNetwork :=
  ⟨Journal.empty, by with_unfolding_all rfl⟩

/-- The gradient of a pixel that is no number is none. -/
theorem at4_gradientMap_nan : (gradientMap (fill [1, 1, 1, 1] ExactFloat.nan)).at4 0 1 0 0 = .nan := by
  set x : Tensor ExactFloat := fill [1, 1, 1, 1] .nan
  have hx : x.shape = [1, 1, 1, 1] := rfl
  have hpixel : x.at4 0 0 0 0 = .nan := by
    rw [at4_eq_flat hx Nat.one_pos Nat.one_pos Nat.one_pos Nat.one_pos]
    exact flat_ofFlat Nat.one_pos
  obtain ⟨x0, x1, x2, x3⟩ := extents hx
  have hmean : (channelMean x).at4 0 0 0 0 = .nan := by
    have htotal : (sumTo 1 fun c => x.at4 0 c 0 0) = .nan := ExactFloat.sumTo_nan Nat.one_pos hpixel
    unfold channelMean
    rw [x0, x1, x2, x3, at4_ofImages Nat.one_pos Nat.one_pos Nat.one_pos Nat.one_pos, htotal, ExactFloat.nan_div]
  have hmap : (channelMean x).shape = [1, 1, 1, 1] := hx
  have hkernels : (gradientKernels : Tensor ExactFloat).shape = [2, 1, 3, 3] := rfl
  obtain ⟨m0, m1, m2, m3⟩ := extents hmap
  obtain ⟨k0, k1, k2, k3⟩ := extents hkernels
  have hwindows : around.grid (3, 3) (1, 1) = (1, 1) := rfl
  unfold gradientMap correlate area
  rw [m0, m2, m3, k0, k1, k2, k3]
  dsimp only
  rw [hwindows]
  dsimp only
  rw [at4_ofImages Nat.one_pos Nat.one_lt_two Nat.one_pos Nat.one_pos]
  refine ExactFloat.sumTo_nan Nat.one_pos (ExactFloat.sumTaps_nan (a := 1) (b := 1) ?_ ?_ ?_)
  · show 1 < 3
    omega
  · show 1 < 3
    omega
  · show (channelMean x).padded (1, 1) 0 0 (0 + 1) (0 + 1) * _ = _
    rw [padded_inside (channelMean x) (1, 1) 0 0 0 0, hmean, ExactFloat.nan_mul]

/-- A network that is built, with whole numbers of groups, does not run on an image of one pixel that is no
number. -/
theorem forward_fails_on_image :
    (Network.build "" singleDescription {}).Gives singleNetwork ∧ singleNetwork.inChannels = .int 1 ∧
      singleNetwork.layers.map (fun l => l.options.group) = [.int 1] ∧
      ∀ j, ((Network.forward (.own (fill [1, 1, 1, 1] ExactFloat.nan))).outcome singleNetwork j).1.1 =
        .error .outOfRange := by
  refine ⟨build_singleNetwork, rfl, rfl, fun j => ?_⟩
  obtain ⟨entries, channels, options, -, -, -, hlined⟩ := Network.lined_of_build build_singleNetwork
  have hchannels : channels = (1 : ℕ) := (Value.int.inj hlined.channels).symm
  have himage : (fill [1, 1, 1, 1] ExactFloat.nan).shape = [1, 1, 1, 1] := rfl
  have hgroups : ∀ o ∈ LayerOptions.convs options, ∃ g, o.group = .int g := by
    rw [← hlined.entries]
    intro o ho
    rw [List.mem_singleton.mp ho]
    exact ⟨1, rfl⟩
  have hmap : (gradientMap (fill [1, 1, 1, 1] ExactFloat.nan)).shape = [1, 2, 1, 1] :=
    (Network.mapOf_eq himage Nat.one_pos Nat.one_pos).2
  have hpass : ((Network.forward (.own (fill [1, 1, 1, 1] ExactFloat.nan))).outcome singleNetwork j).1.1 =
      singleNetwork.trace (fill [1, 1, 1, 1] ExactFloat.nan) := Network.result_pass _ _ _
  rw [hpass]
  refine (Network.trace_cases hlined hgroups hchannels himage Nat.one_pos Nat.one_pos).2 fun h => ?_
  exact not_hasAngles_single hmap at4_gradientMap_nan (h _ (List.mem_cons_self))

end Single
end SteeredConv
