/-
# Training steps descend

One training step moves the parameters of a network against the gradient of the loss
of the batch, a function of all parameters together, whatever the history of the
network: gradients of earlier steps, failed calls and passes of other batches leave no
trace in it.

Key definitions: `Network.lossOf`, `Network.StepDescends`.
Key theorems: `ConvLayer.values_step`, `Network.snapshot_step`, `Network.hasFDerivAt_lossOf`,
`Network.step_descends`.
-/
import SteeredConv.Proofs.ParameterSpace

namespace SteeredConv

open Tensor

/-! ### What a step does to the entries -/

theorem Parameter.value_step (p : Parameter ℝ) (t : Option (Tensor ℝ)) (rate : ℝ) :
    ((t.elim p.clear p.clear.accumulate).descend rate).value =
      ofFlat p.value.shape fun i => p.value.flat i - rate * t.elim 0 fun g => g.flat i := by
  cases t with
  | some g => rfl
  | none =>
    refine ext_flat rfl fun i hi => ?_
    rw [flat_ofFlat (by exact hi)]
    show (ofFlat p.value.shape p.value.flat).flat i = p.value.flat i - rate * 0
    rw [flat_ofFlat (by exact hi), mul_zero, sub_zero]

namespace ConvLayer

/-- The entries of the parameters of a layer. -/
def values {α ω : Type} (l : ConvLayer α ω) : Tensor α × Option (Tensor α) := (l.weight.value, l.biasValue)

theorem withEntries_congr {l : ConvLayer ℝ ℝ} {f f' : Role → ℕ → ℝ}
    (h : ∀ r, ∀ i < l.count r, f r i = f' r i) : l.withEntries f = l.withEntries f' := by
  have hrefill : ∀ (p : Parameter ℝ) (u u' : ℕ → ℝ), (∀ i < p.value.size, u i = u' i) →
      p.refill u = p.refill u' := fun p u u' hu => by
      unfold Parameter.refill
      congr 1
      refine ext_flat rfl fun i hi => ?_
      rw [flat_ofFlat (by exact hi), flat_ofFlat (by exact hi), hu i hi]
  unfold withEntries
  congr 1
  · exact hrefill _ _ _ (h .kernel)
  · cases hb : l.bias with
    | none => rfl
    | some b =>
      refine congrArg some (hrefill _ _ _ fun i hi => h .bias i ?_)
      simpa only [count, hb, Option.elim_some] using hi

/-- Adding a gradient to a layer without gradients and descending moves every entry against its own
entry of the gradient. -/
theorem values_step {l l' : ConvLayer ℝ ℝ} (h : l'.settled = (l.mapParameters Parameter.clear).settled)
    (g : Gradients ℝ) (rate : ℝ) : ((l'.accumulate g).mapParameters (Parameter.descend rate)).values =
      (l.withEntries fun r i => l.entry r i - rate * g.entry r i).values := by
  have hweight : l'.weight = l.weight.clear := congrArg ConvLayer.weight h
  have hbias : l'.bias = l.bias.map Parameter.clear := congrArg ConvLayer.bias h
  unfold values
  congr 1
  · unfold mapParameters accumulate
    dsimp only
    rw [hweight]
    exact Parameter.value_step l.weight g.weight rate
  · unfold biasValue mapParameters accumulate
    dsimp only
    rw [hbias]
    cases hb : l.bias with
    | none =>
      unfold withEntries
      rw [hb]
      rfl
    | some b =>
      unfold withEntries entry
      rw [hb]
      exact congrArg some (Parameter.value_step b g.bias rate)

end ConvLayer

namespace Network

/-- The parameters of a layer at a position by name. -/
def named {α : Type} (v : Tensor α × Option (Tensor α)) (position : ℕ) : List (String × Tensor α) :=
  (parameterName position "weight", v.1) ::
    (v.2.map fun b => (parameterName position "bias", b)).toList

/-- A snapshot shows the entries of the parameters. -/
theorem snapshot_congr {α ω : Type} {n n' : Network α ω}
    (h : n'.layers.map ConvLayer.values = n.layers.map ConvLayer.values) :
    n'.snapshot = n.snapshot := by
  have hnamed : ∀ n : Network α ω, n.snapshot =
      (n.layers.map ConvLayer.values).zipIdx.flatMap fun (v, i) => named v i := fun n => by
    unfold snapshot parameters
    rw [List.map_flatMap, List.zipIdx_map, List.flatMap_map]
    refine congrArg (List.flatMap · _) (funext fun ⟨l, i⟩ => ?_)
    dsimp only [Prod.map, ConvLayer.parameters, ConvLayer.values, ConvLayer.biasValue, named]
    cases l.bias <;> rfl
  rw [hnamed, hnamed, h]

section Kept

variable {α ω : Type} {n : Network α ω}

theorem snapshot_clear (n : Network α ω) : n.clear.snapshot = n.snapshot := by
  refine snapshot_congr ?_
  show (n.layers.map (ConvLayer.mapParameters · Parameter.clear)).map ConvLayer.values = n.layers.map ConvLayer.values
  rw [List.map_map]
  refine List.map_congr_left fun l _ => ?_
  obtain ⟨_, _, _, _, _, _, bias, _⟩ := l
  cases bias <;> rfl

theorem snapshot_accumulate [Scalar α] {g : Gradients α × List (Gradients α)} (h : g.2.length = n.rest.length) :
    (n.accumulate g).snapshot = n.snapshot := by
  have hlength : n.layers.length = (g.1 :: g.2).length := congrArg Nat.succ h.symm
  refine snapshot_congr (List.ext_getElem? fun k => ?_)
  show ((List.zipWith (fun l own => l.accumulate own) n.layers (g.1 :: g.2)).map ConvLayer.values)[k]? = _
  rw [List.getElem?_map, List.getElem?_zipWith, List.getElem?_map]
  cases hl : n.layers[k]? with
  | none => rfl
  | some l =>
    obtain ⟨own, hown⟩ : ∃ own, (g.1 :: g.2)[k]? = some own :=
      ⟨_, List.getElem?_eq_getElem (hlength ▸ (List.getElem?_eq_some_iff.mp hl).1)⟩
    rw [hown]
    obtain ⟨_, _, _, _, _, weight, bias, _⟩ := l
    obtain ⟨_, w, b⟩ := own
    cases bias <;> cases w <;> cases b <;> rfl

theorem fixes_lossOn_snapshot [Scalar α] [Stored α ω] [Directed α α] (loss : Option (SimilarityLoss ω)) (b : Batch α) :
    (lossOn loss b).Fixes (snapshot : Network α ω → List (String × Tensor α)) :=
  fixes_lossOn snapshot_clear (fun _ _ => snapshot_of_settled) (fun _ _ => snapshot_accumulate) loss b

end Kept

theorem layers_descend (n : Network ℝ ℝ) (g : Gradients ℝ × List (Gradients ℝ)) (rate : ℝ) :
    ((n.accumulate g).descend rate).layers = List.zipWith
      (fun l own => (l.accumulate own).mapParameters (Parameter.descend rate)) n.layers (g.1 :: g.2) := by
  unfold descend mapParameters accumulate layers
  rw [List.zipWith_cons_cons, List.map_zipWith]

theorem getElem?_of_settled {n n' : Network ℝ ℝ} (h : n'.settled = n.clear.settled) (k : ℕ) :
    n'.layers[k]?.map ConvLayer.settled =
      n.layers[k]?.map fun l => (l.mapParameters Parameter.clear).settled := by
  have hlayers : n'.layers.map ConvLayer.settled = n.clear.layers.map ConvLayer.settled :=
    congrArg layers h
  have hclear : n.clear.layers = n.layers.map (ConvLayer.mapParameters · Parameter.clear) := rfl
  rw [← List.getElem?_map, hlayers, hclear, List.map_map, List.getElem?_map]
  rfl

/-- Adding gradients to a network without gradients and descending moves every entry against its own
entry of the gradient. -/
theorem snapshot_step {n n' : Network ℝ ℝ} (h : n'.settled = n.clear.settled)
    {g : Gradients ℝ × List (Gradients ℝ)} (hg : g.2.length = n.rest.length) {rate : ℝ} {f : Place → ℝ}
    (hf : ∀ k l own r i, n.layers[k]? = some l → (g.1 :: g.2)[k]? = some own → i < l.count r →
      f (k, r, i) = l.entry r i - rate * own.entry r i) :
    ((n'.accumulate g).descend rate).snapshot = (n.withEntries f).snapshot := by
  refine snapshot_congr (List.ext_getElem? fun k => ?_)
  have hsettled := getElem?_of_settled h k
  rw [layers_withEntries, layers_descend, List.getElem?_map, List.getElem?_map, List.getElem?_mapIdx,
    List.getElem?_zipWith]
  cases hl : n.layers[k]? with
  | none =>
    rw [hl, Option.map_none, Option.map_eq_none_iff] at hsettled
    rw [hsettled]
    rfl
  | some l =>
    rw [hl, Option.map_some, Option.map_eq_some_iff] at hsettled
    obtain ⟨l', hl', hl'l⟩ := hsettled
    obtain ⟨own, hown⟩ : ∃ own, (g.1 :: g.2)[k]? = some own := by
      have hk : k < n.layers.length := (List.getElem?_eq_some_iff.mp hl).1
      have hlength : n.layers.length = (g.1 :: g.2).length := congrArg Nat.succ hg.symm
      exact ⟨_, List.getElem?_eq_getElem (hlength ▸ hk)⟩
    rw [hl', hown]
    refine congrArg some ?_
    rw [ConvLayer.values_step hl'l own rate]
    refine congrArg ConvLayer.values (ConvLayer.withEntries_congr fun r i hi => ?_)
    exact (hf k l own r i hl hown hi).symm

/-! ### The loss of a batch -/

section Loss

variable {α ω : Type} [Scalar α] [Stored α ω] [Directed α α]

def lossOf (loss : Option (SimilarityLoss ω)) (b : Batch α) : Update (Network α ω) Fault α := do
  let trace ← forward b.image
  let n ← get
  let comparison ← Update.act (compare (loss.getD n.loss) trace.output b.target)
  return comparison.loss

theorem lossOf_eq {loss : Option (SimilarityLoss ω)} {b : Batch α} {n : Network α ω} {x y : Tensor α}
    {t : Trace α} {p : SimilarityPass α ω} (hx : b.image = .own x) (hy : b.target = .own y)
    (ht : n.trace x = .ok t) (hp : (loss.getD n.loss).answer t.output y = .ok p) (j : Journal) :
    ((lossOf loss b).outcome n j).1.1 = .ok p.loss := by
  obtain ⟨n', j', -, h⟩ := outcome_compared hx hy ht hp (fun _ _ q => pure q.loss) j
  unfold lossOf
  rw [h]
  rfl

end Loss

theorem answer_clear (l : ConvLayer ℝ ℝ) (x map : Tensor ℝ) :
    (l.mapParameters Parameter.clear).answer x map = l.answer x map := by
  have hbias : (l.mapParameters Parameter.clear).bias.map Parameter.value = l.bias.map Parameter.value := by
    unfold ConvLayer.mapParameters
    rw [Option.map_map]
    rfl
  unfold ConvLayer.answer ConvLayer.compute ConvLayer.respond
  rw [hbias]
  rfl

theorem trace_clear (n : Network ℝ ℝ) (x : Tensor ℝ) : n.clear.trace x = n.trace x :=
  trace_map (f := (ConvLayer.mapParameters · Parameter.clear)) answer_clear n x

/-! ### Descent -/

variable {n : Network ℝ ℝ}

theorem withVector_eq (v : n.Point) : n.withVector v =
    n.withLayers (n.family 0 n.first v) ((n.families 1 n.rest).map (· v)) := by
  have hrest : ((n.families 1 n.rest).map (· v)) = n.rest.mapIdx fun k l => n.family (k + 1) l v := by
    refine List.ext_getElem? fun k => ?_
    unfold families
    rw [List.getElem?_map, List.getElem?_mapIdx, List.getElem?_mapIdx, Option.map_map]
    rfl
  rw [hrest]
  rfl

theorem coordinate_moved {e : Place} (he : e ∈ n.places) (D : n.Point →L[ℝ] ℝ) (rate : ℝ) :
    n.coordinate (n.vector - rate • (InnerProductSpace.toDual ℝ n.Point).symm D) e =
      n.entry e - rate * D (EuclideanSpace.single ⟨e, he⟩ 1) := by
  have hdual : D (EuclideanSpace.single ⟨e, he⟩ 1) =
      (InnerProductSpace.toDual ℝ n.Point).symm D ⟨e, he⟩ := by
    rw [← InnerProductSpace.toDual_symm_apply, EuclideanSpace.inner_single_right, one_mul]
    rfl
  rw [coordinate_of_mem he, hdual]
  rfl

/-- The loss of an answered batch over the space of the parameters: its derivative at the network's own
parameters is what the gradients of all layers pull back. -/
theorem hasFDerivAt_lossOf (sound : n.Sound) {x y : Tensor ℝ} {t : Trace ℝ} (htrace : n.trace x = .ok t)
    (hne : t.Smooth) {l : SimilarityLoss ℝ} (hl : l.Sound) {c1 c2 : ℝ} (hc1 : l.options.c1.measureIn ℝ = .ok c1)
    (h1 : 0 < c1) (hc2 : l.options.c2.measureIn ℝ = .ok c2) (h2 : 0 < c2) {p : SimilarityPass ℝ ℝ}
    (hanswer : l.answer t.output y = .ok p) : ∃ (T : n.Point → Trace ℝ) (P : n.Point → SimilarityPass ℝ ℝ)
      (c : Tensor ℝ) (g : Gradients ℝ × List (Gradients ℝ)),
      (∀ v, (n.withVector v).trace x = .ok (T v)) ∧ (∀ v, l.answer (T v).output y = .ok (P v)) ∧
      P n.vector = p ∧ p.firstGradient 1 = .ok c ∧ t.gradients n.slope c = .ok g ∧
      HasFDerivAt (fun v => (P v).loss) (pullRow (n.families 0 n.layers) n.vector (g.1 :: g.2)) n.vector := by
  have hself : (n.withLayers (n.family 0 n.first n.vector)
      ((n.families 1 n.rest).map (· n.vector))).trace x = .ok t := by
    rw [← withVector_eq, withVector_vector, htrace]
  obtain ⟨T, P, c, g, hT, hP, hc, hg, hL⟩ := hasGradients_loss (tuned_family sound.first)
    (tuned_families sound.rest) hself hne hl hc1 hc2 h1 h2 hanswer
  have hTself : T n.vector = t := Except.ok.inj ((hT n.vector).symm.trans hself)
  have hPself : P n.vector = p := by
    have := hP n.vector
    rw [hTself, hanswer] at this
    exact (Except.ok.inj this).symm
  rw [hPself] at hc
  have hrow : pullGradients (n.family 0 n.first) n.vector g.1 + pullRow (n.families 1 n.rest) n.vector g.2 =
      pullRow (n.families 0 n.layers) n.vector (g.1 :: g.2) := by
    unfold layers
    rw [families_cons, pullRow_cons]
  rw [hrow] at hL
  exact ⟨T, P, c, g, fun v => by rw [withVector_eq, hT], hP, hPself, hc, hg, hL⟩

/-- A training step of plain descent at any rate gives the loss of the batch at the old parameters and leaves the
parameters moved against the gradient there of the loss, a function of all parameters, by the rate. -/
def StepDescends (n : Network ℝ ℝ) (loss : Option (SimilarityLoss ℝ)) (b : Batch ℝ) : Prop :=
  ∃ (L : n.Point → ℝ) (G : n.Point),
    (∀ v j, ((lossOf loss b).outcome (n.withVector v) j).1.1 = .ok (L v)) ∧
    HasGradientAt L G n.vector ∧
    ∀ (rate : ℝ) (j : Journal), ∃ n' : Network ℝ ℝ,
      ((trainStep (.plain rate) loss b).outcome ⟨n, ()⟩ j).1 = (.ok (L n.vector), ⟨n', ()⟩) ∧
        n'.snapshot = (n.withVector (n.vector - rate • G)).snapshot

/-- Training steps descend: for every network that a history leads to and every batch that it and a
comparator with positive stabilizers accept, if no number that a leaky unit is given is zero. -/
theorem step_descends (hn : n.Reached) {loss : Option (SimilarityLoss ℝ)}
    (hloss : ∀ l ∈ loss, ∃ o globals, (SimilarityLoss.build o globals).Gives l) {b : Batch ℝ} {j : Journal}
    {t : Trace ℝ} (ht : ((forward b.image).outcome n j).1.1 = .ok t) {p : SimilarityPass ℝ ℝ}
    (hp : ((compare (loss.getD n.loss) t.output b.target).outcome j).1 = .ok p) {c1 c2 : ℝ}
    (hc1 : (loss.getD n.loss).options.c1.measureIn ℝ = .ok c1) (h1 : 0 < c1)
    (hc2 : (loss.getD n.loss).options.c2.measureIn ℝ = .ok c2) (h2 : 0 < c2) (hne : t.Smooth) :
    n.StepDescends loss b := by
  have sound := sound_of_reached hn
  have sound_loss : (loss.getD n.loss).Sound := by
    cases loss with
    | none => exact sound.loss
    | some l =>
      obtain ⟨o, globals, hbuild⟩ := hloss l rfl
      exact SimilarityLoss.sound_of_build hbuild
  obtain ⟨x, hx, htrace⟩ := forward_eq_ok_iff.mp ht
  obtain ⟨y, hy, hanswer⟩ := compare_eq_ok_iff.mp hp
  obtain ⟨T, P, c, g, hT, hP, hself, hc, hg, hL⟩ :=
    hasFDerivAt_lossOf sound htrace hne sound_loss hc1 h1 hc2 h2 hanswer
  refine ⟨fun v => (P v).loss, _, fun v j' => lossOf_eq hx hy (hT v) (hP v) j',
    hasFDerivAt_iff_hasGradientAt.mp hL, fun rate j' => ?_⟩
  obtain ⟨n', hn', hstep⟩ := outcome_descent hx hy ((trace_clear n x).trans htrace) hanswer hc hg rate j'
  have hlength : g.2.length = n.rest.length := by rw [length_gradients hg, length_trace htrace]
  refine ⟨(n'.accumulate g).descend rate, ?_, snapshot_step hn' hlength ?_⟩
  · rw [hstep]
    dsimp only
    rw [hself]
    rfl
  -- Along its own coordinate, each entry moves against its own entry of the gradients.
  · intro k l own r i hl hown hi
    have he : (k, r, i) ∈ n.places := mem_places.mpr ⟨l, hl, hi⟩
    have hentry : n.entry (k, r, i) = l.entry r i := by
      unfold entry
      rw [hl, Option.elim_some]
    rw [coordinate_moved he, pullRow_single he (Nat.add_zero k).symm hl hown hi, hentry]

end Network

/-! ### A network of two layers -/

section Zero

variable {s : Sweep} {groups N B P H W k : ℕ} {x w q b : Tensor ℝ}

theorem blended_of_zero (e : Extents s groups x w none q N B P H W k) (hx : ∀ i, x.flat i = 0) (i : ℕ) :
    (blended s groups x w q).flat i = 0 := by
  have hinner : ∀ c : Tensor ℝ, c.shape = (blended s groups x w q).shape →
      (blended s groups x w q).inner c = 0 := fun c hc => by
    have h := inner_steered_batch e hc
    have hzero : x.inner (batchAdjoint s groups x.shape w q c) = 0 := by
      rw [inner_eq_sum_flat]
      exact Finset.sum_eq_zero fun j _ => by rw [hx, zero_mul]
    rw [hzero, Option.elim_none, add_zero] at h
    exact h
  rw [eq_zeros_of_inner hinner, flat_zeros]

theorem at4_of_zero {t : Tensor ℝ} (h : ∀ i, t.flat i = 0) (n c i j : ℕ) : t.at4 n c i j = 0 := by
  unfold at4
  split_ifs
  · exact h _
  · rfl

/-- A batch of zeros is answered with the bias, which is not zero. -/
theorem steered_of_zero (e : Extents s groups x w none q N B P H W k) (hx : ∀ i, x.flat i = 0)
    (hb : ∀ o < groups * P, b.flat o ≠ 0) : ∀ i < (steered s groups x w (some b) q).size,
      (steered s groups x w (some b) q).flat i ≠ 0 := by
  intro i hi
  obtain ⟨y0, y1, y2, y3⟩ := Tensor.extents e.shape_blended
  unfold steered withBias at hi ⊢
  dsimp only at hi ⊢
  rw [y0, y1, y2, y3] at hi ⊢
  unfold ofImages
  rw [flat_ofFlat (by exact hi)]
  dsimp only
  rw [at4_of_zero (blended_of_zero e hx), zero_add]
  refine hb _ (Nat.mod_lt _ (Nat.pos_of_ne_zero fun h => ?_))
  rw [size, shape_ofImages, h] at hi
  simp at hi

theorem at4_steered_of_zero {bias : Option (Tensor ℝ)} (e : Extents s groups x w bias q N B P H W k)
    (hx : ∀ i, x.flat i = 0) {n o i j : ℕ} (hn : n < N) (ho : o < groups * P) (hi : i < (s.grid (k, k) (H, W)).1)
    (hj : j < (s.grid (k, k) (H, W)).2) :
    (steered s groups x w bias q).at4 n o i j = bias.elim 0 fun b => b.flat o := by
  unfold steered
  rw [at4_withBias e.shape_blended bias hn ho hi hj, at4_of_zero (blended_of_zero (e.congr rfl rfl (by simp)) hx),
    zero_add]

end Zero

section Sample

/-- Layers of kernels of three by three entries, all of them and the bias being one. -/
def sampleConv (outputs : ℤ) : OrientedConvOptions where
  numOutput := .int outputs
  kernelSize := .int 3
  pad := .int 1
  weightFiller := .filler { type := .text "constant", value := .int 1 }
  biasFiller := .filler { type := .text "constant", value := .int 1 }

/-- Windows of two by two pixels and stabilizers of one. -/
def sampleLoss : SimilarityOptions := { kernelSize := .int 2, c1 := .int 1, c2 := .int 1 }

/-- Two such layers and such a comparator. -/
def sampleDescription : Value :=
  let one : Value := .map [(.text "type", .text "constant"), (.text "value", .int 1)]
  let conv (outputs : ℤ) : Value := .map [(.text "type", .text "GradOrientConvolution"),
    (.text "num_output", .int outputs), (.text "kernel_size", .int 3), (.text "pad", .int 1),
    (.text "weight_filler", one), (.text "bias_filler", one)]
  let loss : Value := .map [(.text "type", .text "SSIMLoss"), (.text "kernel_size", .int 2),
    (.text "c1", .int 1), (.text "c2", .int 1)]
  .map [(.text "negative_slope", .int 0), (.text "layers", .list [conv 2, conv 1, loss])]

noncomputable def sampleLayer (inputs outputs : ℕ) : ConvLayer ℝ ℝ where
  options := sampleConv outputs
  globals := {}
  inChannels := .int inputs
  geometry := squareWindows 3 1 (by decide)
  estimator := ⟨⟨.orientation, "torch", {}⟩, sampleSmoother (squareWindows 3 1 (by decide))⟩
  weight := .fresh (ofFlat [outputs, inputs, 3, 3] fun _ => (Number.whole 1).toScalar)
  bias := some (.fresh (ofFlat [outputs] fun _ => (Number.whole 1).toScalar))
  lastShape := none

noncomputable def sampleNetwork : Network ℝ ℝ where
  gradient := ⟨.gradient, "torch", {}⟩
  slope := Scalar.ofFloat (Float.ofInt 0)
  first := sampleLayer 1 2
  rest := [sampleLayer 2 1]
  loss := ⟨sampleLoss, {}, squareWindows 2 0 (by decide), sampleSmoother (squareWindows 2 0 (by decide))⟩

set_option maxRecDepth 10000 in
theorem build_sampleNetwork [Draws ℝ ℝ] : (Network.build "" sampleDescription {}).Gives sampleNetwork :=
  ⟨Journal.empty, by with_unfolding_all rfl⟩

theorem reached_sampleNetwork : sampleNetwork.Reached :=
  have := Draws.middling ℝ ℝ
  .built build_sampleNetwork

variable {inputs outputs : ℕ} {x map : Tensor ℝ}

theorem accepted_sampleLayer (hi : 0 < inputs) (ho : 0 < outputs) (hx : x.shape = [1, inputs, 2, 2])
    (hmap : map.shape = [1, 2, 2, 2]) (hl : (sampleLayer inputs outputs).Sound) :
    Accepted (sampleLayer inputs outputs).estimator (sampleLayer inputs outputs).geometry 1 x map
      (sampleLayer inputs outputs).weight.value (sampleLayer inputs outputs).biasValue := by
  refine ⟨⟨.null, rfl⟩, hl.smoother, ?_, rfl, rfl, ?_, ?_⟩
  · have hw : (sampleLayer inputs outputs).weight.value.shape = [outputs, inputs, 3, 3] := rfl
    rw [hx, hw]
    show Correlates ⟨(1, 1), (1, 1)⟩ 1 _ _
    unfold Correlates
    simp [hi, ho, Nat.mod_one]
  · obtain ⟨x0, -, x2, x3⟩ := Tensor.extents hx
    rw [hmap, x0, x2, x3]
  · rintro _ ⟨⟩
    rfl

theorem sizeFor_sampleLayer :
    (sampleLayer inputs outputs).sizeFor [1, inputs, 2, 2] [1, 2, 2, 2] = .ok (2, 2) := by
  have hsame : (sampleLayer inputs outputs).inChannels.same (.int inputs) = true := by
    show (Value.int inputs).same (.int inputs) = true
    simp [Value.same, Value.number?, Number.compare?]
  unfold ConvLayer.sizeFor
  dsimp only
  rw [hsame]
  with_unfolding_all rfl

/-- Batches of two by two pixels are answered, batches of zeros with no entry zero. -/
theorem answer_sampleLayer (hi : 0 < inputs) (ho : 0 < outputs) (hx : x.shape = [1, inputs, 2, 2])
    (hmap : map.shape = [1, 2, 2, 2]) (hl : (sampleLayer inputs outputs).Sound) :
    ∃ o s, (sampleLayer inputs outputs).answer x map = .ok (o, s) ∧ s.output.shape = [1, outputs, 2, 2] ∧
      ((∀ i, x.flat i = 0) → s.Nonzero) := by
  have accepted := accepted_sampleLayer hi ho hx hmap hl
  obtain ⟨o, q, horient⟩ := accepted.exists_orient
  obtain ⟨arranged, -⟩ := accepted.forwardPass_eq horient
  have hsize : (sampleLayer inputs outputs).sizeFor x.shape map.shape = .ok (2, 2) := by
    rw [hx, hmap]
    exact sizeFor_sampleLayer
  have hgroups : (sampleLayer inputs outputs).groups = .ok 1 := rfl
  obtain ⟨N, B, P, H, W, k, ext⟩ := arranged.extents
  obtain ⟨rfl, -, rfl, rfl⟩ : 1 = N ∧ inputs = 1 * B ∧ 2 = H ∧ 2 = W := by
    simpa only [List.cons.injEq, and_true] using hx.symm.trans ext.batch
  obtain ⟨hP, -, rfl, -⟩ : outputs = 1 * P ∧ inputs = B ∧ 3 = k ∧ 3 = k := by
    have hkernel : [outputs, inputs, 3, 3] = [1 * P, B, k, k] := ext.kernel
    simpa only [List.cons.injEq, and_true] using hkernel
  refine ⟨o, _, ConvLayer.answer_eq hsize hgroups horient arranged, ?_, fun hzero => ?_⟩
  · have hgrid : (sampleLayer inputs outputs).geometry.sweep.grid (3, 3) (2, 2) = (2, 2) := by
      show (squareWindows 3 1 (by decide)).sweep.grid (3, 3) (2, 2) = (2, 2)
      decide
    show (steered _ _ _ _ _ _).shape = _
    rw [ext.shape_steered, ← hP, hgrid]
  · refine steered_of_zero (ext.congr rfl rfl (by simp)) hzero fun c hc => ?_
    have hlt : c < volume [outputs] := by
      rw [volume_cons, volume_nil, Nat.mul_one, hP]
      exact hc
    have hflat : (ofFlat [outputs] fun _ => ((Number.whole 1).toScalar : ℝ)).flat c ≠ 0 := by
      rw [flat_ofFlat hlt, toScalar_one]
      exact one_ne_zero
    exact hflat

theorem sound_sampleNetwork : sampleNetwork.Sound := Network.sound_of_reached reached_sampleNetwork

/-- On an image of zeros the first layer puts out its bias, which is not zero. -/
theorem trace_sampleNetwork : ∃ t, sampleNetwork.trace (fill [1, 1, 2, 2] 0) = .ok t ∧
    t.output.shape = [1, 1, 2, 2] ∧ t.Smooth := by
  set x : Tensor ℝ := fill [1, 1, 2, 2] 0
  have hx : x.shape = [1, 1, 2, 2] := rfl
  obtain ⟨hmap, hmapShape⟩ := Network.mapOf_eq hx Nat.two_pos Nat.two_pos
  obtain ⟨o, s, hs, hshape, hne⟩ :=
    answer_sampleLayer Nat.one_pos Nat.two_pos hx hmapShape sound_sampleNetwork.first
  have hactivated : (s.output.map (leaky sampleNetwork.slope)).shape = [1, 2, 2, 2] := hshape
  obtain ⟨o', s', hs', hshape', -⟩ := answer_sampleLayer Nat.two_pos Nat.one_pos hactivated hmapShape
    (sound_sampleNetwork.rest _ (List.mem_singleton.mpr rfl))
  refine ⟨⟨gradientMap x, o.sinCos, s, [s']⟩, ?_, hshape', fun first hfirst => ?_⟩
  · unfold Network.trace
    rw [hmap, ok_bind]
    show ((sampleLayer 1 2).answer x _ >>= _) = _
    rw [hs, ok_bind]
    show (Network.answers sampleNetwork.slope _ [sampleLayer 2 1] s >>= _) = _
    unfold Network.answers
    rw [hs']
    rfl
  · obtain rfl : first = s := List.mem_singleton.mp hfirst
    exact hne (flat_zeros _)

theorem answer_sampleLoss {a b : Tensor ℝ} (ha : a.shape = [1, 1, 2, 2]) (hb : b.shape = [1, 1, 2, 2]) :
    ∃ p, sampleNetwork.loss.answer a b = .ok p := by
  have haccepts : sampleNetwork.loss.smoother.accepts a.shape = .ok sampleNetwork.loss.geometry := by
    rw [ha]
    exact Smoother.accepts_gaussian rfl (by decide)
  have hsize : sampleNetwork.loss.sizeFor a.shape b.shape = .ok (1, 1) := by
    rw [ha, hb]
    with_unfolding_all rfl
  unfold SimilarityLoss.answer
  rw [hsize, ok_bind]
  exact ⟨_, similarityPass_eq haccepts (hb.trans ha.symm)⟩

/-- A step on an image of zeros. -/
theorem Network.step_descends_sample : sampleNetwork.StepDescends none
    ⟨.own (fill [1, 1, 2, 2] 0), .own (fill [1, 1, 2, 2] 1)⟩ := by
  obtain ⟨t, htrace, hshape, hne⟩ := trace_sampleNetwork
  obtain ⟨p, hanswer⟩ := answer_sampleLoss hshape (b := fill [1, 1, 2, 2] 1) rfl
  have hone : (0 : ℝ) < (Number.whole 1).toScalar := by
    rw [toScalar_one]
    exact one_pos
  exact step_descends reached_sampleNetwork (j := Journal.empty) (by simp)
    (forward_eq_ok_iff.mpr ⟨_, rfl, htrace⟩) (compare_eq_ok_iff.mpr ⟨_, rfl, hanswer⟩)
    rfl hone rfl hone hne

end Sample
end SteeredConv
