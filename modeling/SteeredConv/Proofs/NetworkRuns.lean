/-
# What a network answers

A pass through a network gives what its parameters, its options and the batch decide:
`Network.trace` is that answer without the journal and without the state. All that a
pass changes in a network is the shape that each layer has checked last.

Key definitions: `ConvLayer.answer`, `Network.trace`, `SimilarityLoss.answer`,
`Network.settled`.
Key theorems: `Network.result_pass`, `Network.fixes_forward`, `Network.trace_of_settled`,
`Network.forward_eq_ok_iff`, `Network.compare_eq_ok_iff`, `Network.fixes_evaluate`,
`Network.evaluate_of_settled`, `Network.outcome_lossOn`, `Network.outcome_stepOn`, `Network.step_plain`,
`Network.outcome_descent`.
-/
import SteeredConv.Proofs.Inner
import SteeredConv.Network.Training
import SteeredConv.Proofs.Updates

namespace SteeredConv

/-! ### Layers -/

namespace ConvLayer

section Checking

variable {α ω : Type}

/-- A layer that has checked nothing yet. -/
def settled (l : ConvLayer α ω) : ConvLayer α ω := { l with lastShape := none }

theorem outcome_settle (input map : List Nat) (l : ConvLayer α ω) (j : Journal) :
    ((settle input map).outcome l j).1 = match l.sizeFor input map with
      | .ok size => (.ok size, { l with lastShape := some input })
      | .error e => (.error e, l) := by
  simp only [settle, Update.outcome_bind, Update.outcome_get, Update.outcome_liftM]
  cases l.sizeFor input map with
  | error e => rfl
  | ok size =>
    dsimp only
    by_cases h : l.lastShape = some input
    · rw [if_neg fun hne => hne h]
      show (Except.ok size, l) = (Except.ok size, { l with lastShape := some input })
      rw [← h]
    · rw [if_pos h]
      rfl

theorem outcome_loggedChange {β : Type} (step : String) (u : Update (ConvLayer α ω) Fault β)
    (l : ConvLayer α ω) (j : Journal) : ((loggedChange step u).outcome l j).1 = (u.outcome l j).1 :=
  Update.outcome_reporting _ _ u l j

theorem fixes_reshape (input map : Operand) :
    (reshape input map : Update (ConvLayer α ω) Fault (Nat × Nat)).Fixes settled := fun l j => by
  unfold reshape
  rw [outcome_loggedChange, Update.outcome_bind, Update.outcome_liftM]
  cases shapesOf input map with
  | error e => rfl
  | ok shapes =>
    dsimp only
    rw [outcome_settle]
    cases l.sizeFor shapes.1 shapes.2 <;> rfl

end Checking

variable {α ω : Type} [Scalar α] [Stored α ω] [Directed α α]

def answer (l : ConvLayer α ω) (x map : Tensor α) : Except Fault (Orientation α α × Stage α) := do
  let _ ← l.sizeFor x.shape map.shape
  let (orientation, output, pass) ← l.compute x map
  return (orientation, ⟨pass, output⟩)

theorem outcome_forward (x map : Tensor α) (l : ConvLayer α ω) (j : Journal) :
    ((forward x map).outcome l j).1 = match l.sizeFor x.shape map.shape with
      | .ok _ => (l.compute x map, { l with lastShape := some x.shape })
      | .error e => (.error e, l) := by
  have hsettle := outcome_loggedChange "reshape" (settle x.shape map.shape) l j
  rw [outcome_settle] at hsettle
  unfold forward
  rw [Update.outcome_bind]
  rcases h : (loggedChange "reshape" (settle x.shape map.shape)).outcome l j with ⟨r, j'⟩
  rw [h] at hsettle
  dsimp only at hsettle
  subst hsettle
  cases l.sizeFor x.shape map.shape with
  | error e => rfl
  | ok size =>
    simp only [Update.outcome_bind, Update.outcome_get, Update.outcome_liftM]
    rfl

end ConvLayer

namespace Network

section Parts

variable {α ω β : Type}

/-- A network whose layers have checked nothing yet. -/
def settled (n : Network α ω) : Network α ω :=
  { n with first := n.first.settled, rest := n.rest.map ConvLayer.settled }

theorem fixes_inFirst {u : Update (ConvLayer α ω) Fault β} (hu : u.Fixes ConvLayer.settled) :
    (inFirst u).Fixes settled :=
  Update.fixes_within hu fun n l h => by
    unfold settled
    rw [h]

theorem fixes_inRest {u : Update (List (ConvLayer α ω)) Fault β}
    (hu : u.Fixes (List.map ConvLayer.settled)) : (inRest u).Fixes settled :=
  Update.fixes_within hu fun n ls h => by
    unfold settled
    rw [h]

theorem fixes_refuse (x : Operand) : (refuse x : Update (Network α ω) Fault (Trace α)).Fixes settled :=
  Update.fixes_bind Update.fixes_get fun _ => Update.fixes_bind (Update.fixes_liftM _) fun _ =>
    Update.fixes_bind (Update.fixes_liftM _) fun _ =>
      Update.fixes_bind (fixes_inFirst (ConvLayer.fixes_reshape _ _)) fun _ =>
        Update.fixes_bind (Update.fixes_liftM _) fun _ => Update.fixes_throw _

theorem refuse_gives_nothing (x : Operand) (n : Network α ω) (j : Journal) (t : Trace α) :
    ((refuse x).outcome n j).1.1 ≠ .ok t := by
  intro h
  obtain ⟨_, -, h⟩ := Update.bind_gives h
  obtain ⟨_, -, h⟩ := Update.bind_gives h
  obtain ⟨_, -, h⟩ := Update.bind_gives h
  obtain ⟨_, -, h⟩ := Update.bind_gives h
  obtain ⟨_, -, h⟩ := Update.bind_gives h
  cases h

theorem loss_of_settled {n n' : Network α ω} (h : n'.settled = n.settled) :
    n'.loss = n.loss ∧ n'.slope = n.slope := by
  have hloss := congrArg Network.loss h
  have hslope := congrArg Network.slope h
  exact ⟨hloss, hslope⟩

theorem snapshot_settled (n : Network α ω) : n.settled.snapshot = n.snapshot := by
  have hlayers : n.settled.layers = n.layers.map ConvLayer.settled := rfl
  unfold snapshot parameters
  rw [hlayers, List.zipIdx_map, List.flatMap_map]
  rfl

theorem snapshot_of_settled {n n' : Network α ω} (h : n'.settled = n.settled) : n'.snapshot = n.snapshot := by
  rw [← snapshot_settled n', h, snapshot_settled]

end Parts

variable {α ω : Type} [Scalar α] [Stored α ω] [Directed α α]

theorem result_passLayer (map x : Tensor α) (l : ConvLayer α ω) (j : Journal) :
    ((passLayer map x).outcome l j).1.1 = l.answer x map := by
  have h := ConvLayer.outcome_forward x map l j
  unfold passLayer ConvLayer.answer
  rw [Update.outcome_bind]
  rcases hf : (ConvLayer.forward x map).outcome l j with ⟨r, j'⟩
  rw [hf] at h
  dsimp only at h
  subst h
  cases l.sizeFor x.shape map.shape with
  | error e => rfl
  | ok size =>
    dsimp only
    cases l.compute x map with
    | error e => rfl
    | ok c => rfl

theorem fixes_passLayer (map x : Tensor α) :
    (passLayer map x : Update (ConvLayer α ω) Fault (Orientation α α × Stage α)).Fixes
      ConvLayer.settled := by
  refine Update.fixes_bind (fun l j => ?_) fun _ => Update.fixes_pure _
  rw [ConvLayer.outcome_forward]
  cases l.sizeFor x.shape map.shape <;> rfl

/-- What later layers answer to what a layer has put out. -/
def answers (slope : α) (map : Tensor α) :
    List (ConvLayer α ω) → Stage α → Except Fault (List (Stage α))
  | [], _ => .ok []
  | l :: rest, before => do
    let (_, stage) ← l.answer (before.output.map (leaky slope)) map
    let later ← answers slope map rest stage
    return stage :: later

theorem result_passOn (slope : α) (map : Tensor α) (before : Stage α) (l : ConvLayer α ω) (j : Journal) :
    ((passOn slope map before).outcome l j).1.1 =
      Prod.snd <$> l.answer (before.output.map (leaky slope)) map := by
  have h := result_passLayer map (before.output.map (leaky slope)) l j
  unfold passOn
  rw [Update.outcome_bind]
  rcases hp : (passLayer map (before.output.map (leaky slope))).outcome l j with ⟨⟨e | r, l'⟩, j'⟩ <;>
    rw [hp] at h <;> rw [← h] <;> rfl

theorem fixes_passOn (slope : α) (map : Tensor α) (before : Stage α) :
    (passOn slope map before : Update (ConvLayer α ω) Fault (Stage α)).Fixes ConvLayer.settled :=
  Update.fixes_bind (fixes_passLayer _ _) fun _ => Update.fixes_pure _

theorem result_along (slope : α) (map : Tensor α) (ls : List (ConvLayer α ω)) (before : Stage α)
    (j : Journal) : ((Update.along (passOn slope map) before).outcome ls j).1.1 =
      answers slope map ls before := by
  induction ls generalizing before j with
  | nil => rfl
  | cons l rest ih =>
    have h := result_passOn slope map before l j
    rw [Update.outcome_along_cons]
    unfold answers
    rcases hp : (passOn slope map before).outcome l j with ⟨⟨e | stage, l'⟩, j'⟩ <;> rw [hp] at h
    · cases ha : l.answer (before.output.map (leaky slope)) map with
      | error e' =>
        rw [ha] at h
        cases h
        rfl
      | ok r =>
        rw [ha] at h
        cases h
    · cases ha : l.answer (before.output.map (leaky slope)) map with
      | error e' =>
        rw [ha] at h
        cases h
      | ok r =>
        rw [ha] at h
        obtain rfl : stage = r.2 := Except.ok.inj h
        dsimp only
        rw [ih]
        cases h' : answers slope map rest r.2 <;> simp [h', Except.map, bind, Except.bind, pure, Except.pure]

/-! ### Whole networks -/

omit [Directed α α] in
/-- Every image with pixels has a gradient map of its size. -/
theorem mapOf_eq {N C H W : ℕ} {image : Tensor α} (himage : image.shape = [N, C, H, W]) (hH : 0 < H) (hW : 0 < W) :
    mapOf image = .ok (gradientMap image) ∧ (gradientMap image).shape = [N, 2, H, W] := by
  obtain ⟨x0, -, x2, x3⟩ := Tensor.extents himage
  constructor
  · unfold mapOf gradientMap?
    rw [if_pos (by rw [himage]; rfl), if_pos]
    rw [x0, x2, x3]
    show 0 < 1 ∧ 0 < 1 ∧ _
    refine ⟨by omega, Nat.one_pos, Nat.one_pos, by omega, by omega, by omega, by omega, by omega, by omega,
      .inr ⟨hH, hW⟩, ?_, ?_⟩
    · show 3 ≤ H + 2 * 1
      omega
    · show 3 ≤ W + 2 * 1
      omega
  · rw [shape_gradientMap, x0, x2, x3]

/-- What a network answers to a batch of images. -/
def trace (n : Network α ω) (image : Tensor α) : Except Fault (Trace α) := do
  let map ← mapOf image
  let (orientation, first) ← n.first.answer image map
  let rest ← answers (Stored.narrow n.slope) map n.rest first
  return ⟨map, orientation.sinCos, first, rest⟩

theorem answers_map {f : ConvLayer α ω → ConvLayer α ω} (hf : ∀ l x map, (f l).answer x map = l.answer x map)
    (slope : α) (map : Tensor α) (ls : List (ConvLayer α ω)) (before : Stage α) :
    answers slope map (ls.map f) before = answers slope map ls before := by
  induction ls generalizing before with
  | nil => rfl
  | cons l rest ih =>
    rw [List.map_cons]
    unfold answers
    rw [hf]
    simp only [ih]

theorem trace_map {f : ConvLayer α ω → ConvLayer α ω} (hf : ∀ l x map, (f l).answer x map = l.answer x map)
    (n : Network α ω) (x : Tensor α) :
    ({ n with first := f n.first, rest := n.rest.map f } : Network α ω).trace x = n.trace x := by
  unfold trace
  simp only [hf, answers_map hf]

/-- What the layers have checked does not matter to what a network answers. -/
theorem trace_of_settled {n n' : Network α ω} (h : n'.settled = n.settled) (x : Tensor α) :
    n'.trace x = n.trace x := by
  have hsettled : ∀ n : Network α ω, n.settled.trace x = n.trace x :=
    fun n => trace_map (f := ConvLayer.settled) (fun _ _ _ => rfl) n x
  rw [← hsettled n', h, hsettled]

/-- A pass gives what the network answers. -/
theorem result_pass (image : Tensor α) (n : Network α ω) (j : Journal) :
    ((pass image).outcome n j).1.1 = n.trace image := by
  simp only [pass, trace, Update.outcome_bind, Update.outcome_get, Update.outcome_liftM]
  cases mapOf image with
  | error e => rfl
  | ok map =>
    dsimp only [bind, Except.bind]
    have hfirst := result_passLayer map image n.first j
    unfold inFirst
    rw [Update.outcome_within]
    rcases hp : (passLayer map image).outcome n.first j with ⟨⟨e | r, l'⟩, j'⟩ <;> rw [hp] at hfirst <;>
      rw [← hfirst]
    dsimp only
    unfold inRest
    rw [Update.outcome_within]
    have hrest := result_along (Stored.narrow n.slope) map n.rest r.2 j'
    dsimp only
    rcases ha : (Update.along (passOn (Stored.narrow n.slope) map) r.2).outcome n.rest j' with
      ⟨⟨e | stages, ls'⟩, j''⟩ <;> rw [ha] at hrest <;> rw [← hrest]
    rfl

theorem fixes_pass (image : Tensor α) :
    (pass image : Update (Network α ω) Fault (Trace α)).Fixes settled :=
  Update.fixes_bind Update.fixes_get fun _ => Update.fixes_bind (Update.fixes_liftM _) fun _ =>
    Update.fixes_bind (fixes_inFirst (fixes_passLayer _ _)) fun _ =>
      Update.fixes_bind (fixes_inRest (Update.fixes_along (fixes_passOn _ _) _)) fun _ =>
        Update.fixes_pure _

/-- A pass of whatever is given changes only what the layers have checked. -/
theorem fixes_forward (image : Given α) :
    (forward image : Update (Network α ω) Fault (Trace α)).Fixes settled := by
  cases image with
  | own t => exact fixes_pass t
  | other x => exact fixes_refuse x

/-- A pass succeeds for tensors of the numbers of the network that it answers. -/
theorem forward_eq_ok_iff {image : Given α} {n : Network α ω} {j : Journal} {t : Trace α} :
    ((forward image).outcome n j).1.1 = .ok t ↔ ∃ x, image = .own x ∧ n.trace x = .ok t := by
  cases image with
  | own x =>
    show ((pass x).outcome n j).1.1 = .ok t ↔ _
    rw [result_pass]
    constructor
    · intro h
      exact ⟨x, rfl, h⟩
    · rintro ⟨_, ⟨⟩, h⟩
      exact h
  | other x =>
    constructor
    · intro h
      exact absurd h (refuse_gives_nothing x n j t)
    · rintro ⟨_, ⟨⟩, -⟩

end Network

/-! ### Losses -/

/-- What a comparator answers to an output and a target. -/
def SimilarityLoss.answer {α ω : Type} [Scalar α] [Stored α ω] [Directed α α] (l : SimilarityLoss ω)
    (output target : Tensor α) : Except Fault (SimilarityPass α ω) := do
  let _ ← l.sizeFor output.shape target.shape
  l.pass output target

namespace Network

variable {α ω : Type} [Scalar α] [Stored α ω] [Directed α α]

theorem result_compare (l : SimilarityLoss ω) (output target : Tensor α) (j : Journal) :
    ((compare l output (.own target)).outcome j).1 = l.answer output target := by
  have hlogged : ((SimilarityLoss.logged "reshape" (l.settle output.shape target.shape)).outcome j).1 =
      l.sizeFor output.shape target.shape := by
    unfold SimilarityLoss.logged SimilarityLoss.settle
    rw [Action.outcome_reporting, Action.outcome_bind, Action.outcome_liftM]
    cases l.sizeFor output.shape target.shape <;> rfl
  unfold compare SimilarityLoss.forward SimilarityLoss.answer
  dsimp only
  rw [Action.outcome_bind, ← hlogged]
  rcases (SimilarityLoss.logged "reshape" (l.settle output.shape target.shape)).outcome j with ⟨e | size, j'⟩
  · rfl
  · dsimp only
    rw [Action.outcome_liftM]
    rfl

theorem compare_eq_ok_iff {l : SimilarityLoss ω} {output : Tensor α} {target : Given α} {j : Journal}
    {p : SimilarityPass α ω} : ((compare l output target).outcome j).1 = .ok p ↔
      ∃ y, target = .own y ∧ l.answer output y = .ok p := by
  cases target with
  | own y =>
    rw [result_compare]
    constructor
    · intro h
      exact ⟨y, rfl, h⟩
    · rintro ⟨_, ⟨⟩, h⟩
      exact h
  | other x =>
    constructor
    · intro h
      obtain ⟨_, -, h⟩ := Action.gives_bind ⟨j, h⟩
      obtain ⟨_, -, h⟩ := Action.gives_bind h
      exact absurd h Action.not_gives_throw
    · rintro ⟨_, ⟨⟩, -⟩

/-- A pass and a comparison that are answered leave all but what the layers have checked, and what comes
next decides the rest. -/
theorem outcome_compared {β : Type} {b : Batch α} {n : Network α ω} {loss : Option (SimilarityLoss ω)}
    {x y : Tensor α} {t : Trace α} {p : SimilarityPass α ω} (hx : b.image = .own x) (hy : b.target = .own y)
    (ht : n.trace x = .ok t) (hp : (loss.getD n.loss).answer t.output y = .ok p)
    (f : Trace α → Network α ω → SimilarityPass α ω → Update (Network α ω) Fault β) (j : Journal) :
    ∃ n' j', n'.settled = n.settled ∧ (do
      let trace ← forward b.image
      let m ← get
      let comparison ← Update.act (compare (loss.getD m.loss) trace.output b.target)
      f trace m comparison : Update (Network α ω) Fault β).outcome n j = (f t n' p).outcome n' j' := by
  have hforward : ((forward b.image).outcome n j).1.1 = .ok t := forward_eq_ok_iff.mpr ⟨x, hx, ht⟩
  have hsettled : ((forward b.image).outcome n j).1.2.settled = n.settled := fixes_forward b.image n j
  obtain ⟨j', hcompare⟩ : ∃ j', (compare (loss.getD n.loss) t.output b.target).outcome
      ((forward b.image).outcome n j).2 = (.ok p, j') :=
    ⟨_, Prod.ext (compare_eq_ok_iff.mpr ⟨y, hy, hp⟩) rfl⟩
  refine ⟨_, j', hsettled, ?_⟩
  rw [Update.outcome_bind_ok hforward, Update.outcome_bind, Update.outcome_get]
  dsimp only
  rw [(loss_of_settled hsettled).1, Update.outcome_bind, Update.outcome_act, hcompare]

section Scores

variable [Scalar ω]

/-- What the scores of an answered batch are. -/
def scoresOf (p : SimilarityPass α ω) : Scores ω :=
  ⟨Stored.widen p.loss, (ratioOf p.second p.first).toNumber⟩

/-- A batch has scores exactly if the network and its comparator answer it. -/
theorem score_eq_ok_iff {b : Batch α} {n : Network α ω} {j : Journal} {s : Scores ω} :
    ((score b).outcome n j).1.1 = .ok s ↔ ∃ x y t p, b.image = .own x ∧ b.target = .own y ∧
      n.trace x = .ok t ∧ n.loss.answer t.output y = .ok p ∧ s = scoresOf p := by
  have hloss : ((forward b.image).outcome n j).1.2.loss = n.loss :=
    (loss_of_settled (fixes_forward b.image n j)).1
  constructor
  · intro h
    obtain ⟨t, ht, h⟩ := Update.bind_gives h
    obtain ⟨n', hn', h⟩ := Update.bind_gives h
    obtain rfl : _ = n' := Except.ok.inj hn'
    obtain ⟨p, hp, h⟩ := Update.bind_gives h
    obtain ⟨x, hx, htrace⟩ := forward_eq_ok_iff.mp ht
    obtain ⟨y, hy, hanswer⟩ := compare_eq_ok_iff.mp hp
    rw [hloss] at hanswer
    exact ⟨x, y, t, p, hx, hy, htrace, hanswer, (Except.ok.inj h).symm⟩
  · rintro ⟨x, y, t, p, hx, hy, htrace, hanswer, rfl⟩
    have hp : ((none : Option (SimilarityLoss ω)).getD n.loss).answer t.output y = .ok p := hanswer
    obtain ⟨n', j', -, h⟩ := outcome_compared hx hy htrace hp (fun _ _ q => pure (scoresOf q)) j
    have hscore : (score b).outcome n j = _ := h
    rw [hscore]
    rfl

theorem fixes_score (b : Batch α) : (score b : Update (Network α ω) Fault (Scores ω)).Fixes settled :=
  Update.fixes_bind (fixes_forward _) fun _ => Update.fixes_bind Update.fixes_get fun _ =>
    Update.fixes_bind (Update.fixes_act _) fun _ => Update.fixes_pure _

theorem fixes_scoreAll (bs : List (Batch α)) :
    (scoreAll bs : Update (Network α ω) Fault (List (Scores ω))).Fixes settled := by
  induction bs with
  | nil => exact Update.fixes_pure _
  | cons b rest ih =>
    exact Update.fixes_bind (fixes_score b) fun _ => Update.fixes_bind ih fun _ => Update.fixes_pure _

/-- An evaluation changes only what the layers have checked. -/
theorem fixes_evaluate (bs : List (Batch α)) :
    (evaluate bs : Update (Network α ω) Fault (Scores ω)).Fixes settled := by
  refine Update.fixes_bind (fixes_scoreAll bs) fun scores => ?_
  by_cases h : scores.isEmpty = true
  · rw [if_pos h]
    exact Update.fixes_bind (Update.fixes_throw _) fun _ => Update.fixes_pure _
  · rw [if_neg h]
    exact Update.fixes_pure _

variable {n n' : Network α ω} {j : Journal}

theorem score_of_settled (h : n'.settled = n.settled) {b : Batch α} {s : Scores ω}
    (hs : ((score b).outcome n j).1.1 = .ok s) (j' : Journal) : ((score b).outcome n' j').1.1 = .ok s := by
  rw [score_eq_ok_iff] at hs ⊢
  simpa only [trace_of_settled h, (loss_of_settled h).1] using hs

theorem scoreAll_of_settled (h : n'.settled = n.settled) {bs : List (Batch α)} {scores : List (Scores ω)}
    (hs : ((scoreAll bs).outcome n j).1.1 = .ok scores) (j' : Journal) :
    ((scoreAll bs).outcome n' j').1.1 = .ok scores := by
  induction bs generalizing n n' j j' scores with
  | nil => exact hs
  | cons b rest ih =>
    obtain ⟨s, hfirst, hs⟩ := Update.bind_gives hs
    obtain ⟨later, hlater, hs⟩ := Update.bind_gives hs
    have hsettled : ((score b).outcome n' j').1.2.settled = ((score b).outcome n j).1.2.settled := by
      rw [fixes_score, fixes_score, h]
    unfold scoreAll
    rw [Update.outcome_bind_ok (score_of_settled h hfirst j'), Update.outcome_bind_ok (ih hsettled hlater _)]
    exact hs

/-- What the layers have checked does not matter to an evaluation. -/
theorem evaluate_of_settled (h : n'.settled = n.settled) {bs : List (Batch α)} {s : Scores ω}
    (hs : ((evaluate bs).outcome n j).1.1 = .ok s) (j' : Journal) :
    ((evaluate bs).outcome n' j').1.1 = .ok s := by
  obtain ⟨scores, hscores, hs⟩ := Update.bind_gives hs
  unfold evaluate
  rw [Update.outcome_bind_ok (scoreAll_of_settled h hscores j')]
  by_cases hempty : scores.isEmpty = true
  · rw [if_pos hempty] at hs
    obtain ⟨_, hthrow, -⟩ := Update.bind_gives hs
    cases hthrow
  · rw [if_neg hempty] at hs ⊢
    exact hs

end Scores

/-! ### Training steps -/

section Steps

variable {σ : Type} {loss : Option (SimilarityLoss ω)} {b : Batch α}

/-- The loss of an answered batch that has gradients, which are left with the parameters. -/
theorem outcome_lossOn {n : Network α ω} {x y : Tensor α} {t : Trace α} {p : SimilarityPass α ω} {c : Tensor α}
    {g : Gradients α × List (Gradients α)} (hx : b.image = .own x) (hy : b.target = .own y)
    (ht : n.clear.trace x = .ok t) (hp : (loss.getD n.loss).answer t.output y = .ok p)
    (hc : p.firstGradient 1 = .ok c) (hg : t.gradients (Stored.narrow n.slope) c = .ok g) (j : Journal) :
    ∃ n' : Network α ω, n'.settled = n.clear.settled ∧
      ((lossOn loss b).outcome n j).1 = (.ok (Stored.widen p.loss), n'.accumulate g) := by
  unfold lossOn
  rw [Update.outcome_bind, Update.outcome_modify]
  dsimp only
  obtain ⟨n', j', hn', h⟩ := outcome_compared hx hy ht hp (fun trace m comparison => do
    let cotangent ← liftM (comparison.firstGradient 1)
    let gradients ← liftM (trace.gradients (Stored.narrow m.slope) cotangent)
    set (m.accumulate gradients)
    return Stored.widen comparison.loss) j
  have hslope : n'.slope = n.slope := (loss_of_settled hn').2
  refine ⟨n', hn', ?_⟩
  rw [h, Update.outcome_liftM_bind hc, hslope, Update.outcome_liftM_bind hg]
  rfl

variable {o : Optimizer σ α} {t : Trained σ α ω} {n : Network α ω} {j : Journal}

theorem outcome_trainStep (o : Optimizer σ α) (loss : Option (SimilarityLoss ω)) (b : Batch α) (t : Trained σ α ω)
    (j : Journal) : ((trainStep o loss b).outcome t j).1 = ((stepOn o loss b).outcome t j).1 :=
  Guard.outcome_report stepGuard Fault.text 0 (stepOn o loss b) t j

/-- Once a batch has a loss, the optimizer decides. -/
theorem outcome_stepOn {v : ω} (h : ((lossOn loss b).outcome t.network j).1 = (.ok v, n)) :
    ((stepOn o loss b).outcome t j).1 = match o.step t.memory n.parameter? with
      | .ok (entries, memory) => (.ok v, ⟨n.withEntries entries, memory⟩)
      | .error e => (.error e, ⟨n, t.memory⟩) := by
  unfold stepOn Trained.inNetwork
  rw [Update.outcome_bind, Update.outcome_within, h]
  dsimp only
  rw [Update.outcome_bind, Update.outcome_get]
  dsimp only
  rw [Update.outcome_bind, Update.outcome_liftM]
  cases o.step t.memory n.parameter? <;> rfl

theorem stepOn_of_failed {e : Fault} (h : ((lossOn loss b).outcome t.network j).1 = (.error e, n)) :
    ((stepOn o loss b).outcome t j).1 = (.error e, ⟨n, t.memory⟩) := by
  unfold stepOn Trained.inNetwork
  rw [Update.outcome_bind, Update.outcome_within, h]

end Steps

end Network

/-- A network in training whose layers have checked nothing yet. -/
def Trained.settled {σ α ω : Type} (t : Trained σ α ω) : Trained σ α ω := { t with network := t.network.settled }

theorem Trained.settled_network {σ α ω : Type} {t t' : Trained σ α ω} (h : t'.settled = t.settled) :
    t'.network.settled = t.network.settled := congrArg Trained.network h

/-! ### Plain descent -/

section Plain

variable {α ω : Type} [Scalar α]

/-- The parameter after a move against its gradient. -/
def Parameter.descend (rate : α) (p : Parameter α) : Parameter α := p.refill (p.descended rate)

/-- The network after a move of every parameter against its gradient. -/
def Network.descend (rate : α) (n : Network α ω) : Network α ω := n.mapParameters (Parameter.descend rate)

variable [Stored α ω]

/-- Plain descent moves every parameter against its gradient. -/
theorem Network.step_plain (rate : ω) (n : Network α ω) :
    ∃ entries, (Optimizer.plain rate : Optimizer Unit α).step () n.parameter? = .ok (entries, ()) ∧
      n.withEntries entries = n.descend (Stored.narrow rate) := by
  refine ⟨_, rfl, ?_⟩
  have hlayer : ∀ (k : ℕ) (l : ConvLayer α ω), n.layers[k]? = some l →
      l.withEntries (fun r i => (n.parameter? k r).elim 0 fun p => p.descended (Stored.narrow rate) i) =
        l.mapParameters (Parameter.descend (Stored.narrow rate)) := by
    intro k l hl
    unfold parameter?
    rw [hl]
    obtain ⟨_, _, _, _, _, _, bias, _⟩ := l
    cases bias <;> rfl
  have hrest : (n.rest.mapIdx fun k l => l.withEntries fun r i =>
      (n.parameter? (k + 1) r).elim 0 fun p => p.descended (Stored.narrow rate) i) =
        n.rest.map (ConvLayer.mapParameters · (Parameter.descend (Stored.narrow rate))) := by
    refine List.ext_getElem? fun k => ?_
    rw [List.getElem?_mapIdx, List.getElem?_map]
    cases hl : n.rest[k]? with
    | none => rfl
    | some l => exact congrArg some (hlayer (k + 1) l hl)
  unfold withEntries descend mapParameters
  rw [hrest, hlayer 0 n.first rfl]

/-- A step of plain descent on an answered batch that has gradients. -/
theorem Network.outcome_descent [Directed α α] {loss : Option (SimilarityLoss ω)} {b : Batch α} {n : Network α ω}
    {x y : Tensor α} {t : Trace α} {p : SimilarityPass α ω} {c : Tensor α} {g : Gradients α × List (Gradients α)}
    (hx : b.image = .own x) (hy : b.target = .own y) (ht : n.clear.trace x = .ok t)
    (hp : (loss.getD n.loss).answer t.output y = .ok p) (hc : p.firstGradient 1 = .ok c)
    (hg : t.gradients (Stored.narrow n.slope) c = .ok g) (rate : ω) (j : Journal) :
    ∃ n' : Network α ω, n'.settled = n.clear.settled ∧ ((trainStep (.plain rate) loss b).outcome ⟨n, ()⟩ j).1 =
      (.ok (Stored.widen p.loss), ⟨(n'.accumulate g).descend (Stored.narrow rate), ()⟩) := by
  obtain ⟨n', hn', hloss⟩ := outcome_lossOn hx hy ht hp hc hg j
  obtain ⟨entries, hstep, hentries⟩ := step_plain rate (n'.accumulate g)
  refine ⟨n', hn', ?_⟩
  rw [outcome_trainStep, outcome_stepOn hloss, hstep]
  dsimp only
  rw [hentries]

end Plain
end SteeredConv
