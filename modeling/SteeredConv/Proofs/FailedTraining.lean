/-
# Training that fails

A training step moves the parameters last, when nothing can fail any more, so a step that
fails leaves all of them as they were. A run of epochs that fails does so in a training
step or in the evaluation after the steps of an epoch, and is left with the parameters
that the steps before the failure make of the first network: the evaluations in between
change no parameter, and no step depends on what they change.

What a network is given may be of any kind and shape. A checkpoint can always be saved
here, and an optimizer that refuses a step moves nothing.

Key definitions: `Fitting.Course.FailsIn`, `Fitting.Course.steps`.
Key theorems: `Network.snapshot_of_failed_step`, `Network.trainAll_of_settled`, `Network.trainAll_append`,
`Network.exists_failing_step`, `Course.trained_before`, `Course.exists_failsIn`,
`Course.exists_failing_epoch`, `Fitting.failure_keeps_steps`.
-/
import SteeredConv.Proofs.FittingRuns

namespace SteeredConv
namespace Network

/-! ### A step -/

section Parts

variable {α ω : Type} {n n' : Network α ω}

theorem settled_mapParameters (f : Parameter α → Parameter α) (n : Network α ω) :
    (n.mapParameters f).settled = n.settled.mapParameters f := by
  simp only [settled, mapParameters, List.map_map]
  rfl

theorem settled_accumulate [Scalar α] (g : Gradients α × List (Gradients α)) (n : Network α ω) :
    (n.accumulate g).settled = n.settled.accumulate g := by
  simp only [settled, accumulate, List.map_zipWith, List.zipWith_map_left]
  rfl

theorem settled_withEntries (f : Place → α) (n : Network α ω) :
    (n.withEntries f).settled = n.settled.withEntries f := by
  have hrest : (n.rest.mapIdx fun k l => l.withEntries fun r i => f (k + 1, r, i)).map ConvLayer.settled =
      (n.rest.map ConvLayer.settled).mapIdx fun k l => l.withEntries fun r i => f (k + 1, r, i) := by
    refine List.ext_getElem? fun k => ?_
    rw [List.getElem?_map, List.getElem?_mapIdx, List.getElem?_mapIdx, List.getElem?_map, Option.map_map,
      Option.map_map]
    rfl
  unfold settled withEntries
  dsimp only
  rw [hrest]
  rfl

theorem clear_of_settled (h : n'.settled = n.settled) : n'.clear.settled = n.clear.settled := by
  simp only [clear, settled_mapParameters, h]

theorem parameter?_settled (n : Network α ω) : n.settled.parameter? = n.parameter? := by
  funext k r
  unfold parameter?
  show ((n.layers.map ConvLayer.settled)[k]?.bind fun l => l.parameter? r) = _
  rw [List.getElem?_map]
  cases n.layers[k]? with
  | none => rfl
  | some l => cases r <;> rfl

end Parts

variable {σ α ω : Type} [Scalar α] [Stored α ω] [Directed α α] {o : Optimizer σ α}
  {loss : Option (SimilarityLoss ω)} {b : Batch α} {n : Network α ω} {t t' : Trained σ α ω} {j j' : Journal} {v : ω}

theorem snapshot_of_failed_step {e : Fault} (h : ((trainStep o loss b).outcome t j).1.1 = .error e) :
    ((trainStep o loss b).outcome t j).1.2.network.snapshot = t.network.snapshot := by
  rw [outcome_trainStep] at h ⊢
  have hfixes := fixes_lossOn_snapshot loss b t.network j
  rcases hloss : (lossOn loss b).outcome t.network j with ⟨⟨e | v, n⟩, j'⟩ <;> rw [hloss] at hfixes
  · rw [stepOn_of_failed (congrArg Prod.fst hloss)]
    exact hfixes
  · rw [outcome_stepOn (congrArg Prod.fst hloss)] at h ⊢
    cases hstep : o.step t.memory n.parameter? with
    | error e => exact hfixes
    | ok r =>
      rw [hstep] at h
      cases h

/-- A loss that is given was of an answered batch that has gradients. -/
theorem answered_of_lossOn (h : ((lossOn loss b).outcome n j).1.1 = .ok v) :
    ∃ x y t p c g, b.image = .own x ∧ b.target = .own y ∧ n.clear.trace x = .ok t ∧
      (loss.getD n.loss).answer t.output y = .ok p ∧ p.firstGradient 1 = .ok c ∧
      t.gradients (Stored.narrow n.slope) c = .ok g := by
  obtain ⟨_, -, h⟩ := Update.bind_gives h
  obtain ⟨t, ht, h⟩ := Update.bind_gives h
  obtain ⟨m, hm, h⟩ := Update.bind_gives h
  obtain rfl := Except.ok.inj hm
  obtain ⟨p, hp, h⟩ := Update.bind_gives h
  obtain ⟨c, hc, h⟩ := Update.bind_gives h
  obtain ⟨g, hg, -⟩ := Update.bind_gives h
  obtain ⟨x, hx, htrace⟩ := forward_eq_ok_iff.mp ht
  obtain ⟨y, hy, hanswer⟩ := compare_eq_ok_iff.mp hp
  rw [Update.outcome_liftM] at hc hg
  -- The pass has changed neither the comparator nor the slope.
  have hsettled := fixes_forward b.image n.clear j
  have hloss : _ = n.loss := (loss_of_settled hsettled).1
  have hslope : _ = n.slope := (loss_of_settled hsettled).2
  rw [← hloss, ← hslope]
  exact ⟨x, y, t, p, c, g, hx, hy, htrace, hanswer, hc, hg⟩

/-- What the layers have checked does not matter to a loss and its gradients. -/
theorem lossOn_of_settled {n' : Network α ω} (h : n'.settled = n.settled)
    (hv : ((lossOn loss b).outcome n j).1.1 = .ok v) (j' : Journal) :
    ((lossOn loss b).outcome n' j').1.1 = .ok v ∧
      ((lossOn loss b).outcome n' j').1.2.settled = ((lossOn loss b).outcome n j).1.2.settled := by
  obtain ⟨x, y, t, p, c, g, hx, hy, ht, hp, hc, hg⟩ := answered_of_lossOn hv
  obtain ⟨m, hm, hleft⟩ := outcome_lossOn hx hy ht hp hc hg j
  -- The other network answers the same.
  rw [← trace_of_settled (clear_of_settled h)] at ht
  rw [← (loss_of_settled h).1] at hp
  rw [← (loss_of_settled h).2] at hg
  obtain ⟨m', hm', hleft'⟩ := outcome_lossOn hx hy ht hp hc hg j'
  rw [hleft] at hv ⊢
  rw [hleft']
  refine ⟨hv, ?_⟩
  rw [settled_accumulate, settled_accumulate, hm', clear_of_settled h, hm]

/-- A step that is completed leads to the same parameters whatever the layers have checked. -/
theorem trainStep_of_settled (h : t'.settled = t.settled)
    (hv : ((trainStep o loss b).outcome t j).1.1 = .ok v) (j' : Journal) :
    ((trainStep o loss b).outcome t' j').1.1 = .ok v ∧
      ((trainStep o loss b).outcome t' j').1.2.settled = ((trainStep o loss b).outcome t j).1.2.settled := by
  have hnetwork := Trained.settled_network h
  have hmemory : t'.settled.memory = t.settled.memory := congrArg Trained.memory h
  change t'.memory = t.memory at hmemory
  rw [outcome_trainStep] at hv
  rw [outcome_trainStep, outcome_trainStep]
  rcases hloss : (lossOn loss b).outcome t.network j with ⟨⟨e | w, n⟩, k⟩
  · rw [stepOn_of_failed (congrArg Prod.fst hloss)] at hv
    cases hv
  obtain ⟨hsame, hleft⟩ := lossOn_of_settled hnetwork (congrArg (fun r => r.1.1) hloss) j'
  rcases hother : (lossOn loss b).outcome t'.network j' with ⟨⟨r, n'⟩, k'⟩
  rw [hother] at hsame hleft
  obtain rfl : r = .ok w := hsame
  have hchecked : n'.settled = n.settled := by rwa [hloss] at hleft
  -- The optimizer is shown the same parameters.
  have hshown : n'.parameter? = n.parameter? := by rw [← parameter?_settled, hchecked, parameter?_settled]
  rw [outcome_stepOn (congrArg Prod.fst hloss)] at hv ⊢
  rw [outcome_stepOn (congrArg Prod.fst hother), hmemory, hshown]
  cases hstep : o.step t.memory n.parameter? with
  | error e =>
    rw [hstep] at hv
    cases hv
  | ok r =>
    rw [hstep] at hv
    refine ⟨hv, ?_⟩
    unfold Trained.settled
    dsimp only
    rw [settled_withEntries, settled_withEntries, hchecked]

/-! ### Several steps -/

variable {bs later : List (Batch α)} {losses : List ω}

/-- Steps that are completed lead to the same parameters whatever the layers have checked. -/
theorem trainAll_of_settled (h : t'.settled = t.settled)
    (hlosses : ((trainAll o bs).outcome t j).1.1 = .ok losses) (j' : Journal) :
    ((trainAll o bs).outcome t' j').1.1 = .ok losses ∧
      ((trainAll o bs).outcome t' j').1.2.settled = ((trainAll o bs).outcome t j).1.2.settled := by
  induction bs generalizing t t' j j' losses with
  | nil => exact ⟨hlosses, h⟩
  | cons b rest ih =>
    obtain ⟨v, hv, hrest⟩ := Update.bind_gives hlosses
    obtain ⟨hv', hsettled⟩ := trainStep_of_settled h hv j'
    obtain ⟨later, hlater, hrest⟩ := Update.bind_gives hrest
    obtain ⟨hlater', hleft⟩ := ih hsettled hlater ((trainStep o none b).outcome t' j').2
    obtain rfl := Except.ok.inj hrest
    unfold trainAll
    rw [Update.outcome_bind_ok hv, Update.outcome_bind_ok hv', Update.outcome_bind_ok hlater,
      Update.outcome_bind_ok hlater']
    exact ⟨rfl, hleft⟩

variable {m left : Trained σ α ω} {k k' : Journal} {others : List ω} {e : Fault}

theorem trainAll_cons (hv : (trainStep o none b).outcome t j = ((.ok v, m), k)) :
    (trainAll o (b :: bs)).outcome t j = match (trainAll o bs).outcome m k with
      | ((.ok losses, left), k') => ((.ok (v :: losses), left), k')
      | ((.error e, left), k') => ((.error e, left), k') := by
  rw [trainAll, Update.outcome_bind, hv]
  dsimp only
  rw [Update.outcome_bind]
  rcases (trainAll o bs).outcome m k with ⟨⟨e | losses, left⟩, k'⟩ <;> rfl

theorem trainAll_cons_of_failed (hv : (trainStep o none b).outcome t j = ((.error e, m), k)) :
    (trainAll o (b :: bs)).outcome t j = ((.error e, m), k) := by
  rw [trainAll, Update.outcome_bind, hv]

/-- Steps after steps that are completed. -/
theorem trainAll_append (h : (trainAll o bs).outcome t j = ((.ok losses, m), k))
    (hlater : (trainAll o later).outcome m k = ((.ok others, left), k')) :
    (trainAll o (bs ++ later)).outcome t j = ((.ok (losses ++ others), left), k') := by
  induction bs generalizing t j losses with
  | nil =>
    cases h
    exact hlater
  | cons b rest ih =>
    rcases hv : (trainStep o none b).outcome t j with ⟨⟨e | v, t₁⟩, j₁⟩
    · rw [trainAll_cons_of_failed hv] at h
      cases h
    · rw [trainAll_cons hv] at h
      rcases hrest : (trainAll o rest).outcome t₁ j₁ with ⟨⟨e | tail, t₂⟩, j₂⟩ <;> rw [hrest] at h <;> cases h
      rw [List.cons_append, trainAll_cons hv, ih hrest]
      rfl

/-- Steps of which one fails were completed up to that one, and leave its parameters. -/
theorem exists_failing_step (h : (trainAll o bs).outcome t j = ((.error e, left), k')) :
    ∃ i b done m k, bs[i]? = some b ∧ (trainAll o (bs.take i)).outcome t j = ((.ok done, m), k) ∧
      (trainStep o none b).outcome m k = ((.error e, left), k') := by
  induction bs generalizing t j with
  | nil => cases h
  | cons b rest ih =>
    rcases hv : (trainStep o none b).outcome t j with ⟨⟨e | v, t₁⟩, j₁⟩
    · rw [trainAll_cons_of_failed hv] at h
      cases h
      exact ⟨0, b, [], t, j, rfl, rfl, hv⟩
    · rw [trainAll_cons hv] at h
      rcases hrest : (trainAll o rest).outcome t₁ j₁ with ⟨⟨e | tail, t₂⟩, j₂⟩ <;> rw [hrest] at h <;> cases h
      obtain ⟨i, b', done, m, k, hb', hdone, hfails⟩ := ih hrest
      refine ⟨i + 1, b', v :: done, m, k, hb', ?_, hfails⟩
      rw [List.take_succ_cons, trainAll_cons hv, hdone]

end Network

/-! ### Epochs -/

namespace Fitting

variable {σ α ω : Type} [Scalar α] [Scalar ω] [Stored α ω] [Directed α α]

namespace Course

/-- What failed in an epoch after a number of its steps: the step that was next, or the evaluation after
all of them. -/
inductive FailsIn (r : Course σ α ω) (m : ℕ) (e : Fault) : ℕ → Prop where
  | step {i : ℕ} {b : Batch α} {losses : List ω} {t : Trained σ α ω} {j : Journal}
      (hb : r.training[i]? = some b)
      (hdone : (Network.trainAll r.optimizer (r.training.take i)).outcome (r.before m).1.toTrained (r.before m).2 =
        ((.ok losses, t), j))
      (hfails : ((Network.trainStep r.optimizer none b).outcome t j).1.1 = .error e) : FailsIn r m e i
  | evaluation {losses : List ω} (hdone : (r.trained m).1.1 = .ok losses)
      (hfails : ((Network.evaluate r.validation).outcome (r.evaluated m) (r.trained m).2).1.1 = .error e) :
      FailsIn r m e r.training.length

/-- The steps of the epochs before one of them and a number of its own. -/
def steps (r : Course σ α ω) (m i : ℕ) : List (Batch α) :=
  (List.replicate m r.training).flatten ++ r.training.take i

variable {r : Course σ α ω} {k m i remaining : ℕ} {e : Fault} {losses : List ω}

/-- The epochs before one of them made all their steps, with nothing but evaluations in between. -/
theorem trained_before (h : ∀ k < m, ∃ entry, r.given k = .ok (entry, false)) : ∃ losses t j,
    (Network.trainAll r.optimizer (List.replicate m r.training).flatten).outcome r.start.toTrained r.journal =
      ((.ok losses, t), j) ∧ t.settled = (r.before m).1.toTrained.settled := by
  induction m with
  | zero => exact ⟨[], _, _, rfl, rfl⟩
  | succ m ih =>
    obtain ⟨earlier, t, j, hearlier, hsettled⟩ := ih fun k hk => h k (Nat.lt_succ_of_lt hk)
    obtain ⟨entry, hgiven⟩ := h m (Nat.lt_succ_self m)
    obtain ⟨own, hown, -⟩ := (remembered_of_given hgiven).training
    obtain ⟨hown', hleft⟩ := Network.trainAll_of_settled hsettled hown j
    refine ⟨earlier ++ own, _, ((Network.trainAll r.optimizer r.training).outcome t j).2, ?_,
      hleft.trans (settled_succ hgiven).symm⟩
    rw [List.replicate_succ', List.flatten_append, List.flatten_singleton]
    exact Network.trainAll_append hearlier (Prod.ext (Prod.ext hown' rfl) rfl)

theorem epoch_of_failed_steps {f : Fitting σ α ω} {j j' : Journal} {t : Trained σ α ω}
    (h : (Network.trainAll r.optimizer r.training).outcome f.toTrained j = ((.error e, t), j')) :
    (epoch r.optimizer r.training r.validation r.epochs m).outcome f j =
      ((.error e, { f with toTrained := t }), j') := by
  unfold epoch inTraining
  rw [Update.outcome_bind, Update.outcome_within, h]

theorem epoch_of_failed_evaluation {f : Fitting σ α ω} {j j₁ j₂ : Journal} {t : Trained σ α ω} {n' : Network α ω}
    (htrain : (Network.trainAll r.optimizer r.training).outcome f.toTrained j = ((.ok losses, t), j₁))
    (hscores : (Network.evaluate r.validation).outcome t.network j₁ = ((.error e, n'), j₂)) :
    (epoch r.optimizer r.training r.validation r.epochs m).outcome f j =
      ((.error e, { f with toTrained := { t with network := n' } }), j₂) := by
  unfold epoch inTraining Trained.inNetwork
  rw [Update.outcome_bind, Update.outcome_within, htrain]
  dsimp only
  rw [Update.outcome_bind, Update.outcome_within, Update.outcome_within, hscores]

/-- An epoch that fails leaves the parameters of the steps that it completed. -/
theorem exists_failsIn (h : r.given m = .error e) : ∃ i losses t j, r.FailsIn m e i ∧
    (Network.trainAll r.optimizer (r.training.take i)).outcome (r.before m).1.toTrained (r.before m).2 =
      ((.ok losses, t), j) ∧ (r.before (m + 1)).1.network.snapshot = t.network.snapshot := by
  set f := (r.before m).1
  set j := (r.before m).2
  have hleft : (r.before (m + 1)).1 = ((epoch r.optimizer r.training r.validation r.epochs m).outcome f j).1.2 := rfl
  rw [hleft]
  rcases htrain : (Network.trainAll r.optimizer r.training).outcome f.toTrained j with ⟨⟨e' | losses, t⟩, j₁⟩
  · -- A step has failed.
    have hepoch := epoch_of_failed_steps (m := m) htrain
    have hgiven : (Except.error e' : Except Fault (EpochRecord ω × Bool)) = .error e :=
      (congrArg (fun r => r.1.1) hepoch).symm.trans h
    obtain rfl := Except.error.inj hgiven
    obtain ⟨i, b, done, t₁, k, hb, hdone, hfails⟩ := Network.exists_failing_step htrain
    refine ⟨i, done, t₁, k, .step hb hdone (congrArg (fun r => r.1.1) hfails), hdone, ?_⟩
    rw [hepoch]
    have hkept := Network.snapshot_of_failed_step (congrArg (fun r => r.1.1) hfails)
    rwa [hfails] at hkept
  · rcases hscores : (Network.evaluate r.validation).outcome t.network j₁ with ⟨⟨e' | scores, n'⟩, j₂⟩
    · -- The evaluation has failed.
      have hepoch := epoch_of_failed_evaluation (m := m) htrain hscores
      have hgiven : (Except.error e' : Except Fault (EpochRecord ω × Bool)) = .error e :=
        (congrArg (fun r => r.1.1) hepoch).symm.trans h
      obtain rfl := Except.error.inj hgiven
      have htrained : r.trained m = ((.ok losses, t), j₁) := htrain
      have hall : r.training.take r.training.length = r.training := List.take_length
      refine ⟨r.training.length, losses, t, j₁, .evaluation (congrArg (fun r => r.1.1) htrained) ?_, ?_, ?_⟩
      · unfold evaluated
        rw [htrained, hscores]
      · rw [hall, htrain]
      · rw [hepoch]
        have hsettled := Network.fixes_evaluate r.validation t.network j₁
        rw [hscores] at hsettled
        exact Network.snapshot_of_settled hsettled
    · -- Nothing else can fail.
      have htrained : r.trained m = ((.ok losses, t), j₁) := htrain
      have hown : (r.trained m).1.1 = .ok losses := congrArg (fun r => r.1.1) htrained
      have hevaluated : ((Network.evaluate r.validation).outcome (r.evaluated m) (r.trained m).2).1.1 = .ok scores := by
        unfold evaluated
        rw [htrained, hscores]
      obtain ⟨entry, stop, hgiven⟩ := exists_given hown hevaluated
      rw [hgiven] at h
      cases h

/-- A run that fails does so in one of its epochs, after epochs that went on. -/
theorem exists_failing_epoch (hepochs : k + remaining = r.epochs)
    (h : ((runLast r.optimizer r.training r.validation r.epochs remaining).outcome (r.before k).1 (r.before k).2).1.1 =
      .error e) :
    ∃ m, m < r.epochs ∧ (∀ i, k ≤ i → i < m → ∃ entry, r.given i = .ok (entry, false)) ∧ r.given m = .error e ∧
      ((runLast r.optimizer r.training r.validation r.epochs remaining).outcome (r.before k).1 (r.before k).2).1.2 =
        (r.before (m + 1)).1 := by
  induction remaining generalizing k with
  | zero => cases h
  | succ remaining ih =>
    cases hgiven : r.given k with
    | error e' =>
      have hindex : r.epochs - (remaining + 1) = k := by omega
      have hrun : (runLast r.optimizer r.training r.validation r.epochs (remaining + 1)).outcome
          (r.before k).1 (r.before k).2 = ((.error e', (r.before (k + 1)).1), (r.before (k + 1)).2) := by
        have hepoch : (epoch r.optimizer r.training r.validation r.epochs k).outcome (r.before k).1 (r.before k).2 =
            ((.error e', (r.before (k + 1)).1), (r.before (k + 1)).2) := Prod.ext (Prod.ext hgiven rfl) rfl
        rw [runLast, hindex, Update.outcome_bind, hepoch]
      rw [hrun] at h ⊢
      obtain rfl := Except.error.inj h
      exact ⟨k, by omega, fun i hi hlt => absurd hlt (Nat.not_lt.mpr hi), hgiven, rfl⟩
    | ok given =>
      obtain ⟨entry, stop⟩ := given
      rw [outcome_runLast hepochs hgiven] at h ⊢
      cases stop with
      | true => cases h
      | false =>
        rw [if_neg Bool.false_ne_true] at h ⊢
        rcases Update.bind_fails h with ⟨hlater, hwhole⟩ | ⟨later, -, hpure⟩
        · obtain ⟨m, hm, hbefore, hfails, hleft⟩ := ih (k := k + 1) (by omega) hlater
          refine ⟨m, hm, fun i hi hlt => ?_, hfails, ?_⟩
          · rcases Nat.eq_or_lt_of_le hi with rfl | hi
            · exact ⟨entry, hgiven⟩
            · exact hbefore i hi hlt
          · rw [hwhole]
            exact hleft
        · cases hpure

end Course

/-- A training step that fails leaves the entries of every parameter as they were. A run of epochs that fails
does so in a step or in an evaluation, and leaves the entries that the steps before that make of the first
network's, one after the other. Plain descent is one of the optimizers. -/
theorem failure_keeps_steps :
    (∀ (o : Optimizer σ α) (loss : Option (SimilarityLoss ω)) (b : Batch α) (t : Trained σ α ω) (j : Journal)
        (e : Fault), ((Network.trainStep o loss b).outcome t j).1.1 = .error e →
      ((Network.trainStep o loss b).outcome t j).1.2.network.snapshot = t.network.snapshot) ∧
    ∀ (r : Course σ α ω) (e : Fault),
      ((run r.optimizer r.training r.validation r.epochs).outcome r.start r.journal).1.1 = .error e →
        ∃ m i losses t j, m < r.epochs ∧ (∀ k < m, ∃ entry, r.given k = .ok (entry, false)) ∧ r.FailsIn m e i ∧
          (Network.trainAll r.optimizer (r.steps m i)).outcome r.start.toTrained r.journal = ((.ok losses, t), j) ∧
          ((run r.optimizer r.training r.validation r.epochs).outcome r.start r.journal).1.2.network.snapshot =
            t.network.snapshot := by
  constructor
  · intro o loss b t j e h
    exact Network.snapshot_of_failed_step h
  · intro r e h
    obtain ⟨m, hm, hearlier, hgiven, hleft⟩ := Course.exists_failing_epoch (k := 0) (Nat.zero_add r.epochs) h
    have hbefore : ∀ k < m, ∃ entry, r.given k = .ok (entry, false) := fun k hk => hearlier k (Nat.zero_le k) hk
    obtain ⟨i, own, t, j, hfails, hown, hsnapshot⟩ := Course.exists_failsIn hgiven
    obtain ⟨earlier, t₀, j₀, hsteps, hsettled⟩ := Course.trained_before hbefore
    obtain ⟨hown', hsettled'⟩ := Network.trainAll_of_settled hsettled (congrArg (fun r => r.1.1) hown) j₀
    refine ⟨m, i, earlier ++ own, _, _, hm, hbefore, hfails,
      Network.trainAll_append hsteps (Prod.ext (Prod.ext hown' rfl) rfl), ?_⟩
    have hrun : ((run r.optimizer r.training r.validation r.epochs).outcome r.start r.journal).1.2 = _ := hleft
    rw [hrun, hsnapshot, Network.snapshot_of_settled (congrArg Trained.network hsettled'), hown]

/-- No image and no target. -/
def formlessBatch : Batch ℝ := ⟨.other (.other .null), .other (.other .null)⟩

theorem formless_gives_nothing {σ : Type} (o : Optimizer σ ℝ) (t : Trained σ ℝ ℝ) (j : Journal) (v : ℝ) :
    ((Network.trainStep o none formlessBatch).outcome t j).1.1 ≠ .ok v := by
  intro h
  rw [Network.outcome_trainStep] at h
  rcases hloss : (Network.lossOn none formlessBatch).outcome t.network j with ⟨⟨e | w, n⟩, j'⟩
  · rw [Network.stepOn_of_failed (congrArg Prod.fst hloss)] at h
    cases h
  · obtain ⟨_, -, -, -, -, -, himage, -⟩ := Network.answered_of_lossOn (congrArg (fun r => r.1.1) hloss)
    cases himage

/-- An epoch of plain descent whose second batch is no image. -/
noncomputable def brokenCourse : Course Unit ℝ ℝ where
  optimizer := .plain 1
  training := [Network.blackBatch, formlessBatch]
  validation := [Network.blackBatch]
  epochs := 1
  start := ⟨⟨pixelNetwork, ()⟩, none, none⟩
  journal := Journal.empty

theorem broken_gives_nothing (losses : List ℝ) : (brokenCourse.trained 0).1.1 ≠ .ok losses := by
  intro h
  obtain ⟨_, -, h⟩ := Update.bind_gives h
  obtain ⟨_, hlast, -⟩ := Update.bind_gives h
  obtain ⟨_, hformless, -⟩ := Update.bind_gives hlast
  exact formless_gives_nothing _ _ _ _ hformless

/-- The run fails in its second step, and is left with the bias that the first one made of one. -/
theorem failure_keeps_steps_broken : ∃ e losses t j,
    ((run brokenCourse.optimizer brokenCourse.training brokenCourse.validation brokenCourse.epochs).outcome
      brokenCourse.start brokenCourse.journal).1.1 = .error e ∧
    (Network.trainAll (.plain 1) [Network.blackBatch]).outcome ⟨pixelNetwork, ()⟩ Journal.empty =
      ((.ok losses, t), j) ∧
    ((run brokenCourse.optimizer brokenCourse.training brokenCourse.validation brokenCourse.epochs).outcome
      brokenCourse.start brokenCourse.journal).1.2.network.snapshot = t.network.snapshot ∧
    (Network.parameterName 0 "bias", Tensor.fill [1] (1 / 2)) ∈ t.network.snapshot := by
  cases hrun : ((run brokenCourse.optimizer brokenCourse.training brokenCourse.validation brokenCourse.epochs).outcome
      brokenCourse.start brokenCourse.journal).1.1 with
  | ok history =>
    obtain ⟨entry, stop, hgiven⟩ := Course.exists_given_of_runLast (r := brokenCourse) (k := 0) rfl hrun
    obtain ⟨losses, hlosses, -⟩ := (Course.remembered_of_given hgiven).training
    exact absurd hlosses (broken_gives_nothing losses)
  | error e =>
    obtain ⟨m, i, losses, t, j, hm, -, hfails, hsteps, hleft⟩ := failure_keeps_steps.2 brokenCourse e hrun
    obtain rfl : m = 0 := Nat.lt_one_iff.mp hm
    have hfirst := Network.pixelNetwork_biased.steps 1 Journal.empty
    have hone : (1 : ℝ) - 1 * pixelSlope 1 = 1 / 2 := by
      unfold pixelSlope
      norm_num
    rw [hone] at hfirst
    obtain ⟨n, hgives, hbiased⟩ := hfirst
    cases hfails with
    | evaluation hdone => exact absurd hdone (broken_gives_nothing _)
    | step hb hdone hstep =>
      match i, hb, hdone, hsteps with
      | 0, hb, hdone, _ =>
        cases hb
        cases hdone
        obtain ⟨n₁, hok, -⟩ := Network.pixelNetwork_biased.step 1 Journal.empty
        cases (congrArg Prod.fst hok).symm.trans hstep
      | 1, _, _, hsteps =>
        have hsame := (congrArg (fun r => r.1.2.network) hsteps).symm.trans (congrArg (fun r => r.2.network) hgives)
        exact ⟨e, losses, t, j, rfl, hsteps, hleft, hsame ▸ hbiased.mem_snapshot⟩
      | i + 2, hb, _, _ => cases hb

end Fitting
end SteeredConv
