/-
# Runs of epochs in parts

Without a stopper an epoch depends on nothing but the parameters and what the optimizer
remembers: not on which epoch it is of how many, not on what is in the journal, and not on
what the layers have checked, which is all that an evaluation changes. So networks in
training are compared as settled, and a run of epochs is a walk from one to another that may
be interrupted anywhere, also for evaluations.

Key definitions: `Network.EvaluatedTo`, `Fitting.Advances`, `Fitting.Progress`, `Fitting.Fits`.
Key theorems: `Advances.of_settled`, `progress_append_iff`, `progress_of_runLast`,
`Progress.outcome_runLast`, `Progress.training_unique`, `run_splits`.
-/
import SteeredConv.Proofs.FailedTraining

namespace SteeredConv

section Evaluations

variable {α ω : Type} [Scalar α] [Scalar ω] [Stored α ω] [Directed α α]

/-- A network and what any number of evaluations, failing ones included, make of it. -/
def Network.EvaluatedTo : Network α ω → Network α ω → Prop :=
  Relation.ReflTransGen fun n n' => ∃ batches j, n' = ((Network.evaluate batches).outcome n j).1.2

theorem Network.EvaluatedTo.settled_eq {n n' : Network α ω} (h : n.EvaluatedTo n') : n'.settled = n.settled := by
  induction h with
  | refl => rfl
  | tail _ hlast ih =>
    obtain ⟨batches, j, rfl⟩ := hlast
    exact (Network.fixes_evaluate batches _ j).trans ih

end Evaluations

namespace Fitting

variable {σ α ω : Type} [Scalar α] [Scalar ω] [Stored α ω] [Directed α α]

section Definitions

variable (o : Optimizer σ α) (training validation : List (Batch α))

/-- An epoch from one network in training to another, which is compared as settled: the steps of its training, and
an evaluation of what they leave. -/
def Advances (t : Trained σ α ω) (entry : EpochRecord ω) (t' : Trained σ α ω) : Prop :=
  ∃ losses m j j₁, (Network.trainAll o training).outcome t j = ((.ok losses, m), j₁) ∧
    entry.trainingLoss = averageOver (max losses.length 1) losses ∧
    ((Network.evaluate validation).outcome m.network j₁).1.1 = .ok entry.validation ∧ t'.settled = m.settled

/-- Epochs one after the other, with what each is remembered by. -/
inductive Progress : Trained σ α ω → List (EpochRecord ω) → Trained σ α ω → Prop where
  | done {t t' : Trained σ α ω} (h : t'.settled = t.settled) : Progress t [] t'
  | epoch {t u t' : Trained σ α ω} {entry : EpochRecord ω} {later : List (EpochRecord ω)}
      (h : Advances o training validation t entry u) (hlater : Progress u later t') :
      Progress t (entry :: later) t'

/-- A run of epochs that gives a history and leaves parameters with given entries. -/
def Fits (epochs : ℕ) (f : Fitting σ α ω) (j : Journal) (history : List (EpochRecord ω))
    (parameters : List (String × Tensor α)) : Prop :=
  ∃ left j', (run o training validation epochs).outcome f j = ((.ok history, left), j') ∧
    left.network.snapshot = parameters

end Definitions

variable {o : Optimizer σ α} {training validation : List (Batch α)} {t t' u u' : Trained σ α ω}
  {entry : EpochRecord ω} {history : List (EpochRecord ω)} {f : Fitting σ α ω} {epochs index : ℕ} {j : Journal}

/-! ### One epoch -/

/-- What the layers have checked does not matter to an epoch. -/
theorem Advances.of_settled (h : Advances o training validation t entry t') (ht : u.settled = t.settled)
    (ht' : u'.settled = t'.settled) : Advances o training validation u entry u' := by
  obtain ⟨losses, m, j, j₁, htrain, hmean, hscores, hleft⟩ := h
  obtain ⟨hlosses, hsettled⟩ := Network.trainAll_of_settled ht (congrArg (fun r => r.1.1) htrain) j
  rw [htrain] at hsettled
  exact ⟨losses, _, j, _, Prod.ext (Prod.ext hlosses rfl) rfl, hmean,
    Network.evaluate_of_settled (Trained.settled_network hsettled) hscores _, ht'.trans (hleft.trans hsettled.symm)⟩

/-- An epoch from networks that are the same when settled is remembered by the same and leads to the same. -/
theorem Advances.unique {entry' : EpochRecord ω} (h : Advances o training validation t entry t')
    (h' : Advances o training validation u entry' u') (ht : u.settled = t.settled) :
    entry' = entry ∧ u'.settled = t'.settled := by
  obtain ⟨losses, m, j, j₁, htrain, hmean, hscores, hleft⟩ := h
  obtain ⟨losses', m', k, k₁, htrain', hmean', hscores', hleft'⟩ := h'
  obtain ⟨hlosses, hsettled⟩ := Network.trainAll_of_settled ht (congrArg (fun r => r.1.1) htrain) k
  rw [htrain'] at hlosses hsettled
  rw [htrain] at hsettled
  obtain rfl := Except.ok.inj hlosses
  have hboth := (Network.evaluate_of_settled (Trained.settled_network hsettled) hscores k₁).symm.trans hscores'
  obtain ⟨loss, validation⟩ := entry
  obtain ⟨loss', validation'⟩ := entry'
  exact ⟨congrArg₂ EpochRecord.mk (hmean'.trans hmean.symm) (Except.ok.inj hboth).symm,
    hleft'.trans (hsettled.trans hleft.symm)⟩

/-- An epoch without a stopper goes on, and advances the network. -/
theorem advances_of_epoch (hf : f.stopper = none) {stop : Bool}
    (h : ((epoch o training validation epochs index).outcome f j).1.1 = .ok (entry, stop)) :
    stop = false ∧ ((epoch o training validation epochs index).outcome f j).1.2.stopper = none ∧
      Advances o training validation f.toTrained entry
        ((epoch o training validation epochs index).outcome f j).1.2.toTrained := by
  obtain ⟨losses, m, j₁, n, j₂, j₃, htrain, hmean, hscores, hconsult⟩ := epoch_gives h
  have hnone : ({ f with network := n, memory := m.memory } : Fitting σ α ω).stopper = none := hf
  rw [outcome_consult_of_none hnone, Prod.mk.injEq] at hconsult
  obtain ⟨hstop, hleft⟩ := hconsult
  rw [← hleft]
  have hsettled := Network.fixes_evaluate validation m.network j₁
  rw [hscores] at hsettled
  exact ⟨(Except.ok.inj hstop).symm, hf, losses, m, j, j₁, htrain, hmean, congrArg (fun r => r.1.1) hscores,
    congrArg (Trained.mk · m.memory) hsettled⟩

/-- An epoch that advances a network can be made from it by any fitting without a stopper. -/
theorem Advances.outcome_epoch (h : Advances o training validation t entry t') (ht : f.toTrained.settled = t.settled)
    (hf : f.stopper = none) (epochs index : ℕ) (j : Journal) : ∃ left j',
      (epoch o training validation epochs index).outcome f j = ((.ok (entry, false), left), j') ∧
        left.stopper = none ∧ left.toTrained.settled = t'.settled := by
  have hstart := h
  obtain ⟨losses, m, k, k₁, htrain, -, hscores, -⟩ := h
  obtain ⟨hlosses, hsettled⟩ := Network.trainAll_of_settled ht (congrArg (fun r => r.1.1) htrain) j
  rw [htrain] at hsettled
  have hevaluate := Network.evaluate_of_settled (Trained.settled_network hsettled) hscores
    ((Network.trainAll o training).outcome f.toTrained j).2
  obtain ⟨entry', stop, hgives⟩ := exists_epoch hlosses hevaluate epochs index
  obtain ⟨rfl, hnone, hadvances⟩ := advances_of_epoch hf hgives
  obtain ⟨rfl, hleft⟩ := hstart.unique hadvances ht
  exact ⟨_, _, Prod.ext (Prod.ext hgives rfl) rfl, hnone, hleft⟩

/-! ### Epoch after epoch -/

theorem Progress.of_settled (h : Progress o training validation t history t') (ht : u.settled = t.settled)
    (ht' : u'.settled = t'.settled) : Progress o training validation u history u' := by
  induction h generalizing u with
  | done h => exact .done (ht'.trans (h.trans ht.symm))
  | epoch h _ ih => exact .epoch (h.of_settled ht rfl) (ih rfl ht')

/-- Epochs may be made in two parts. -/
theorem progress_append_iff {first second : List (EpochRecord ω)} :
    Progress o training validation t (first ++ second) t' ↔
      ∃ u, Progress o training validation t first u ∧ Progress o training validation u second t' := by
  constructor
  · intro h
    induction first generalizing t with
    | nil => exact ⟨t, .done rfl, h⟩
    | cons entry later ih =>
      cases h with
      | epoch h hlater =>
        obtain ⟨u, hfirst, hsecond⟩ := ih hlater
        exact ⟨u, .epoch h hfirst, hsecond⟩
  · rintro ⟨u, hfirst, hsecond⟩
    induction hfirst with
    | done h => exact hsecond.of_settled h.symm rfl
    | epoch h _ ih => exact .epoch h (ih hsecond)

/-- The last epochs of a run without a stopper advance the network, one by one. -/
theorem progress_of_runLast {remaining : ℕ} (hf : f.stopper = none)
    (h : ((runLast o training validation epochs remaining).outcome f j).1.1 = .ok history) :
    history.length = remaining ∧ Progress o training validation f.toTrained history
      ((runLast o training validation epochs remaining).outcome f j).1.2.toTrained := by
  induction remaining generalizing f j history with
  | zero =>
    obtain rfl : [] = history := Except.ok.inj h
    exact ⟨rfl, .done rfl⟩
  | succ remaining ih =>
    rw [runLast] at h ⊢
    obtain ⟨⟨entry, stop⟩, hgives, h⟩ := Update.bind_gives h
    obtain ⟨rfl, hnone, hadvances⟩ := advances_of_epoch hf hgives
    rw [Update.outcome_bind_ok hgives]
    dsimp only at h ⊢
    rw [if_neg Bool.false_ne_true] at h ⊢
    obtain ⟨later, hlater, h⟩ := Update.bind_gives h
    obtain rfl : entry :: later = history := Except.ok.inj h
    obtain ⟨hlength, hprogress⟩ := ih hnone hlater
    rw [Update.outcome_bind_ok hlater]
    exact ⟨congrArg (· + 1) hlength, .epoch hadvances hprogress⟩

/-- Epochs that advance a network can be run from it by any fitting without a stopper. -/
theorem Progress.outcome_runLast (h : Progress o training validation t history t')
    (ht : f.toTrained.settled = t.settled) (hf : f.stopper = none) (epochs : ℕ) (j : Journal) : ∃ left j',
      (runLast o training validation epochs history.length).outcome f j = ((.ok history, left), j') ∧
        left.toTrained.settled = t'.settled := by
  induction h generalizing f j with
  | done h => exact ⟨f, j, rfl, ht.trans h.symm⟩
  | @epoch t u t' entry later h _ ih =>
    obtain ⟨f₁, j₁, hepoch, hnone, hsettled⟩ := h.outcome_epoch ht hf epochs (epochs - (later.length + 1)) j
    obtain ⟨left, j', hlater, hleft⟩ := ih hsettled hnone j₁
    refine ⟨left, j', ?_, hleft⟩
    rw [List.length_cons, runLast, Update.outcome_bind, hepoch]
    dsimp only
    rw [if_neg Bool.false_ne_true, Update.outcome_bind, hlater]
    rfl

/-- What the networks are evaluated on does not matter to what training makes of them. -/
theorem Progress.training_unique {others : List (Batch α)} {history' : List (EpochRecord ω)}
    (h : Progress o training validation t history t') (h' : Progress o training others u history' u')
    (hlength : history'.length = history.length) (ht : u.settled = t.settled) :
    history'.map EpochRecord.trainingLoss = history.map EpochRecord.trainingLoss ∧ u'.settled = t'.settled := by
  induction h generalizing u history' with
  | done h =>
    cases h' with
    | done h' => exact ⟨rfl, h'.trans (ht.trans h.symm)⟩
    | epoch => cases hlength
  | epoch h _ ih =>
    cases h' with
    | done => cases hlength
    | epoch h' hlater =>
      obtain ⟨losses, m, j, j₁, htrain, hmean, -, hleft⟩ := h
      obtain ⟨losses', m', k, k₁, htrain', hmean', -, hleft'⟩ := h'
      obtain ⟨hlosses, hsettled⟩ := Network.trainAll_of_settled ht (congrArg (fun r => r.1.1) htrain) k
      rw [htrain'] at hlosses hsettled
      rw [htrain] at hsettled
      obtain rfl := Except.ok.inj hlosses
      obtain ⟨hlosses, hend⟩ := ih hlater (Nat.succ.inj hlength) (hleft'.trans (hsettled.trans hleft.symm))
      exact ⟨congrArg₂ List.cons (hmean'.trans hmean.symm) hlosses, hend⟩

/-! ### Runs -/

/-- A run without a stopper gives a history exactly if it is one of as many epochs that advance the network. -/
theorem fits_iff {parameters : List (String × Tensor α)} (hf : f.stopper = none) :
    Fits o training validation epochs f j history parameters ↔
      history.length = epochs ∧ ∃ t, Progress o training validation f.toTrained history t ∧
        t.network.snapshot = parameters := by
  constructor
  · rintro ⟨left, j', hrun, rfl⟩
    obtain ⟨hlength, hprogress⟩ := progress_of_runLast hf (congrArg (fun r => r.1.1) hrun)
    refine ⟨hlength, left.toTrained, ?_, rfl⟩
    have hleft : ((runLast o training validation epochs epochs).outcome f j).1.2 = left :=
      congrArg (fun r => r.1.2) hrun
    rwa [hleft] at hprogress
  · rintro ⟨rfl, t, hprogress, rfl⟩
    obtain ⟨left, j', hrun, hleft⟩ := hprogress.outcome_runLast rfl hf history.length j
    exact ⟨left, j', hrun, Network.snapshot_of_settled (Trained.settled_network hleft)⟩

/-- Fitting can be split after any epoch. Without a stopper, a run of `n + m` epochs gives a history and leaves
parameters exactly if the history is that of a run of `n` epochs followed by that of a run of `m` epochs, whatever
evaluations, which change no parameter, come between the two, and the second run leaves those parameters. Nor does it
matter to the parameters and to the losses of training what the networks are evaluated on. Plain descent remembers
nothing; any other optimizer has to be handed on from the first run to the second one. -/
theorem run_splits (hf : f.stopper = none) (n m : ℕ) (j : Journal) (history : List (EpochRecord ω))
    (parameters : List (String × Tensor α)) :
    (Fits o training validation (n + m) f j history parameters ↔ ∃ first second f₁ j₁,
      (run o training validation n).outcome f j = ((.ok first, f₁), j₁) ∧ history = first ++ second ∧
        ∀ f₂ : Fitting σ α ω, f₂.stopper = none → f₁.network.EvaluatedTo f₂.network → f₂.memory = f₁.memory →
          f₂.network.snapshot = f₁.network.snapshot ∧
            ∀ j₂, Fits o training validation m f₂ j₂ second parameters) ∧
    ∀ others history' parameters', Fits o training others (n + m) f j history' parameters' →
      Fits o training validation (n + m) f j history parameters →
        parameters' = parameters ∧ history'.map EpochRecord.trainingLoss = history.map EpochRecord.trainingLoss := by
  refine ⟨⟨fun h => ?_, ?_⟩, fun others history' parameters' h' h => ?_⟩
  · obtain ⟨hlength, left, hprogress, hleft⟩ := (fits_iff hf).mp h
    have hparts : history = history.take n ++ history.drop n := (List.take_append_drop n history).symm
    rw [hparts] at hprogress
    obtain ⟨mid, hfirst, hsecond⟩ := progress_append_iff.mp hprogress
    have htaken : (history.take n).length = n := by
      rw [List.length_take, hlength]
      omega
    have hdropped : (history.drop n).length = m := by
      rw [List.length_drop, hlength]
      omega
    obtain ⟨f₁, j₁, hrun, hsettled⟩ := hfirst.outcome_runLast rfl hf n j
    rw [htaken] at hrun
    refine ⟨history.take n, history.drop n, f₁, j₁, hrun, hparts, fun f₂ hf₂ hevaluated hmemory => ?_⟩
    have hnetwork := hevaluated.settled_eq
    have hsame : f₂.toTrained.settled = f₁.toTrained.settled := congrArg₂ Trained.mk hnetwork hmemory
    exact ⟨Network.snapshot_of_settled hnetwork, fun j₂ => (fits_iff hf₂).mpr
      ⟨hdropped, left, hsecond.of_settled (hsame.trans hsettled) rfl, hleft⟩⟩
  · rintro ⟨first, second, f₁, j₁, hrun, rfl, hlater⟩
    obtain ⟨hlength, hfirst⟩ := progress_of_runLast hf (congrArg (fun r => r.1.1) hrun)
    have hleft : ((runLast o training validation n n).outcome f j).1.2 = f₁ := congrArg (fun r => r.1.2) hrun
    rw [hleft] at hfirst
    -- No evaluation at all may come between the two runs, too.
    obtain ⟨-, hfits⟩ := hlater ⟨f₁.toTrained, none, none⟩ rfl .refl rfl
    obtain ⟨hlength', left, hsecond, hparameters⟩ := (fits_iff rfl).mp (hfits j₁)
    refine (fits_iff hf).mpr ⟨?_, left, progress_append_iff.mpr ⟨f₁.toTrained, hfirst, hsecond⟩, hparameters⟩
    rw [List.length_append, hlength, hlength']
  · obtain ⟨hlength, left, hprogress, rfl⟩ := (fits_iff hf).mp h
    obtain ⟨hlength', left', hprogress', rfl⟩ := (fits_iff hf).mp h'
    obtain ⟨hlosses, hsettled⟩ := hprogress.training_unique hprogress' (hlength'.trans hlength.symm) rfl
    exact ⟨Network.snapshot_of_settled (Trained.settled_network hsettled), hlosses⟩

theorem advances_pixel {n : Network ℝ ℝ} {b : ℝ} (hn : n.Biased b) : ∃ entry n',
    Advances (.plain 1) [Network.blackBatch] [Network.blackBatch] ⟨n, ()⟩ entry ⟨n', ()⟩ ∧
      n'.Biased (b - pixelSlope b) := by
  obtain ⟨n', hsteps, hn'⟩ := hn.steps 1 Journal.empty
  rw [one_mul] at hn'
  obtain ⟨scores, -, hscores⟩ := hn'.evaluate
  exact ⟨⟨averageOver 1 [pixelLoss b], scores⟩, n', ⟨[pixelLoss b], ⟨n', ()⟩, Journal.empty, _,
    Prod.ext hsteps rfl, rfl, hscores _, rfl⟩, hn'⟩

/-- Three epochs that train on a black pixel are one epoch and then two, also after an evaluation that fails and one
that does not. All three change the bias, which was one. -/
theorem run_splits_pixel : ∃ history parameters first second f₁ j₁,
    Fits (.plain 1) [Network.blackBatch] [Network.blackBatch] 3 ⟨⟨pixelNetwork, ()⟩, none, none⟩ Journal.empty history
      parameters ∧
    (Network.parameterName 0 "bias", Tensor.fill [1] (42018193 / 324870050)) ∈ parameters ∧
    (run (.plain 1) [Network.blackBatch] [Network.blackBatch] 1).outcome ⟨⟨pixelNetwork, ()⟩, none, none⟩
      Journal.empty = ((.ok first, f₁), j₁) ∧
    (Network.parameterName 0 "bias", Tensor.fill [1] (1 / 2)) ∈ f₁.network.snapshot ∧
    history = first ++ second ∧ first.length = 1 ∧ second.length = 2 ∧
    ∀ f₂ : Fitting Unit ℝ ℝ, f₂.stopper = none →
      f₂.network = ((Network.evaluate [Network.blackBatch]).outcome
        ((Network.evaluate []).outcome f₁.network j₁).1.2 j₁).1.2 →
      f₂.network.snapshot = f₁.network.snapshot ∧
        Fits (.plain 1) [Network.blackBatch] [Network.blackBatch] 2 f₂ j₁ second parameters := by
  obtain ⟨entry₁, n₁, hadvances₁, hn₁⟩ := advances_pixel Network.pixelNetwork_biased
  obtain ⟨entry₂, n₂, hadvances₂, hn₂⟩ := advances_pixel hn₁
  obtain ⟨entry₃, n₃, hadvances₃, hn₃⟩ := advances_pixel hn₂
  have hfirst : (1 : ℝ) - pixelSlope 1 = 1 / 2 := biasAfter_one
  have hthird : (1 / 2 : ℝ) - pixelSlope (1 / 2) - pixelSlope (1 / 2 - pixelSlope (1 / 2)) = 42018193 / 324870050 := by
    unfold pixelSlope
    norm_num
  rw [hfirst] at hn₁ hn₃
  rw [hthird] at hn₃
  have hfits := (fits_iff (j := Journal.empty) (f := ⟨⟨pixelNetwork, ()⟩, none, none⟩) rfl).mpr
    ⟨rfl, _, .epoch hadvances₁ (.epoch hadvances₂ (.epoch hadvances₃ (.done rfl))), rfl⟩
  obtain ⟨first, second, f₁, j₁, hrun, hparts, hlater⟩ := (run_splits (f := ⟨⟨pixelNetwork, ()⟩, none, none⟩) rfl 1 2
    Journal.empty _ _).1.mp hfits
  obtain ⟨hlength, hprogress⟩ := progress_of_runLast (f := ⟨⟨pixelNetwork, ()⟩, none, none⟩) rfl
    (congrArg (fun r => r.1.1) hrun)
  have hlengths := congrArg List.length hparts
  rw [List.length_append, hlength] at hlengths
  have hleft : ((run (.plain 1) [Network.blackBatch] [Network.blackBatch] 1).outcome ⟨⟨pixelNetwork, ()⟩, none, none⟩
      Journal.empty).1.2 = f₁ := congrArg (fun r => r.1.2) hrun
  refine ⟨_, _, first, second, f₁, j₁, hfits, hn₃.mem_snapshot, hrun, ?_, hparts, hlength,
    Nat.add_left_cancel hlengths.symm, fun f₂ hf₂ hnetwork => ?_⟩
  · change Progress _ _ _ _ first ((run (.plain 1) [Network.blackBatch] [Network.blackBatch] 1).outcome
      ⟨⟨pixelNetwork, ()⟩, none, none⟩ Journal.empty).1.2.toTrained at hprogress
    rw [hleft] at hprogress
    cases hprogress with
    | done => cases hlength
    | epoch h hrest =>
      cases hrest with
      | epoch => cases Nat.succ.inj hlength
      | done hdone =>
        obtain ⟨-, hsettled⟩ := hadvances₁.unique h rfl
        exact (hn₁.of_settled (Trained.settled_network (hdone.trans hsettled))).mem_snapshot
  · obtain ⟨hsnapshot, hfits⟩ := hlater f₂ hf₂
      (hnetwork ▸ (Relation.ReflTransGen.single ⟨[], j₁, rfl⟩).tail ⟨_, j₁, rfl⟩) rfl
    exact ⟨hsnapshot, hfits j₁⟩

end Fitting
end SteeredConv
