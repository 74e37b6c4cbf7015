/-
# Runs of epochs

A run of epochs is described by the fitting and the journal before each of its epochs.
An epoch trains the network, evaluates the network that training leaves and tells the
stopper the loss. The evaluation changes no parameter, so what is saved is what was
evaluated. The run ends with the first epoch after which the losses have stalled, or
with the last one.

Runs that move parameters can be computed for a network of one pixel whose weight is zero:
to a black pixel it answers its bias, and a training step is a step of descent in the bias.

Key definitions: `Fitting.Course`, `Course.before`, `Course.evaluated`, `Course.Remembered`,
`Course.Ran`, `pixelNetwork`, `Network.Biased`.
Key theorems: `Fitting.epoch_gives`, `Course.follows_of_given`, `Course.ran_of_runLast`,
`Course.Ran.stalls`, `Course.Ran.stands`, `Course.run_stops_and_saves`,
`Network.Biased.step`, `Network.Biased.steps`.
-/
import SteeredConv.Proofs.ImageGradient
import SteeredConv.Proofs.NetworkShapes
import SteeredConv.Proofs.Stopping

namespace SteeredConv
namespace Fitting

open EarlyStopping (answer answers noted)

/-! ### One epoch -/

section Consultation

variable {σ α ω : Type} {f : Fitting σ α ω} {t : EarlyStopping ω × Option (Checkpoint ω (List (String × Tensor α)))}

/-- The call by which a stopper is told the loss of an epoch and given the network. -/
def callOf (loss : ω) (index : ℕ) (n : Network α ω) : EarlyStopping.Call ω (List (String × Tensor α)) :=
  ⟨loss, .int index, some n.snapshot, true⟩

/-- A fitting with a stopper and a checkpoint. -/
def Follows (f : Fitting σ α ω) (t : EarlyStopping ω × Option (Checkpoint ω (List (String × Tensor α)))) : Prop :=
  f.stopper = some t.1 ∧ f.saved = t.2

variable [Scalar ω]

/-- The stopper of a fitting takes note of an epoch. -/
theorem outcome_consult (hf : f.Follows t) (loss : ω) (index : ℕ) (j : Journal) :
    ((consult loss index).outcome f j).1 = (.ok (answer t (callOf loss index f.network)),
      { f with
        stopper := some (noted t (callOf loss index f.network)).1
        saved := (noted t (callOf loss index f.network)).2 }) := by
  obtain ⟨s, saved⟩ := t
  obtain ⟨hstopper, hsaved⟩ := hf
  have hobserve := EarlyStopping.outcome_observe (callOf loss index f.network) (s, saved) j
  unfold consult
  rw [Update.outcome_bind, Update.outcome_get]
  dsimp only
  rw [hstopper]
  dsimp only
  rw [Update.outcome_within, hsaved]
  exact congrArg (fun r => (r.1, { f with stopper := some r.2.1, saved := r.2.2 })) hobserve

theorem outcome_consult_of_none (hf : f.stopper = none) (loss : ω) (index : ℕ) (j : Journal) :
    (consult loss index).outcome f j = ((.ok false, f), j) := by
  unfold consult
  rw [Update.outcome_bind, Update.outcome_get]
  dsimp only
  rw [hf]
  rfl

theorem exists_consult (f : Fitting σ α ω) (loss : ω) (index : ℕ) (j : Journal) :
    ∃ stop, ((consult loss index).outcome f j).1.1 = .ok stop := by
  cases hstopper : f.stopper with
  | none => exact ⟨false, congrArg (fun r => r.1.1) (outcome_consult_of_none hstopper loss index j)⟩
  | some s => exact ⟨_, congrArg Prod.fst (outcome_consult (t := (s, f.saved)) ⟨hstopper, rfl⟩ loss index j)⟩

theorem fixes_consult (loss : ω) (index : ℕ) :
    (consult loss index : Update (Fitting σ α ω) Fault Bool).Fixes Fitting.toTrained := by
  refine Update.fixes_bind Update.fixes_get fun f => ?_
  cases f.stopper with
  | none => exact Update.fixes_pure false
  | some s =>
    have hnothing : (EarlyStopping.observe (some loss) (some f.network.snapshot) (.int index) true).Fixes
        fun _ => () := fun _ _ => rfl
    exact Update.fixes_within hnothing fun _ _ _ => rfl

end Consultation

variable {σ α ω : Type} [Scalar α] [Scalar ω] [Stored α ω] [Directed α α]

/-- An epoch that is over has trained the network, evaluated what training left and consulted the stopper
about the loss. -/
theorem epoch_gives {o : Optimizer σ α} {training validation : List (Batch α)} {epochs index : ℕ} {j : Journal}
    {f : Fitting σ α ω} {entry : EpochRecord ω} {stop : Bool}
    (h : ((epoch o training validation epochs index).outcome f j).1.1 = .ok (entry, stop)) :
    ∃ losses t j₁ n' j₂ j₃,
      (Network.trainAll o training).outcome f.toTrained j = ((.ok losses, t), j₁) ∧
      entry.trainingLoss = averageOver (max losses.length 1) losses ∧
      (Network.evaluate validation).outcome t.network j₁ = ((.ok entry.validation, n'), j₂) ∧
      ((consult entry.validation.loss index).outcome { f with network := n', memory := t.memory } j₃).1 =
        (.ok stop, ((epoch o training validation epochs index).outcome f j).1.2) := by
  obtain ⟨losses, hlosses, h₁⟩ := Update.bind_gives h
  obtain ⟨scores, hscores, h₂⟩ := Update.bind_gives h₁
  obtain ⟨_, hlog, h₃⟩ := Update.bind_gives h₂
  obtain ⟨_, hstop, h₄⟩ := Update.bind_gives h₃
  cases h₄
  refine ⟨losses, _, _, _, _, _, Prod.ext (Prod.ext hlosses rfl) rfl, rfl, Prod.ext (Prod.ext hscores rfl) rfl,
    Prod.ext hstop ?_⟩
  unfold epoch
  rw [Update.outcome_bind_ok hlosses, Update.outcome_bind_ok hscores, Update.outcome_bind_ok hlog,
    Update.outcome_bind_ok hstop]
  rfl

/-- An epoch whose training and evaluation give something gives something. -/
theorem exists_epoch {o : Optimizer σ α} {training validation : List (Batch α)} {f : Fitting σ α ω} {j : Journal}
    {losses : List ω} {scores : Scores ω}
    (hlosses : ((Network.trainAll o training).outcome f.toTrained j).1.1 = .ok losses)
    (hscores : ((Network.evaluate validation).outcome
      ((Network.trainAll o training).outcome f.toTrained j).1.2.network
      ((Network.trainAll o training).outcome f.toTrained j).2).1.1 = .ok scores) (epochs index : ℕ) :
    ∃ entry stop, ((epoch o training validation epochs index).outcome f j).1.1 = .ok (entry, stop) := by
  choose stop hstop using fun (f : Fitting σ α ω) j => exists_consult f scores.loss index j
  exact ⟨⟨averageOver (max losses.length 1) losses, scores⟩, stop _ _,
    Update.gives_andThen hlosses (Update.gives_andThen hscores (Update.gives_andThen rfl
      (Update.gives_andThen (hstop _ _) rfl)))⟩

/-! ### Epoch after epoch -/

/-- A run of epochs as it is begun. -/
structure Course (σ α ω : Type) where
  optimizer : Optimizer σ α
  training : List (Batch α)
  validation : List (Batch α)
  epochs : ℕ
  start : Fitting σ α ω
  journal : Journal

namespace Course

variable (r : Course σ α ω)

def before : ℕ → Fitting σ α ω × Journal
  | 0 => (r.start, r.journal)
  | k + 1 =>
    let left := (epoch r.optimizer r.training r.validation r.epochs k).outcome (before k).1 (before k).2
    (left.1.2, left.2)

/-- What an epoch gives. -/
def given (k : ℕ) : Except Fault (EpochRecord ω × Bool) :=
  ((epoch r.optimizer r.training r.validation r.epochs k).outcome (r.before k).1 (r.before k).2).1.1

/-- What training in an epoch gives, with the network and the journal that it leaves. -/
def trained (k : ℕ) : (Except Fault (List ω) × Trained σ α ω) × Journal :=
  (Network.trainAll r.optimizer r.training).outcome (r.before k).1.toTrained (r.before k).2

def evaluated (k : ℕ) : Network α ω := (r.trained k).1.2.network

/-- An epoch is remembered by the mean loss of its training and by the scores of the network that training
left. -/
structure Remembered (k : ℕ) (entry : EpochRecord ω) : Prop where
  training : ∃ losses, (r.trained k).1.1 = .ok losses ∧
    entry.trainingLoss = averageOver (max losses.length 1) losses
  validation : ((Network.evaluate r.validation).outcome (r.evaluated k) (r.trained k).2).1.1 = .ok entry.validation

/-- The epochs that were run from one of them on, while a number of them remained: what they are remembered
by, and what they left. -/
inductive Ran : ℕ → ℕ → List (EpochRecord ω) → Fitting σ α ω × Journal → Prop where
  | ended (k : ℕ) : Ran k 0 [] (r.before k)
  | stopped {k remaining : ℕ} {entry : EpochRecord ω} (h : r.given k = .ok (entry, true)) :
      Ran k (remaining + 1) [entry] (r.before (k + 1))
  | continued {k remaining : ℕ} {entry : EpochRecord ω} {later : List (EpochRecord ω)} {left : Fitting σ α ω × Journal}
      (h : r.given k = .ok (entry, false)) (hlater : Ran (k + 1) remaining later left) :
      Ran k (remaining + 1) (entry :: later) left

def calls (k : ℕ) (history : List (EpochRecord ω)) : List (EarlyStopping.Call ω (List (String × Tensor α))) :=
  (history.zipIdx k).map fun (entry, i) => callOf entry.validation.loss i (r.evaluated i)

theorem calls_cons (k : ℕ) (entry : EpochRecord ω) (later : List (EpochRecord ω)) :
    r.calls k (entry :: later) = callOf entry.validation.loss k (r.evaluated k) :: r.calls (k + 1) later := rfl

theorem getElem?_calls (k : ℕ) (history : List (EpochRecord ω)) (i : ℕ) : (r.calls k history)[i]? =
    history[i]?.map fun entry => callOf entry.validation.loss (k + i) (r.evaluated (k + i)) := by
  unfold calls
  rw [List.getElem?_map, List.getElem?_zipIdx, Option.map_map]
  rfl

theorem length_calls (k : ℕ) (history : List (EpochRecord ω)) : (r.calls k history).length = history.length := by
  unfold calls
  rw [List.length_map, List.length_zipIdx]

theorem map_loss_calls (k : ℕ) (history : List (EpochRecord ω)) :
    (r.calls k history).map EarlyStopping.Call.loss = history.map fun entry => entry.validation.loss := by
  refine List.ext_getElem? fun i => ?_
  rw [List.getElem?_map, getElem?_calls, Option.map_map, List.getElem?_map]
  rfl

variable {r} {k remaining : ℕ} {entry : EpochRecord ω} {stop : Bool} {history : List (EpochRecord ω)}
  {left : Fitting σ α ω × Journal} {t : EarlyStopping ω × Option (Checkpoint ω (List (String × Tensor α)))}

theorem remembered_of_given (h : r.given k = .ok (entry, stop)) : r.Remembered k entry := by
  obtain ⟨losses, t, j₁, n', j₂, j₃, htrain, hmean, hscores, -⟩ := epoch_gives h
  have htrained : r.trained k = ((.ok losses, t), j₁) := htrain
  refine ⟨⟨losses, ?_, hmean⟩, ?_⟩
  · rw [htrained]
  · unfold evaluated
    rw [htrained]
    exact congrArg (fun r => r.1.1) hscores

/-- An epoch leaves what its training left, but for what the layers have checked. -/
theorem settled_succ {entry : EpochRecord ω} {stop : Bool} (h : r.given k = .ok (entry, stop)) :
    (r.before (k + 1)).1.toTrained.settled = (r.trained k).1.2.settled := by
  obtain ⟨losses, t, j₁, n', j₂, j₃, htrain, -, hscores, hconsult⟩ := epoch_gives h
  have htrained : (r.trained k).1.2 = t := congrArg (fun r => r.1.2) htrain
  have hleft : (r.before (k + 1)).1.toTrained = ⟨n', t.memory⟩ := by
    have hfixes := fixes_consult entry.validation.loss k
      { (r.before k).1 with network := n', memory := t.memory } j₃
    rwa [hconsult] at hfixes
  have hsettled := Network.fixes_evaluate r.validation t.network j₁
  rw [hscores] at hsettled
  have hnetwork : n'.settled = t.network.settled := hsettled
  rw [hleft, htrained]
  unfold Trained.settled
  rw [hnetwork]

/-- In an epoch the stopper takes note of the network that training left. -/
theorem follows_of_given (h : r.given k = .ok (entry, stop)) (hbefore : (r.before k).1.Follows t) :
    stop = answer t (callOf entry.validation.loss k (r.evaluated k)) ∧
      (r.before (k + 1)).1.Follows (noted t (callOf entry.validation.loss k (r.evaluated k))) := by
  obtain ⟨losses, left, j₁, n', j₂, j₃, htrain, -, hscores, hconsult⟩ := epoch_gives h
  have hevaluated : r.evaluated k = left.network := congrArg (fun r => r.1.2.network) htrain
  -- The evaluation leaves the parameters as training left them.
  have hsettled : n'.settled = left.network.settled := by
    have hfixes := Network.fixes_evaluate r.validation left.network j₁
    rwa [hscores] at hfixes
  have hcall : callOf entry.validation.loss k n' = callOf entry.validation.loss k left.network := by
    unfold callOf
    rw [Network.snapshot_of_settled hsettled]
  have hfollows : ({ (r.before k).1 with network := n', memory := left.memory } : Fitting σ α ω).Follows t := hbefore
  rw [outcome_consult hfollows, Prod.mk.injEq, Except.ok.injEq] at hconsult
  obtain ⟨hstop, hleft⟩ := hconsult
  dsimp only at hstop hleft
  rw [hcall, ← hevaluated] at hstop hleft
  have hnext : (r.before (k + 1)).1 = _ := hleft.symm
  rw [hnext]
  exact ⟨hstop.symm, rfl, rfl⟩

theorem outcome_runLast (hepochs : k + (remaining + 1) = r.epochs) (hgiven : r.given k = .ok (entry, stop)) :
    (runLast r.optimizer r.training r.validation r.epochs (remaining + 1)).outcome (r.before k).1 (r.before k).2 =
      (if stop then pure [entry] else do
        let later ← runLast r.optimizer r.training r.validation r.epochs remaining
        return entry :: later).outcome (r.before (k + 1)).1 (r.before (k + 1)).2 := by
  have hindex : r.epochs - (remaining + 1) = k := by omega
  rw [runLast, hindex, Update.outcome_bind_ok hgiven]
  rfl

theorem exists_given_of_runLast (hepochs : k + (remaining + 1) = r.epochs)
    (h : ((runLast r.optimizer r.training r.validation r.epochs (remaining + 1)).outcome
      (r.before k).1 (r.before k).2).1.1 = .ok history) : ∃ entry stop, r.given k = .ok (entry, stop) := by
  have hindex : r.epochs - (remaining + 1) = k := by omega
  rw [runLast, hindex] at h
  obtain ⟨⟨entry, stop⟩, hgiven, -⟩ := Update.bind_gives h
  exact ⟨entry, stop, hgiven⟩

/-- The last epochs of a run, one after the other. -/
theorem ran_of_runLast (hepochs : k + remaining = r.epochs)
    (h : ((runLast r.optimizer r.training r.validation r.epochs remaining).outcome (r.before k).1 (r.before k).2).1.1 =
      .ok history) :
    r.Ran k remaining history
      (((runLast r.optimizer r.training r.validation r.epochs remaining).outcome (r.before k).1 (r.before k).2).1.2,
        ((runLast r.optimizer r.training r.validation r.epochs remaining).outcome (r.before k).1
          (r.before k).2).2) := by
  induction remaining generalizing k history with
  | zero =>
    obtain rfl : [] = history := Except.ok.inj h
    exact .ended k
  | succ remaining ih =>
    obtain ⟨entry, stop, hgiven⟩ := exists_given_of_runLast hepochs h
    rw [outcome_runLast hepochs hgiven] at h ⊢
    cases stop with
    | true =>
      obtain rfl : [entry] = history := Except.ok.inj h
      exact .stopped hgiven
    | false =>
      rw [if_neg Bool.false_ne_true] at h ⊢
      obtain ⟨later, hlater, h⟩ := Update.bind_gives h
      rw [Update.outcome_bind_ok hlater]
      obtain rfl : entry :: later = history := Except.ok.inj h
      exact .continued hgiven (ih (by omega) hlater)

/-- If every epoch gives something, so does the run of the last ones. -/
theorem exists_history (h : ∀ k < r.epochs, ∃ entry stop, r.given k = .ok (entry, stop))
    (hepochs : k + remaining = r.epochs) :
    ∃ history, ((runLast r.optimizer r.training r.validation r.epochs remaining).outcome
      (r.before k).1 (r.before k).2).1.1 = .ok history := by
  induction remaining generalizing k with
  | zero => exact ⟨[], rfl⟩
  | succ remaining ih =>
    obtain ⟨entry, stop, hgiven⟩ := h k (by omega)
    rw [outcome_runLast hepochs hgiven]
    cases stop with
    | true => exact ⟨[entry], rfl⟩
    | false =>
      obtain ⟨later, hlater⟩ := ih (k := k + 1) (by omega)
      rw [if_neg Bool.false_ne_true, Update.outcome_bind_ok hlater]
      exact ⟨entry :: later, rfl⟩

theorem exists_given {losses : List ω} {scores : Scores ω} (hlosses : (r.trained k).1.1 = .ok losses)
    (hscores : ((Network.evaluate r.validation).outcome (r.evaluated k) (r.trained k).2).1.1 = .ok scores) :
    ∃ entry stop, r.given k = .ok (entry, stop) := exists_epoch hlosses hscores r.epochs k

theorem answers_eq_true_iff {s : EarlyStopping ω} (hs : s.Fresh)
    {saved : Option (Checkpoint ω (List (String × Tensor α)))} {i : ℕ} (hi : i < history.length) :
    (answers (s, saved) (r.calls k history))[i]? = some true ↔
      Stalled s.patience s.leastImprovement ((history.map fun entry => entry.validation.loss).take (i + 1)) := by
  have hcalls : i < (r.calls k history).length := (r.length_calls k history).symm ▸ hi
  rw [EarlyStopping.answers_eq_true_iff hs saved hcalls, map_loss_calls]

namespace Ran

theorem length_le (h : r.Ran k remaining history left) : history.length ≤ remaining := by
  induction h with
  | ended => exact le_rfl
  | stopped => exact Nat.succ_le_succ (Nat.zero_le _)
  | continued _ _ ih => exact Nat.succ_le_succ ih

theorem left_eq (h : r.Ran k remaining history left) : left = r.before (k + history.length) := by
  induction h with
  | ended => rfl
  | stopped => rfl
  | continued _ _ ih =>
    rw [ih, List.length_cons]
    congr 1
    omega

theorem ne_nil (h : r.Ran k (remaining + 1) history left) : history ≠ [] := by
  cases h <;> exact List.cons_ne_nil _ _

theorem remembered (h : r.Ran k remaining history left) {i : ℕ} (hi : history[i]? = some entry) :
    r.Remembered (k + i) entry := by
  induction h generalizing i with
  | ended => cases hi
  | stopped hgiven =>
    cases i with
    | zero =>
      obtain rfl := Option.some.inj hi
      exact remembered_of_given hgiven
    | succ i => cases hi
  | continued hgiven _ ih =>
    cases i with
    | zero =>
      obtain rfl := Option.some.inj hi
      exact remembered_of_given hgiven
    | succ i =>
      have hlater := ih hi
      rwa [Nat.succ_add_eq_add_succ] at hlater

/-- The stopper and the checkpoint that are left are those after the calls of the epochs. -/
theorem follows (h : r.Ran k remaining history left) (hbefore : (r.before k).1.Follows t) :
    left.1.Follows ((r.calls k history).foldl noted t) := by
  induction h generalizing t with
  | ended => exact hbefore
  | stopped hgiven => exact (follows_of_given hgiven hbefore).2
  | continued hgiven _ ih => exact ih (follows_of_given hgiven hbefore).2

/-- No call but the last one is told to stop, and the last one is if more epochs remain. -/
theorem answers (h : r.Ran k remaining history left) (hbefore : (r.before k).1.Follows t) :
    (∀ i, i + 1 < history.length → (answers t (r.calls k history))[i]? = some false) ∧
      (history.length < remaining → (answers t (r.calls k history)).getLast? = some true) := by
  induction h generalizing t with
  | ended => exact ⟨fun i hi => absurd hi (Nat.not_lt_zero _), fun h => absurd h (Nat.lt_irrefl 0)⟩
  | stopped hgiven =>
    obtain ⟨hstop, -⟩ := follows_of_given hgiven hbefore
    refine ⟨fun i hi => ?_, fun _ => congrArg some hstop.symm⟩
    have hlt : i < 0 := Nat.lt_of_succ_lt_succ hi
    exact absurd hlt (Nat.not_lt_zero i)
  | continued hgiven _ ih =>
    obtain ⟨hstop, hnext⟩ := follows_of_given hgiven hbefore
    obtain ⟨hfirst, hlast⟩ := ih hnext
    rw [calls_cons]
    unfold EarlyStopping.answers
    rw [← hstop]
    refine ⟨fun i hi => ?_, fun hlt => ?_⟩
    · cases i with
      | zero => rfl
      | succ i => exact hfirst i (Nat.lt_of_succ_lt_succ hi)
    · rw [List.getLast?_cons, hlast (Nat.lt_of_succ_lt_succ hlt)]
      rfl

section Fresh

variable {s : EarlyStopping ω} {saved : Option (Checkpoint ω (List (String × Tensor α)))}

/-- A run from a fresh stopper on ends with the first epoch after which the losses have stalled, or with the
last one. -/
theorem stalls (h : r.Ran k (remaining + 1) history left) (hs : s.Fresh)
    (hbefore : (r.before k).1.Follows (s, saved)) :
    (history.length < remaining + 1 →
      Stalled s.patience s.leastImprovement (history.map fun entry => entry.validation.loss)) ∧
    ∀ i < history.length,
      ¬Stalled s.patience s.leastImprovement ((history.map fun entry => entry.validation.loss).take i) := by
  obtain ⟨hgo, hstop⟩ := h.answers hbefore
  constructor
  · intro hlt
    have hpos : 0 < history.length := List.length_pos_of_ne_nil h.ne_nil
    have hlast := hstop hlt
    rw [List.getLast?_eq_getElem?, EarlyStopping.length_answers, length_calls,
      answers_eq_true_iff hs (Nat.sub_one_lt hpos.ne'), Nat.sub_add_cancel hpos,
      List.take_of_length_le (List.length_map _).le] at hlast
    exact hlast
  · intro i hi hstalled
    cases i with
    | zero => exact absurd hstalled.1 (Nat.not_le.mpr hs.patience)
    | succ i =>
      have hyes : (EarlyStopping.answers (s, saved) (r.calls k history))[i]? = some true :=
        (answers_eq_true_iff hs (Nat.lt_of_succ_lt hi)).mpr hstalled
      rw [hgo i hi] at hyes
      cases hyes

/-- What it leaves of the stopper and saves is due to the last epoch that improved. -/
theorem stands (h : r.Ran k (remaining + 1) history left) (hs : s.Fresh)
    (hbefore : (r.before k).1.Follows (s, saved)) (hsaves : s.savesModel = true) :
    ∃ i entry t, history[i]? = some entry ∧
      LastImproving s.leastImprovement (history.map fun entry => entry.validation.loss) i ∧
      left.1.stopper = some t ∧ t.bestEpoch = .int ((k + i : ℕ) : ℤ) ∧ t.best = some entry.validation.loss ∧
      left.1.saved =
        some ⟨.int ((k + i : ℕ) : ℤ), some entry.validation.loss, (r.evaluated (k + i)).snapshot, true, s.params⟩ := by
  have hne : r.calls k history ≠ [] := by
    rw [← List.length_pos_iff, length_calls, List.length_pos_iff]
    exact h.ne_nil
  obtain ⟨i, c, hstanding⟩ := EarlyStopping.standing_noted hs saved hne
  obtain ⟨hstopper, hsaved⟩ := h.follows hbefore
  have hcall := hstanding.call
  rw [getElem?_calls, Option.map_eq_some_iff] at hcall
  obtain ⟨entry, hentry, rfl⟩ := hcall
  have hlast := hstanding.last
  rw [map_loss_calls] at hlast
  refine ⟨i, entry, _, hentry, hlast, hstopper, congrArg EarlyStopping.bestEpoch hstanding.stopper,
    congrArg EarlyStopping.best hstanding.stopper, ?_⟩
  rw [hsaved, hstanding.saved hsaves _ rfl]
  rfl

end Fresh

end Ran

/-- Fitting with a fresh stopper that saves. The run ends with the first epoch after which the losses have
stalled, or with the last one; each epoch is remembered by what it gave. The stopper is left with the last
epoch that improved, and the checkpoint holds that epoch, its loss and the parameters as they were evaluated
in it. -/
theorem run_stops_and_saves (r : Course σ α ω) {s : EarlyStopping ω} (hs : s.Fresh) (hsaves : s.savesModel = true)
    (hstopper : r.start.stopper = some s) (hepochs : 0 < r.epochs) {history : List (EpochRecord ω)}
    {f : Fitting σ α ω} {j : Journal}
    (h : (run r.optimizer r.training r.validation r.epochs).outcome r.start r.journal = ((.ok history, f), j)) :
    history.length ≤ r.epochs ∧ (f, j) = r.before history.length ∧
      (∀ k entry, history[k]? = some entry → r.Remembered k entry) ∧
      (history.length < r.epochs →
        Stalled s.patience s.leastImprovement (history.map fun entry => entry.validation.loss)) ∧
      (∀ k < history.length,
        ¬Stalled s.patience s.leastImprovement ((history.map fun entry => entry.validation.loss).take k)) ∧
      ∃ k entry t, history[k]? = some entry ∧
        LastImproving s.leastImprovement (history.map fun entry => entry.validation.loss) k ∧
        f.stopper = some t ∧ t.bestEpoch = .int k ∧ t.best = some entry.validation.loss ∧
        f.saved = some ⟨.int k, some entry.validation.loss, (r.evaluated k).snapshot, true, s.params⟩ := by
  have hran : r.Ran 0 r.epochs history (f, j) := by
    have hran := ran_of_runLast (Nat.zero_add r.epochs) (congrArg (fun r => r.1.1) h)
    unfold run at h
    unfold before at hran
    rwa [h] at hran
  have hstart : (r.before 0).1.Follows (s, r.start.saved) := ⟨hstopper, rfl⟩
  obtain ⟨last, hlast⟩ := Nat.exists_eq_succ_of_ne_zero hepochs.ne'
  rw [hlast] at hran ⊢
  obtain ⟨hstalled, hearlier⟩ := hran.stalls hs hstart
  have hleft := hran.left_eq
  have hremembered := fun k entry (hk : history[k]? = some entry) => hran.remembered hk
  have hstands := hran.stands hs hstart hsaves
  simp only [Nat.zero_add] at hleft hremembered hstands
  exact ⟨hran.length_le, hleft, hremembered, hstalled, hearlier, hstands⟩

end Course
end Fitting

/-! ### Training on one pixel -/

section Pixel

open Finset Tensor

/-- A batch of one pixel. -/
noncomputable def pixel (x : ℝ) : Tensor ℝ := fill [1, 1, 1, 1] x

def pixelWindow : Geometry := squareWindows 1 0 Nat.one_pos

noncomputable def pixelSmoother : Smoother ℝ := sampleSmoother pixelWindow

/-- A convolution with one kernel of one entry and a bias, both of them one. -/
noncomputable def pixelLayer : ConvLayer ℝ ℝ where
  options := {
    numOutput := .int 1
    kernelSize := .int 1
    weightFiller := .filler { type := .text "constant", value := .int 1 }
    biasFiller := .filler { type := .text "constant", value := .int 1 } }
  globals := {}
  inChannels := .int 1
  geometry := pixelWindow
  estimator := ⟨⟨.orientation, "torch", {}⟩, pixelSmoother⟩
  weight := .fresh (ofFlat [1, 1, 1, 1] fun _ => (Number.whole 1).toScalar)
  bias := some (.fresh (ofFlat [1] fun _ => (Number.whole 1).toScalar))
  lastShape := none

/-- The description of this layer and of a comparator of pixels with stabilizers of one. -/
def pixelDescription : Value :=
  let one : Value := .map [(.text "type", .text "constant"), (.text "value", .int 1)]
  let conv : Value := .map [(.text "type", .text "GradOrientConvolution"), (.text "num_output", .int 1),
    (.text "kernel_size", .int 1), (.text "weight_filler", one), (.text "bias_filler", one)]
  let loss : Value := .map [(.text "type", .text "SSIMLoss"), (.text "kernel_size", .int 1),
    (.text "c1", .int 1), (.text "c2", .int 1)]
  .map [(.text "negative_slope", .int 0), (.text "layers", .list [conv, loss])]

noncomputable def pixelNetwork : Network ℝ ℝ where
  gradient := ⟨.gradient, "torch", {}⟩
  slope := Scalar.ofFloat (Float.ofInt 0)
  first := pixelLayer
  rest := []
  loss := ⟨{ kernelSize := .int 1, c1 := .int 1, c2 := .int 1 }, {}, pixelWindow, pixelSmoother⟩

set_option maxRecDepth 10000 in
theorem build_pixelNetwork [Draws ℝ ℝ] : (Network.build "" pixelDescription {}).Gives pixelNetwork :=
  ⟨Journal.empty, by with_unfolding_all rfl⟩

theorem flat_pixel (x : ℝ) : (pixel x).flat 0 = x := flat_fill Nat.one_pos x

theorem pixel_of_shape {t : Tensor ℝ} (h : t.shape = [1, 1, 1, 1]) : t = pixel (t.flat 0) := by
  refine ext_flat h fun i hi => ?_
  have hlt : i < volume t.shape := hi
  rw [h] at hlt
  obtain rfl : i = 0 := Nat.lt_one_iff.mp hlt
  exact (flat_pixel _).symm

/-- The table of a window of one pixel is one. -/
theorem table_pixelSmoother : pixelSmoother.table = fill [1, 1] 1 := by
  have hdeviation : (footprintDeviation 1 1 : ℝ) ≠ 0 := by
    unfold footprintDeviation
    norm_num
  have hpos : 0 < pixelSmoother.table.flat 0 :=
    at2_gaussianTable_pos (a := 0) (b := 0) hdeviation Nat.one_pos Nat.one_pos
  have hsum : pixelSmoother.table.sum = _ / _ :=
    sum_normalized (rawTable 1 1 (middle 1, middle 1) (footprintDeviation 1 1))
  have hflat : pixelSmoother.table.sum = pixelSmoother.table.flat 0 := by
    rw [sum_eq_sum_flat]
    exact sum_range_one _
  have hone : pixelSmoother.table.flat 0 = 1 := by
    rw [← hflat, hsum]
    refine div_self fun hzero => ?_
    rw [hzero, div_zero] at hsum
    exact hpos.ne' (hflat.symm.trans hsum)
  refine ext_flat rfl fun i hi => ?_
  obtain rfl : i = 0 := Nat.lt_one_iff.mp hi
  rw [hone]
  exact (flat_fill Nat.one_pos 1).symm

theorem sumTaps_pixel (f : ℕ → ℕ → ℝ) : sumTaps (1, 1) f = f 0 0 := by
  rw [sumTaps_eq_sum]
  exact sum_singleton _ _

theorem windowAverage_pixel (x : ℝ) : windowAverage pixelWindow.sweep pixelSmoother.table (pixel x) = pixel x := by
  rw [table_pixelSmoother]
  have hgrid : pixelWindow.sweep.grid (1, 1) (1, 1) = (1, 1) := by decide
  have hshape : (windowAverage pixelWindow.sweep (fill [1, 1] 1) (pixel x)).shape = [1, 1, 1, 1] := by
    rw [shape_windowAverage]
    show [1, 1, (pixelWindow.sweep.grid (1, 1) (1, 1)).1, (pixelWindow.sweep.grid (1, 1) (1, 1)).2] = _
    rw [hgrid]
  rw [pixel_of_shape hshape]
  congr 1
  unfold windowAverage
  show (ofImages 1 1 (pixelWindow.sweep.grid (1, 1) (1, 1)).1 (pixelWindow.sweep.grid (1, 1) (1, 1)).2 _).flat 0 = _
  rw [hgrid]
  unfold ofImages
  rw [flat_ofFlat Nat.one_pos]
  show sumTaps (1, 1) _ = _
  rw [sumTaps_pixel]
  show (pixel x).padded (0, 0) 0 0 0 0 * (fill [1, 1] 1 : Tensor ℝ).flat 0 = x
  rw [padded_zero, flat_fill Nat.one_pos, mul_one]
  exact flat_pixel x

theorem windowSpread_pixel {t : Tensor ℝ} (ht : t.shape = [1, 1, 1, 1]) :
    windowSpread pixelWindow.sweep pixelSmoother.table [1, 1, 1, 1] t = t := by
  rw [table_pixelSmoother, pixel_of_shape ht, pixel_of_shape (shape_windowSpread _ _ 1 1 1 1 _)]
  congr 1
  unfold windowSpread ofImages
  rw [flat_ofFlat Nat.one_pos]
  show sumTaps (1, 1) _ = _
  rw [sumTaps_pixel]
  show (pixel (t.flat 0)).flat 0 * (fill [1, 1] 1 : Tensor ℝ).flat 0 = t.flat 0
  rw [flat_fill Nat.one_pos, mul_one, flat_pixel]

theorem products_pixel (x y : ℝ) : products (pixel x) (pixel y) = pixel (x * y) := by
  have hshape : (products (pixel x) (pixel y)).shape = [1, 1, 1, 1] := rfl
  rw [pixel_of_shape hshape]
  exact congrArg pixel ((flat_zipWith Nat.one_pos).trans (congrArg₂ (· * ·) (flat_pixel x) (flat_pixel y)))

/-- The loss of a pixel that should be black. -/
noncomputable def pixelLoss (x : ℝ) : ℝ := 1 - 1 / (x * x + 1)

/-- The derivative of this loss. -/
noncomputable def pixelSlope (x : ℝ) : ℝ := (x + x) / ((x * x + 1) * (x * x + 1))

theorem reached_pixelNetwork : pixelNetwork.Reached :=
  have := Draws.middling ℝ ℝ
  .built build_pixelNetwork

theorem sound_pixelNetwork : pixelNetwork.Sound := Network.sound_of_reached reached_pixelNetwork

theorem pixelLoss_mem (x : ℝ) : 0 ≤ pixelLoss x ∧ pixelLoss x ≤ 1 := by
  have hpos : 0 < x * x + 1 := add_pos_of_nonneg_of_pos (mul_self_nonneg x) one_pos
  have hle : 1 / (x * x + 1) ≤ 1 := (div_le_one hpos).mpr (le_add_of_nonneg_left (mul_self_nonneg x))
  have hnonneg : 0 ≤ 1 / (x * x + 1) := (one_div_pos.mpr hpos).le
  unfold pixelLoss
  constructor <;> linarith

/-- A pixel is compared with a black one. -/
theorem comparison_pixel (x : ℝ) : (comparison pixelSmoother pixelWindow 1 1 (pixel x) (pixel 0)).loss = pixelLoss x ∧
    (comparison pixelSmoother pixelWindow 1 1 (pixel x) (pixel 0)).firstGradient 1 = .ok (pixel (pixelSlope x)) := by
  have hpos : x * x + 1 ≠ 0 := (add_pos_of_nonneg_of_pos (mul_self_nonneg x) one_pos).ne'
  have hblack : (pixel 0).shape = (pixel x).shape := rfl
  have hsize : (windowAverage pixelWindow.sweep pixelSmoother.table (pixel x)).size = 1 := by
    rw [windowAverage_pixel]
    rfl
  have hi : 0 < (windowAverage pixelWindow.sweep pixelSmoother.table (pixel x)).size := hsize ▸ Nat.one_pos
  have hoptions : pixelSmoother.options = pixelWindow.gaussian .null := rfl
  have haccepts : pixelSmoother.accepts (pixel x).shape = .ok pixelWindow :=
    Smoother.accepts_gaussian hoptions (by decide)
  constructor
  · rw [loss_comparison hblack, hsize, sum_range_one]
    simp only [windowAverage_pixel, products_pixel, flat_pixel]
    unfold similarityAt pixelLoss
    rw [two_real]
    norm_num
  · set p := comparison pixelSmoother pixelWindow 1 1 (pixel x) (pixel 0) with hp
    have hnum : p.factors.lumNum.shape = [1, 1, 1, 1] := by
      show (windowAverage pixelWindow.sweep pixelSmoother.table (pixel x)).shape = _
      rw [windowAverage_pixel]
      rfl
    have hwindow : p.perWindow 1 = -1 := by
      unfold SimilarityPass.perWindow size
      rw [hnum]
      norm_num
    have hshape : p.factors.lumNum.shape =
      correlationShape pixelWindow.sweep (pixel x).shape
        (Smoother.kernelShape pixelWindow ((pixel x).shape.getD 1 0)) :=
        Smoother.shape_smooth sound_pixelNetwork.loss.smoother haccepts
    obtain ⟨hmean, -, hsquare, -⟩ := flat_cotangents (s := pixelSmoother) (g := pixelWindow) 1 1 1 hblack hi
    rw [← hp, hwindow] at hmean hsquare
    have hgradient := gradientIn_eq (p := p) (by rfl) (pixel x) (pixel 0) p.averages.meanA p.averages.meanB 1 haccepts
      hshape
    have hpixel : (pixel x).shape = [1, 1, 1, 1] := rfl
    rw [hpixel, windowSpread_pixel (t := p.inMean _ _ _) hnum, windowSpread_pixel (t := p.inSquare _) hnum,
      windowSpread_pixel (t := p.inCross _) hnum] at hgradient
    refine hgradient.trans (congrArg Except.ok ?_)
    rw [pixel_of_shape (t := ofFlat [1, 1, 1, 1] _) rfl]
    refine congrArg pixel ((flat_ofFlat Nat.one_pos).trans ?_)
    have hmean' : (p.inMean p.averages.meanA p.averages.meanB 1).flat 0 = _ := hmean
    rw [hmean', hsquare]
    simp only [windowAverage_pixel, products_pixel, flat_pixel]
    unfold slopeInMean slopeInSquare pixelSlope
    dsimp only
    rw [two_real]
    field_simp
    ring

/-- The comparator of this network compares pixels. -/
theorem answer_pixelLoss (x : ℝ) : pixelNetwork.loss.answer (pixel x) (pixel 0) =
    .ok (comparison pixelSmoother pixelWindow 1 1 (pixel x) (pixel 0)) := by
  have hoptions : pixelSmoother.options = pixelWindow.gaussian .null := rfl
  have haccepts : pixelSmoother.accepts (pixel x).shape = .ok pixelWindow :=
    Smoother.accepts_gaussian hoptions (by decide)
  have hsize : pixelNetwork.loss.sizeFor (pixel x).shape (pixel 0).shape = .ok (1, 1) := by
    with_unfolding_all rfl
  have hpass : similarityPass pixelSmoother 1 1 (pixel x) (pixel 0) = _ := similarityPass_eq haccepts rfl
  unfold SimilarityLoss.answer
  rw [hsize, ok_bind, ← hpass, ← toScalar_one]
  rfl

namespace Network

noncomputable def blackBatch : Batch ℝ := ⟨.own (pixel 0), .own (pixel 0)⟩

/-- A network of the form of the pixel's, with a bias. -/
structure Biased (n : Network ℝ ℝ) (b : ℝ) : Prop where
  form : n.form = pixelNetwork.form
  bias : n.first.biasValue = some (fill [1] b)

variable {n : Network ℝ ℝ} {b : ℝ}

theorem Biased.mem_snapshot (hn : n.Biased b) : (parameterName 0 "bias", fill [1] b) ∈ n.snapshot := by
  obtain ⟨p, hp, hvalue⟩ := Option.map_eq_some_iff.mp hn.bias
  refine List.mem_map.mpr ⟨(parameterName 0 "bias", p), ?_, by rw [← hvalue]⟩
  refine List.mem_flatMap.mpr ⟨(n.first, 0), List.mem_cons_self, ?_⟩
  refine List.mem_map.mpr ⟨("bias", p), ?_, rfl⟩
  unfold ConvLayer.parameters
  rw [hp]
  exact List.mem_cons_of_mem _ (List.mem_singleton_self _)

theorem pixelNetwork_biased : pixelNetwork.Biased 1 := by
  refine ⟨rfl, ?_⟩
  show some (ofFlat [1] fun _ => (Number.whole 1).toScalar) = some (fill [1] 1)
  rw [toScalar_one]
  rfl

theorem Biased.of_settled {n' : Network ℝ ℝ} (hn : n.Biased b) (h : n'.settled = n.settled) : n'.Biased b := by
  refine ⟨(form_of_settled h).trans hn.form, ?_⟩
  have hbias : n'.first.settled.biasValue = n.first.settled.biasValue := congrArg (fun n => n.first.biasValue) h
  exact hbias.trans hn.bias

theorem Biased.exists_trace (hn : n.Biased b) : ∃ t, n.trace (pixel 0) = .ok t := by
  have := Draws.middling ℝ ℝ
  obtain ⟨entries, channels, options, -, -, -, hbuilt⟩ := lined_of_build build_pixelNetwork
  have hchannels : channels = (1 : ℕ) := (Value.int.inj hbuilt.channels).symm
  have hgroups : ∀ o ∈ LayerOptions.convs options, ∃ g, o.group = .int g := by
    rw [← hbuilt.entries]
    intro o ho
    rw [List.mem_singleton.mp ho]
    exact ⟨1, rfl⟩
  have hx : (pixel 0).shape = [1, 1, 1, 1] := rfl
  obtain ⟨t, -, ht, -⟩ := (trace_cases (hbuilt.congr hn.form) hgroups hchannels hx Nat.one_pos Nat.one_pos).1
    fun l _ => l.hasAngles_real _
  exact ⟨t, ht⟩

/-- The layer of such a network makes its bias of a black pixel, and the bias gets the gradient that the output gets. -/
theorem Biased.stage (hn : n.Biased b) {map : Tensor ℝ} {o : Orientation ℝ ℝ} {stage : Stage ℝ}
    (h : n.first.answer (pixel 0) map = .ok (o, stage)) : stage.output = pixel b ∧
      ∀ x, ∃ g, stage.gradients false (pixel x) = .ok g ∧ g.bias = some (fill [1] x) := by
  have hform : n.first.form = pixelLayer.form := congrArg Network.first hn.form
  have hsound : n.first.Sound := ConvLayer.sound_form.mp (hform ▸ ConvLayer.sound_form.mpr sound_pixelNetwork.first)
  have hsweep : n.first.geometry.sweep = pixelWindow.sweep := congrArg (fun l => l.geometry.sweep) hform
  have hweight : n.first.weight.value.shape = [1, 1, 1, 1] := congrArg (fun l => l.weight.value.shape) hform
  have hx : (pixel 0).shape = [1, 1, 1, 1] := rfl
  obtain ⟨groups, q, arranged, hstage⟩ := ConvLayer.arranged_of_answer hsound h
  dsimp only at hstage
  obtain ⟨N, B, P, H, W, k, ext⟩ := arranged.extents
  obtain ⟨rfl, -, rfl, rfl⟩ : 1 = N ∧ 1 = groups * B ∧ 1 = H ∧ 1 = W := by
    simpa only [List.cons.injEq, and_true] using hx.symm.trans ext.batch
  obtain ⟨hP, -, rfl, -⟩ : 1 = groups * P ∧ 1 = B ∧ 1 = k ∧ 1 = k := by
    simpa only [List.cons.injEq, and_true] using hweight.symm.trans ext.kernel
  have hgrid : n.first.geometry.sweep.grid (1, 1) (1, 1) = (1, 1) := by
    rw [hsweep]
    decide
  have hshape := ext.shape_steered
  rw [← hP, hgrid] at hshape
  refine ⟨?_, fun x => ?_⟩
  · have hflat := at4_steered_of_zero ext (fun i => flat_zeros _ i) (n := 0) (o := 0) (i := 0) (j := 0) Nat.one_pos
      (hP ▸ Nat.one_pos) (by rw [hgrid]; exact Nat.one_pos) (by rw [hgrid]; exact Nat.one_pos)
    rw [at4_eq_flat hshape Nat.one_pos Nat.one_pos Nat.one_pos Nat.one_pos, hn.bias, Option.elim_some,
      flat_fill Nat.one_pos] at hflat
    rw [hstage, hn.bias]
    rw [hn.bias] at hshape
    exact (pixel_of_shape hshape).trans (congrArg pixel hflat)
  · obtain ⟨g, hg, hbias⟩ : ∃ g, stage.gradients false (pixel x) = .ok g ∧ g.bias = some (biasSums (pixel x)) := by
      rw [hstage]
      exact ⟨_, gradients_eq arranged hshape.symm ⟨false, true, true⟩, rfl⟩
    have hsum := flat_biasSums (g := pixel x) rfl Nat.one_pos
    refine ⟨g, hg, hbias.trans (congrArg some (ext_flat rfl fun i hi => ?_))⟩
    obtain rfl : i = 0 := Nat.lt_one_iff.mp hi
    rw [sum_range_one] at hsum
    exact (hsum.trans (sum_singleton _ _)).trans ((flat_pixel x).trans (flat_fill Nat.one_pos x).symm)

/-- A black pixel is answered with the bias, which gets the gradient that the output gets. -/
theorem Biased.answers (hn : n.Biased b) : ∃ t, n.trace (pixel 0) = .ok t ∧ t.output = pixel b ∧
    ∀ x, ∃ g, t.gradients n.slope (pixel x) = .ok g ∧ g.1.bias = some (fill [1] x) := by
  obtain ⟨t, ht⟩ := hn.exists_trace
  obtain ⟨⟨o, hfirst⟩, hnone⟩ := parts_of_trace ht
  obtain ⟨houtput, hgradients⟩ := hn.stage hfirst
  -- There is no further layer.
  have hrest : n.rest = [] := List.map_eq_nil_iff.mp (congrArg Network.rest hn.form)
  rw [hrest] at hnone
  have hstages : t.rest = [] := (Except.ok.inj hnone).symm
  refine ⟨t, ht, ?_, fun x => ?_⟩
  · unfold Trace.output
    rw [hstages]
    exact houtput
  · obtain ⟨own, hown, hbias⟩ := hgradients x
    refine ⟨(own, []), ?_, hbias⟩
    unfold Trace.gradients
    rw [hstages]
    show (t.first.gradients false (pixel x) >>= _) = _
    rw [hown]
    rfl

theorem Biased.compared (hn : n.Biased b) {x : Tensor ℝ} (hx : x = pixel b) :
    n.loss.answer x (pixel 0) = .ok (comparison pixelSmoother pixelWindow 1 1 (pixel b) (pixel 0)) := by
  have hloss : n.form.loss = pixelNetwork.form.loss := congrArg Network.loss hn.form
  have hown : n.loss = pixelNetwork.loss := hloss
  rw [hx, hown, answer_pixelLoss]

/-- A step of plain descent on a black pixel moves the bias against the derivative of the loss. -/
theorem Biased.step (hn : n.Biased b) (rate : ℝ) (j : Journal) : ∃ n' : Network ℝ ℝ,
    ((trainStep (.plain rate) none blackBatch).outcome ⟨n, ()⟩ j).1 = (.ok (pixelLoss b), ⟨n', ()⟩) ∧
      n'.Biased (b - rate * pixelSlope b) := by
  obtain ⟨t, ht, houtput, hgradients⟩ := hn.answers
  obtain ⟨hvalue, hcotangent⟩ := comparison_pixel b
  obtain ⟨g, hg, hbias⟩ := hgradients (pixelSlope b)
  have hanswer : ((none : Option (SimilarityLoss ℝ)).getD n.loss).answer t.output (pixel 0) = _ := hn.compared houtput
  obtain ⟨n', hn', hstep⟩ := outcome_descent (b := blackBatch) rfl rfl ((trace_clear n _).trans ht) hanswer hcotangent
    hg rate j
  have hform := fixes_trainStep (.plain rate) none blackBatch ⟨n, ()⟩ j
  rw [hstep] at hform
  refine ⟨_, hstep.trans (congrArg (fun v => (Except.ok v, _)) hvalue), hform.trans hn.form, ?_⟩
  -- The bias moves against its own gradient.
  have hfirst : n'.first.settled = (n.first.mapParameters Parameter.clear).settled := congrArg Network.first hn'
  have hvalues := congrArg Prod.snd (ConvLayer.values_step hfirst g.1 rate)
  refine hvalues.trans ?_
  obtain ⟨p, hp, hown⟩ := Option.map_eq_some_iff.mp hn.bias
  show (n.first.bias.map _).map Parameter.value = _
  rw [hp]
  show some (ofFlat p.value.shape fun i => n.first.entry .bias i - rate * g.1.entry .bias i) = _
  rw [hown]
  refine congrArg some (ext_flat rfl fun i hi => ?_)
  obtain rfl : i = 0 := Nat.lt_one_iff.mp hi
  unfold ConvLayer.entry Gradients.entry
  dsimp only
  rw [flat_ofFlat Nat.one_pos, hp, hbias, Option.elim_some, Option.elim_some, hown, flat_fill Nat.one_pos,
    flat_fill Nat.one_pos, flat_fill Nat.one_pos]

theorem Biased.steps (hn : n.Biased b) (rate : ℝ) (j : Journal) : ∃ n' : Network ℝ ℝ,
    ((trainAll (.plain rate) [blackBatch]).outcome ⟨n, ()⟩ j).1 = (.ok [pixelLoss b], ⟨n', ()⟩) ∧
      n'.Biased (b - rate * pixelSlope b) := by
  obtain ⟨n', hstep, hn'⟩ := hn.step rate j
  refine ⟨n', ?_, hn'⟩
  unfold trainAll
  rw [Update.outcome_bind_ok (congrArg Prod.fst hstep), hstep]
  rfl

/-- An evaluation on a black pixel. -/
theorem Biased.evaluate (hn : n.Biased b) : ∃ scores : Scores ℝ, scores.loss = pixelLoss b ∧
    ∀ j, ((evaluate [blackBatch]).outcome n j).1.1 = .ok scores := by
  obtain ⟨t, ht, houtput, -⟩ := hn.answers
  have hscore : ∀ j, ((score blackBatch).outcome n j).1.1 = .ok (scoresOf _) := fun j =>
    score_eq_ok_iff.mpr ⟨_, _, t, _, rfl, rfl, ht, hn.compared houtput, rfl⟩
  refine ⟨_, ?_, fun j => Update.gives_andThen (Update.gives_andThen (hscore j) (Update.gives_andThen rfl rfl)) rfl⟩
  have hmean : averageOver 1 [pixelLoss b] = pixelLoss b := by
    unfold averageOver total
    norm_num
  refine Eq.trans ?_ hmean
  exact congrArg (fun x => averageOver 1 [x]) (comparison_pixel b).1

end Network

namespace Fitting

/-- The bias of the pixel's network after a number of steps of plain descent at the rate one. -/
noncomputable def biasAfter : ℕ → ℝ
  | 0 => 1
  | k + 1 => biasAfter k - pixelSlope (biasAfter k)

theorem biasAfter_one : biasAfter 1 = 1 / 2 := by
  simp only [biasAfter, pixelSlope]
  norm_num

/-- Three epochs on a black pixel, for a stopper that waits for one. -/
noncomputable def pixelCourse : Course Unit ℝ ℝ where
  optimizer := .plain 1
  training := [Network.blackBatch]
  validation := [Network.blackBatch]
  epochs := 3
  start := ⟨⟨pixelNetwork, ()⟩, some EarlyStopping.briefStopper, none⟩
  journal := Journal.empty

theorem evaluated_pixelCourse {k : ℕ} {b : ℝ} (h : (pixelCourse.before k).1.network.Biased b) :
    (pixelCourse.trained k).1.1 = .ok [pixelLoss b] ∧ (pixelCourse.evaluated k).Biased (b - pixelSlope b) := by
  obtain ⟨n, hsteps, hn⟩ := h.steps 1 (pixelCourse.before k).2
  have htrained : (pixelCourse.trained k).1 = (.ok [pixelLoss b], ⟨n, ()⟩) := hsteps
  rw [one_mul] at hn
  unfold Course.evaluated
  rw [htrained]
  exact ⟨rfl, hn⟩

theorem given_pixelCourse {k : ℕ} {b : ℝ} (h : (pixelCourse.before k).1.network.Biased b) :
    ∃ entry stop, pixelCourse.given k = .ok (entry, stop) := by
  obtain ⟨hlosses, hevaluated⟩ := evaluated_pixelCourse h
  obtain ⟨scores, -, hscores⟩ := hevaluated.evaluate
  exact Course.exists_given hlosses (hscores _)

theorem before_pixelCourse (k : ℕ) : (pixelCourse.before k).1.network.Biased (biasAfter k) := by
  induction k with
  | zero => exact Network.pixelNetwork_biased
  | succ k ih =>
    obtain ⟨entry, stop, hgiven⟩ := given_pixelCourse ih
    exact (evaluated_pixelCourse ih).2.of_settled (congrArg Trained.network (Course.settled_succ hgiven))

/-- As no loss lies lower than the first one by the least improvement, that run stops after the second epoch. It
saves the parameters that were evaluated in the first epoch, and leaves others. -/
theorem run_stops_and_saves_pixel : ∃ history f j,
    (run pixelCourse.optimizer pixelCourse.training pixelCourse.validation pixelCourse.epochs).outcome
      pixelCourse.start pixelCourse.journal = ((.ok history, f), j) ∧ history.length = 2 ∧
    ∃ t c, f.stopper = some t ∧ t.bestEpoch = .int 0 ∧ t.best = some (1 / 5) ∧
      f.saved = some c ∧ c.epoch = .int 0 ∧ c.loss = some (1 / 5) ∧
      (Network.parameterName 0 "bias", fill [1] (1 / 2)) ∈ c.model ∧
      (Network.parameterName 0 "bias", fill [1] (-7 / 50)) ∈ f.network.snapshot := by
  have hbiased : ∀ k, (pixelCourse.evaluated k).Biased (biasAfter (k + 1)) := fun k =>
    (evaluated_pixelCourse (before_pixelCourse k)).2
  obtain ⟨history, hhistory⟩ := Course.exists_history (k := 0) (fun k _ => given_pixelCourse (before_pixelCourse k))
    (Nat.zero_add pixelCourse.epochs)
  have hs : EarlyStopping.briefStopper.Fresh := ⟨Nat.one_pos, rfl, rfl⟩
  have hleast : 0 ≤ EarlyStopping.briefStopper.leastImprovement := zero_le_one
  obtain ⟨hlength, hleft, hremembered, hstalled, hearlier, k, entry, t, hk, himproving, hstopper, hepoch,
    hbest, hsaved⟩ :=
    pixelCourse.run_stops_and_saves hs rfl rfl (Nat.succ_pos 2) (Prod.ext (Prod.ext hhistory rfl) rfl)
  have hloss : ∀ i entry, history[i]? = some entry → entry.validation.loss = pixelLoss (biasAfter (i + 1)) := by
    intro i entry hi
    obtain ⟨scores, hvalue, hscores⟩ := (hbiased i).evaluate
    have hboth := (hremembered i entry hi).validation.symm.trans (hscores _)
    rw [Except.ok.inj hboth, hvalue]
  have hrange : ∀ x ∈ history.map fun entry => entry.validation.loss, 0 ≤ x ∧ x ≤ 1 := by
    intro x hx
    obtain ⟨entry, hentry, rfl⟩ := List.mem_map.mp hx
    obtain ⟨i, hi⟩ := List.mem_iff_getElem?.mp hentry
    rw [hloss i entry hi]
    exact pixelLoss_mem _
  have hclose : ∀ x ∈ history.map fun entry => entry.validation.loss,
      ∀ y ∈ history.map fun entry => entry.validation.loss, x - EarlyStopping.briefStopper.leastImprovement ≤ y :=
    fun x hx y hy => (sub_nonpos.mpr (hrange x hx).2).trans (hrange y hy).1
  have hpos : 0 < (history.map fun entry => entry.validation.loss).length := by
    rw [List.length_map]
    exact (Nat.zero_le k).trans_lt (List.getElem?_eq_some_iff.mp hk).1
  have htwo : history.length = 2 := by
    have hends : (history.map fun entry => entry.validation.loss).length = min (1 + 1) 3 :=
      length_of_close hleast hclose hpos ((List.length_map _).trans_le hlength)
        (fun hlt => hstalled ((List.length_map _).symm.trans_lt hlt))
        (fun k hk => hearlier k (hk.trans_eq (List.length_map _)))
    rwa [List.length_map] at hends
  obtain rfl : k = 0 := by
    by_contra hne
    exact (lastImproving_of_close hleast hclose hpos).2 k (Nat.pos_of_ne_zero hne) himproving.1
  have hsecond : biasAfter 2 = -7 / 50 := by
    show biasAfter 1 - pixelSlope (biasAfter 1) = _
    rw [biasAfter_one]
    unfold pixelSlope
    norm_num
  have hfifth : entry.validation.loss = 1 / 5 := by
    rw [hloss 0 entry hk, biasAfter_one]
    unfold pixelLoss
    norm_num
  rw [hfifth] at hbest hsaved
  refine ⟨history, _, _, Prod.ext (Prod.ext hhistory rfl) rfl, htwo, t, _, hstopper, hepoch, hbest, hsaved, rfl, rfl,
    biasAfter_one ▸ (hbiased 0).mem_snapshot, ?_⟩
  have hend := (before_pixelCourse 2).mem_snapshot
  rw [htwo] at hleft
  rw [hsecond, ← hleft] at hend
  exact hend

end Fitting

end Pixel
end SteeredConv
