/-
# Stoppers over whole runs

Of the losses of a run one is kept: the first one, until a later one is lower by more
than the least improvement. A stopper holds the loss that is kept, its epoch and the
checkpoint of its call, and counts the calls since.

With real losses no loss that was seen is lower than the kept one by more than the least
improvement. A loss that is no number is kept for good if it comes first, and never
else; in the run of `nan_hides_improvement` a real loss is lost that way.

Key definitions: `improvesOn`, `retained`, `Improving`, `LastImproving`, `Stalled`,
`EarlyStopping.Call`, `EarlyStopping.observeAll`, `EarlyStopping.Standing`.
Key theorems: `EarlyStopping.outcome_observeAll`, `EarlyStopping.standing_noted`,
`EarlyStopping.answers_eq_true_iff`, `EarlyStopping.stands_at_last_improvement`,
`EarlyStopping.retained_real`, `EarlyStopping.first_loss_decides`.
-/
import SteeredConv.Proofs.ExactFloat
import SteeredConv.Proofs.Updates
import SteeredConv.Training.EarlyStopping

namespace SteeredConv

/-! ### The loss that is kept -/

section Losses

variable {ω : Type} [Scalar ω] {least : ω} {losses : List ω} {k : ℕ}

/-- Whether a loss improves on the one that is kept; any loss improves on none. -/
def improvesOn (least : ω) (kept : Option ω) (x : ω) : Bool :=
  match kept with
  | none => true
  | some best => x < best - least

/-- The loss that is kept after another one. -/
def keep (least : ω) (kept : Option ω) (x : ω) : Option ω := if improvesOn least kept x then some x else kept

/-- The loss of a run that is kept. -/
def retained (least : ω) (losses : List ω) : Option ω := losses.foldl (keep least) none

/-- The loss at a position of a run improves on the one that is kept of those before. -/
def Improving (least : ω) (losses : List ω) (i : ℕ) : Prop :=
  ∃ x, losses[i]? = some x ∧ improvesOn least (retained least (losses.take i)) x = true

/-- A position at which the loss improves and after which none does. -/
def LastImproving (least : ω) (losses : List ω) (k : ℕ) : Prop :=
  Improving least losses k ∧ ∀ i, k < i → ¬Improving least losses i

/-- As many losses as the patience says, the last ones of a run, failed to improve. -/
def Stalled (patience : ℕ) (least : ω) (losses : List ω) : Prop :=
  patience ≤ losses.length ∧ ∀ i, losses.length - patience ≤ i → ¬Improving least losses i

theorem improvesOn_some {best x : ω} : improvesOn least (some best) x = true ↔ x < best - least :=
  decide_eq_true_iff

theorem keep_of_improves {kept : Option ω} {x : ω} (h : improvesOn least kept x = true) :
    keep least kept x = some x := if_pos h

theorem keep_of_not {kept : Option ω} {x : ω} (h : ¬improvesOn least kept x = true) :
    keep least kept x = kept := if_neg h

theorem retained_append (least : ω) (losses : List ω) (x : ω) :
    retained least (losses ++ [x]) = keep least (retained least losses) x := by
  unfold retained
  rw [List.foldl_append]
  rfl

theorem exists_keep (least : ω) (kept : Option ω) (x : ω) : ∃ best, keep least kept x = some best := by
  cases kept with
  | none => exact ⟨x, rfl⟩
  | some best =>
    by_cases h : improvesOn least (some best) x = true
    · exact ⟨x, keep_of_improves h⟩
    · exact ⟨best, keep_of_not h⟩

theorem exists_retained (least : ω) {x : ω} (h : x ∈ losses) : ∃ best, retained least losses = some best := by
  rcases List.eq_nil_or_concat losses with rfl | ⟨before, y, rfl⟩
  · exact absurd h List.not_mem_nil
  · rw [List.concat_eq_append, retained_append]
    exact exists_keep least _ y

theorem retained_of_improving {i : ℕ} {x : ω} (h : Improving least losses i) (hx : losses[i]? = some x) :
    retained least (losses.take (i + 1)) = some x := by
  obtain ⟨y, hy, himproves⟩ := h
  obtain rfl : y = x := Option.some.inj (hy.symm.trans hx)
  rw [List.take_add_one, hx, Option.toList_some, retained_append, keep_of_improves himproves]

theorem Improving.lt_length {i : ℕ} (h : Improving least losses i) : i < losses.length := by
  obtain ⟨x, hx, -⟩ := h
  exact (List.getElem?_eq_some_iff.mp hx).1

theorem improving_append_of_lt {i : ℕ} (hi : i < losses.length) (x : ω) :
    Improving least (losses ++ [x]) i ↔ Improving least losses i := by
  unfold Improving
  rw [List.getElem?_append_left hi, List.take_append_of_le_length (Nat.le_of_lt hi)]

theorem improving_append_length (x : ω) : Improving least (losses ++ [x]) losses.length ↔
    improvesOn least (retained least losses) x = true := by
  unfold Improving
  rw [List.getElem?_concat_length, List.take_left]
  constructor
  · rintro ⟨_, ⟨⟩, h⟩
    exact h
  · intro h
    exact ⟨x, rfl, h⟩

theorem lastImproving_append_of_improves {x : ω} (h : improvesOn least (retained least losses) x = true) :
    LastImproving least (losses ++ [x]) losses.length := by
  refine ⟨(improving_append_length x).mpr h, fun i hi himproving => ?_⟩
  have hlt := himproving.lt_length
  rw [List.length_append, List.length_singleton] at hlt
  omega

theorem LastImproving.append_of_not (hk : LastImproving least losses k) {x : ω}
    (h : ¬improvesOn least (retained least losses) x = true) : LastImproving least (losses ++ [x]) k := by
  obtain ⟨himproving, hlast⟩ := hk
  refine ⟨(improving_append_of_lt himproving.lt_length x).mpr himproving, fun i hi hlater => ?_⟩
  have hlt := hlater.lt_length
  rw [List.length_append, List.length_singleton] at hlt
  rcases Nat.lt_or_eq_of_le (Nat.le_of_lt_succ hlt) with hi' | rfl
  · exact hlast i hi ((improving_append_of_lt hi' x).mp hlater)
  · exact h ((improving_append_length x).mp hlater)

/-- A run has stalled once the patience has passed since its last improvement. -/
theorem stalled_iff {patience : ℕ} (hk : LastImproving least losses k) :
    Stalled patience least losses ↔ patience ≤ losses.length - 1 - k := by
  have hlt := hk.1.lt_length
  constructor
  · rintro ⟨hle, hfailed⟩
    have hbefore : k < losses.length - patience := by
      by_contra hnot
      exact hfailed k (by omega) hk.1
    omega
  · intro h
    exact ⟨by omega, fun i hi => hk.2 i (by omega)⟩

end Losses

/-! ### Real losses -/

section Reals

variable {least : ℝ} {losses : List ℝ}

/-- The kept loss falls. -/
theorem exists_retained_append (hleast : 0 ≤ least) {before : ℝ} (hbefore : retained least losses = some before)
    (later : List ℝ) : ∃ after, retained least (losses ++ later) = some after ∧ after ≤ before := by
  induction later using List.reverseRecOn with
  | nil =>
    rw [List.append_nil]
    exact ⟨before, hbefore, le_rfl⟩
  | append_singleton later x ih =>
    obtain ⟨kept, hkept, hle⟩ := ih
    rw [← List.append_assoc, retained_append, hkept]
    by_cases h : improvesOn least (some kept) x = true
    · have hlower : x < kept - least := improvesOn_some.mp h
      rw [keep_of_improves h]
      exact ⟨x, rfl, by linarith⟩
    · rw [keep_of_not h]
      exact ⟨kept, rfl, hle⟩

/-- No loss of a run is lower than the kept one by more than the least improvement. -/
theorem retained_sub_le (hleast : 0 ≤ least) {best : ℝ} (hbest : retained least losses = some best) :
    ∀ x ∈ losses, best - least ≤ x := by
  induction losses using List.reverseRecOn generalizing best with
  | nil => simp
  | append_singleton losses x ih =>
    rw [retained_append] at hbest
    intro y hy
    rw [List.mem_append, List.mem_singleton] at hy
    by_cases h : improvesOn least (retained least losses) x = true
    · rw [keep_of_improves h] at hbest
      obtain rfl : x = best := Option.some.inj hbest
      rcases hy with hy | rfl
      · obtain ⟨kept, hkept⟩ := exists_retained least hy
        have hseen : kept - least ≤ y := ih hkept y hy
        rw [hkept, improvesOn_some] at h
        linarith
      · linarith
    · rw [keep_of_not h] at hbest
      rcases hy with hy | rfl
      · exact ih hbest y hy
      · rw [hbest, improvesOn_some] at h
        exact not_lt.mp h

/-- Improving losses fall by more than the least improvement. -/
theorem lt_of_improving (hleast : 0 ≤ least) {i j : ℕ} (hij : i < j) (hi : Improving least losses i)
    (hj : Improving least losses j) {x y : ℝ} (hx : losses[i]? = some x) (hy : losses[j]? = some y) :
    y < x - least := by
  obtain ⟨y', hy', himproves⟩ := hj
  obtain rfl : y' = y := Option.some.inj (hy'.symm.trans hy)
  -- What is kept before the later of the two is at most the earlier one, which was kept once.
  obtain ⟨later, hlater⟩ : losses.take (i + 1) <+: losses.take j := List.take_prefix_take_left (by omega)
  obtain ⟨kept, hkept, hle⟩ := exists_retained_append hleast (retained_of_improving hi hx) later
  rw [hlater] at hkept
  rw [hkept, improvesOn_some] at himproves
  linarith

theorem lastImproving_of_close (hleast : 0 ≤ least) (hlosses : ∀ x ∈ losses, ∀ y ∈ losses, x - least ≤ y)
    (hpos : 0 < losses.length) : LastImproving least losses 0 := by
  have hfirst : Improving least losses 0 := ⟨losses[0], List.getElem?_eq_getElem hpos, rfl⟩
  refine ⟨hfirst, fun i hi h => ?_⟩
  have hlt := h.lt_length
  have hfalls := lt_of_improving hleast hi hfirst h (List.getElem?_eq_getElem hpos) (List.getElem?_eq_getElem hlt)
  exact absurd (hlosses _ (List.getElem_mem hpos) _ (List.getElem_mem hlt)) hfalls.not_ge

/-- A run whose losses lie within the least improvement of each other ends once the patience has passed since the
first one. -/
theorem length_of_close {patience epochs : ℕ} (hleast : 0 ≤ least) (hlosses : ∀ x ∈ losses, ∀ y ∈ losses, x - least ≤ y)
    (hpos : 0 < losses.length) (hle : losses.length ≤ epochs)
    (hstalled : losses.length < epochs → Stalled patience least losses)
    (hearlier : ∀ k < losses.length, ¬Stalled patience least (losses.take k)) :
    losses.length = min (patience + 1) epochs := by
  rcases Nat.lt_trichotomy losses.length (patience + 1) with hlt | heq | hgt
  · rcases hle.lt_or_eq with hless | heq
    · have hwaited := (stalled_iff (lastImproving_of_close hleast hlosses hpos)).mp (hstalled hless)
      omega
    · omega
  · omega
  · have hlength : (losses.take (patience + 1)).length = patience + 1 := by
      rw [List.length_take]
      omega
    have hclose : ∀ x ∈ losses.take (patience + 1), ∀ y ∈ losses.take (patience + 1), x - least ≤ y := fun x hx y hy =>
      hlosses x (List.mem_of_mem_take hx) y (List.mem_of_mem_take hy)
    have hfirst := lastImproving_of_close hleast hclose (by omega)
    refine absurd ((stalled_iff hfirst).mpr ?_) (hearlier _ hgt)
    rw [hlength]
    exact le_rfl

end Reals

/-! ### One call -/

namespace EarlyStopping

variable {ω m : Type} [Scalar ω]

/-- What a stopper is told at once. -/
structure Call (ω m : Type) where
  loss : ω
  epoch : Value
  model : Option m
  withOptimizer : Bool

def Call.checkpoint (c : Call ω m) (params : Option Value) (model : m) : Checkpoint ω m :=
  ⟨c.epoch, some c.loss, model, c.withOptimizer, params⟩

/-- A stopper with some patience that has been told nothing. -/
structure Fresh (s : EarlyStopping ω) : Prop where
  patience : 0 < s.patience
  counter : s.counter = 0
  best : s.best = none

theorem pos_of_patienceOf {v : Value} {n : ℕ} (h : patienceOf v = .ok n) : 0 < n := by
  unfold patienceOf at h
  split at h
  · split_ifs at h with hpos
    obtain rfl := Except.ok.inj h
    omega
  · obtain rfl := Except.ok.inj h
    exact Nat.one_pos
  · cases h

/-- A stopper that is created has been told nothing. -/
theorem fresh_of_create {settings : List (String × Value)} {s : EarlyStopping ω} (h : create settings = .ok s) :
    s.Fresh := by
  unfold create at h
  obtain ⟨-, -, h⟩ := bind_eq_ok_iff.mp h
  obtain ⟨path, -, h⟩ := bind_eq_ok_iff.mp h
  obtain ⟨patience, hpatience, h⟩ := bind_eq_ok_iff.mp h
  obtain ⟨least, -, h⟩ := bind_eq_ok_iff.mp h
  split at h
  · cases h
  · obtain ⟨x, -, h⟩ := bind_eq_ok_iff.mp h
    dsimp only at h
    split_ifs at h
    · obtain rfl := Except.ok.inj h
      exact ⟨pos_of_patienceOf hpatience, rfl, rfl⟩
    · obtain ⟨params, -, h⟩ := bind_eq_ok_iff.mp h
      obtain rfl := Except.ok.inj h
      exact ⟨pos_of_patienceOf hpatience, rfl, rfl⟩
  · cases h

def Call.improves (c : Call ω m) (s : EarlyStopping ω) : Bool := improvesOn s.leastImprovement s.best c.loss

/-- A stopper and the checkpoint saved last, after a call. -/
def noted (t : EarlyStopping ω × Option (Checkpoint ω m)) (c : Call ω m) :
    EarlyStopping ω × Option (Checkpoint ω m) :=
  (t.1.record (c.improves t.1) (some c.loss) c.epoch,
    if c.improves t.1 ∧ t.1.savesModel then (c.model.map (c.checkpoint t.1.params)).or t.2 else t.2)

def answer (t : EarlyStopping ω × Option (Checkpoint ω m)) (c : Call ω m) : Bool :=
  !c.improves t.1 && (noted t c).1.waited

theorem noted_of_improves {t : EarlyStopping ω × Option (Checkpoint ω m)} {c : Call ω m}
    (h : c.improves t.1 = true) : noted t c =
      ({ t.1 with best := some c.loss, bestEpoch := c.epoch, counter := 0 },
        if t.1.savesModel then (c.model.map (c.checkpoint t.1.params)).or t.2 else t.2) := by
  unfold noted
  rw [h, record_of_improved]
  simp

theorem noted_of_not {t : EarlyStopping ω × Option (Checkpoint ω m)} {c : Call ω m}
    (h : c.improves t.1 = false) : noted t c = ({ t.1 with counter := t.1.counter + 1 }, t.2) := by
  unfold noted
  rw [h, record_of_not_improved]
  simp

theorem patience_noted (t : EarlyStopping ω × Option (Checkpoint ω m)) (c : Call ω m) :
    (noted t c).1.patience = t.1.patience := by
  cases h : c.improves t.1 with
  | true => rw [noted_of_improves h]
  | false => rw [noted_of_not h]

theorem outcome_save {s : EarlyStopping ω} {x : ω} (hbest : s.best = some x) (epoch : Value) (model : m)
    (withOptimizer : Bool) (t : EarlyStopping ω × Option (Checkpoint ω m)) (j : Journal) :
    ((s.save epoch model withOptimizer).outcome t j).1 =
      (.ok (), (t.1, some ⟨epoch, some x, model, withOptimizer, s.params⟩)) := by
  unfold save
  rw [hbest]
  rfl

/-- A call is noted and answered, whatever the loss. -/
theorem outcome_observe (c : Call ω m) (t : EarlyStopping ω × Option (Checkpoint ω m)) (j : Journal) :
    ((observe (some c.loss) c.model c.epoch c.withOptimizer).outcome t j).1 = (.ok (answer t c), noted t c) := by
  obtain ⟨s, saved⟩ := t
  have himproves : s.improves (some c.loss) = .ok (c.improves s) := by
    unfold improves Call.improves improvesOn
    cases s.best <;> rfl
  unfold observe answer noted
  simp only [Update.outcome_bind, Update.outcome_get, Update.outcome_liftM, himproves, Update.outcome_modify]
  cases c.improves s with
  | true =>
    rw [if_pos rfl]
    have hsaves : (s.record true (some c.loss) c.epoch).savesModel = s.savesModel := rfl
    cases c.model with
    | none => simp
    | some model =>
      dsimp only
      rw [hsaves]
      cases s.savesModel with
      | false => rfl
      | true =>
        rw [if_pos rfl, Update.outcome_bind]
        have hsave := outcome_save (s := s.record true (some c.loss) c.epoch) rfl c.epoch model c.withOptimizer
          (s.record true (some c.loss) c.epoch, saved) j
        rcases h : (save (s.record true (some c.loss) c.epoch) c.epoch model c.withOptimizer).outcome
          (s.record true (some c.loss) c.epoch, saved) j with ⟨r, j'⟩
        rw [h] at hsave
        subst hsave
        rfl
  | false =>
    rw [if_neg Bool.false_ne_true, Update.outcome_bind, Update.outcome_act]
    cases hwaited : (s.record false (some c.loss) c.epoch).waited <;> rfl

/-- A stopper that has some patience does not say to stop when a loss improves. -/
theorem answer_eq_waited {t : EarlyStopping ω × Option (Checkpoint ω m)} (hpatience : 0 < t.1.patience)
    (c : Call ω m) : answer t c = (noted t c).1.waited := by
  unfold answer
  cases h : c.improves t.1 with
  | false => rfl
  | true =>
    have hwaited : (noted t c).1.waited = decide (t.1.patience ≤ 0) := by
      rw [noted_of_improves h]
      rfl
    rw [hwaited, decide_eq_false (by omega)]
    rfl

/-! ### Whole runs -/

/-- Takes note of several calls in turn; gives what is answered to each. -/
def observeAll : List (Call ω m) → Update (EarlyStopping ω × Option (Checkpoint ω m)) Fault (List Bool)
  | [] => return []
  | c :: rest => do
    let stop ← observe (some c.loss) c.model c.epoch c.withOptimizer
    let later ← observeAll rest
    return stop :: later

/-- The answers to several calls in turn. -/
def answers (t : EarlyStopping ω × Option (Checkpoint ω m)) : List (Call ω m) → List Bool
  | [] => []
  | c :: rest => answer t c :: answers (noted t c) rest

theorem outcome_observeAll (calls : List (Call ω m)) (t : EarlyStopping ω × Option (Checkpoint ω m))
    (j : Journal) : ((observeAll calls).outcome t j).1 = (.ok (answers t calls), calls.foldl noted t) := by
  induction calls generalizing t j with
  | nil => rfl
  | cons c rest ih =>
    have hfirst := outcome_observe c t j
    unfold observeAll answers
    rw [Update.outcome_bind]
    rcases h : (observe (some c.loss) c.model c.epoch c.withOptimizer).outcome t j with ⟨r, j'⟩
    rw [h] at hfirst
    subst hfirst
    have hrest := ih (noted t c) j'
    dsimp only
    rw [Update.outcome_bind]
    rcases h' : (observeAll rest).outcome (noted t c) j' with ⟨r', j''⟩
    rw [h'] at hrest
    subst hrest
    rfl

theorem length_answers (t : EarlyStopping ω × Option (Checkpoint ω m)) (calls : List (Call ω m)) :
    (answers t calls).length = calls.length := by
  induction calls generalizing t with
  | nil => rfl
  | cons c rest ih =>
    unfold answers
    rw [List.length_cons, List.length_cons, ih]

theorem getElem?_answers (t : EarlyStopping ω × Option (Checkpoint ω m)) (calls : List (Call ω m)) (i : ℕ) :
    (answers t calls)[i]? = calls[i]?.map (answer ((calls.take i).foldl noted t)) := by
  induction calls generalizing t i with
  | nil => rfl
  | cons c rest ih =>
    unfold answers
    cases i with
    | zero => rfl
    | succ i => rw [List.getElem?_cons_succ, List.getElem?_cons_succ, List.take_succ_cons, List.foldl_cons, ih]

/-- Where a stopper stands after several calls: at the last one that improved, whose loss, epoch and
checkpoint it keeps, counting the calls since. -/
structure Standing (s : EarlyStopping ω) (calls : List (Call ω m))
    (t : EarlyStopping ω × Option (Checkpoint ω m)) (k : ℕ) (c : Call ω m) : Prop where
  call : calls[k]? = some c
  last : LastImproving s.leastImprovement (calls.map Call.loss) k
  kept : retained s.leastImprovement (calls.map Call.loss) = some c.loss
  stopper : t.1 = { s with counter := calls.length - 1 - k, best := some c.loss, bestEpoch := c.epoch }
  saved : s.savesModel = true → ∀ model ∈ c.model, t.2 = some (c.checkpoint s.params model)

variable {s : EarlyStopping ω} {calls : List (Call ω m)} {t : EarlyStopping ω × Option (Checkpoint ω m)} {k : ℕ}
  {b c : Call ω m}

/-- What a call that improves leaves. -/
theorem standing_of_improves (hkept : t.1.best = retained s.leastImprovement (calls.map Call.loss))
    (hsettings : ∃ counter best bestEpoch, t.1 = { s with counter, best, bestEpoch })
    (h : c.improves t.1 = true) : Standing s (calls ++ [c]) (noted t c) calls.length c := by
  obtain ⟨counter, best, bestEpoch, hstopper⟩ := hsettings
  have himproves : improvesOn s.leastImprovement (retained s.leastImprovement (calls.map Call.loss)) c.loss = true := by
    rw [← hkept, hstopper]
    unfold Call.improves at h
    rwa [hstopper] at h
  have hlength : (calls.map Call.loss).length = calls.length := List.length_map _
  rw [noted_of_improves h]
  refine ⟨List.getElem?_concat_length, ?_, ?_, ?_, fun hsaves model hmodel => ?_⟩
  · rw [List.map_append, ← hlength]
    exact lastImproving_append_of_improves himproves
  · rw [List.map_append, List.map_singleton, retained_append, keep_of_improves himproves]
  · rw [hstopper]
    simp
  · have hsaves' : t.1.savesModel = true := by rw [hstopper, hsaves]
    have hparams : t.1.params = s.params := by rw [hstopper]
    rw [if_pos hsaves', Option.mem_def.mp hmodel, hparams]
    rfl

theorem standing_first (hs : s.Fresh) (saved : Option (Checkpoint ω m)) (c : Call ω m) :
    Standing s [c] (noted (s, saved) c) 0 c := by
  have hkept : s.best = retained s.leastImprovement (([] : List (Call ω m)).map Call.loss) := hs.best
  have himproves : c.improves s = true := by
    unfold Call.improves
    rw [hs.best]
    rfl
  have h := standing_of_improves (t := (s, saved)) hkept ⟨_, _, _, rfl⟩ himproves
  exact h

/-- One more call is the one to stand at, or one more to count. -/
theorem Standing.next (h : Standing s calls t k b) (c : Call ω m) :
    ∃ k' b', Standing s (calls ++ [c]) (noted t c) k' b' := by
  have hbest : t.1.best = some b.loss := by rw [h.stopper]
  cases hc : c.improves t.1 with
  | true => exact ⟨_, _, standing_of_improves (hbest.trans h.kept.symm) ⟨_, _, _, h.stopper⟩ hc⟩
  | false =>
    have hnot : ¬improvesOn s.leastImprovement (retained s.leastImprovement (calls.map Call.loss)) c.loss = true := by
      unfold Call.improves at hc
      rw [h.stopper] at hc
      rw [h.kept, hc]
      exact Bool.false_ne_true
    have hlt : k < calls.length := (List.getElem?_eq_some_iff.mp h.call).1
    rw [noted_of_not hc]
    refine ⟨k, b, ?_, ?_, ?_, ?_, h.saved⟩
    · rw [List.getElem?_append_left hlt, h.call]
    · rw [List.map_append]
      exact h.last.append_of_not hnot
    · rw [List.map_append, List.map_singleton, retained_append, keep_of_not hnot, h.kept]
    · have hcounter : calls.length - 1 - k + 1 = (calls ++ [c]).length - 1 - k := by
        rw [List.length_append, List.length_singleton]
        omega
      rw [h.stopper, ← hcounter]

/-- After any calls a stopper that was fresh stands at one of them. -/
theorem standing_noted (hs : s.Fresh) (saved : Option (Checkpoint ω m)) (hcalls : calls ≠ []) :
    ∃ k c, Standing s calls (calls.foldl noted (s, saved)) k c := by
  induction calls using List.reverseRecOn with
  | nil => exact absurd rfl hcalls
  | append_singleton calls c ih =>
    rw [List.foldl_append]
    rcases List.eq_nil_or_concat calls with rfl | ⟨before, b, rfl⟩
    · exact ⟨0, c, standing_first hs saved c⟩
    · obtain ⟨k, b', h⟩ := ih (by simp)
      exact h.next c

theorem Standing.answer_eq_true_iff {before : EarlyStopping ω × Option (Checkpoint ω m)}
    (h : Standing s (calls ++ [c]) (noted before c) k b) (hs : s.Fresh) :
    answer before c = true ↔ s.patience ≤ calls.length - k := by
  have hpatience : before.1.patience = s.patience := by
    rw [← patience_noted before c, h.stopper]
  have hwaited : (noted before c).1.waited = decide (s.patience ≤ calls.length - k) := by
    rw [h.stopper]
    unfold waited
    rw [List.length_append, List.length_singleton, Nat.add_sub_cancel]
  rw [answer_eq_waited (hpatience ▸ hs.patience), hwaited, decide_eq_true_iff]

/-- A stopper that was fresh says to stop at a call exactly if the losses up to that call have stalled. -/
theorem answers_eq_true_iff (hs : s.Fresh) (saved : Option (Checkpoint ω m)) {i : ℕ} (hi : i < calls.length) :
    (answers (s, saved) calls)[i]? = some true ↔
      Stalled s.patience s.leastImprovement ((calls.map Call.loss).take (i + 1)) := by
  have htake : calls.take i ++ [calls[i]] = calls.take (i + 1) := List.take_append_getElem hi
  have hne : calls.take i ++ [calls[i]] ≠ [] := List.append_ne_nil_of_right_ne_nil _ (List.cons_ne_nil _ _)
  obtain ⟨k, b, h⟩ := standing_noted hs saved hne
  have hlast := h.last
  rw [List.foldl_append] at h
  rw [getElem?_answers, List.getElem?_eq_getElem hi, Option.map_some, Option.some_inj, h.answer_eq_true_iff hs,
    ← List.map_take, ← htake, stalled_iff hlast, List.length_map, List.length_append, List.length_singleton,
    Nat.add_sub_cancel]

/-! ### Runs of real losses -/

/-- A stopper that is told real losses stands at the last one that improved: it keeps its loss, epoch and
checkpoint and has counted the calls since. No loss that was seen is lower by more than the least
improvement, losses that improve fall by more than that, and the last call is told to stop exactly if the
patience has passed since. -/
theorem stands_at_last_improvement {s : EarlyStopping ℝ} (hs : s.Fresh) (hleast : 0 ≤ s.leastImprovement)
    {calls : List (Call ℝ m)} (hcalls : calls ≠ []) (saved : Option (Checkpoint ℝ m)) (j : Journal) :
    ∃ answers t saved', ((observeAll calls).outcome (s, saved) j).1 = (.ok answers, (t, saved')) ∧
      answers.length = calls.length ∧
      ∃ k c, calls[k]? = some c ∧ LastImproving s.leastImprovement (calls.map Call.loss) k ∧
        t.best = some c.loss ∧ t.bestEpoch = c.epoch ∧ t.counter = calls.length - 1 - k ∧
        (∀ b ∈ calls, c.loss - s.leastImprovement ≤ b.loss) ∧
        (∀ i i' b b', i < i' → Improving s.leastImprovement (calls.map Call.loss) i →
          Improving s.leastImprovement (calls.map Call.loss) i' → calls[i]? = some b → calls[i']? = some b' →
          b'.loss < b.loss - s.leastImprovement) ∧
        (answers.getLast? = some true ↔ s.patience ≤ calls.length - 1 - k) ∧
        (s.savesModel = true → (∀ b ∈ calls, b.model.isSome) →
          ∃ model, c.model = some model ∧ saved' = some (c.checkpoint s.params model)) := by
  obtain ⟨k, c, h⟩ := standing_noted hs saved hcalls
  refine ⟨_, _, _, outcome_observeAll calls (s, saved) j, length_answers _ calls, k, c, h.call, h.last,
    congrArg EarlyStopping.best h.stopper, congrArg EarlyStopping.bestEpoch h.stopper,
    congrArg EarlyStopping.counter h.stopper, fun b hb => ?_, fun i i' b b' hlt hi hi' hb hb' => ?_, ?_,
    fun hsaves hmodels => ?_⟩
  · exact retained_sub_le hleast h.kept b.loss (List.mem_map_of_mem hb)
  · refine lt_of_improving hleast hlt hi hi' ?_ ?_
    · rw [List.getElem?_map, hb, Option.map_some]
    · rw [List.getElem?_map, hb', Option.map_some]
  · have hlt : calls.length - 1 < calls.length := Nat.sub_one_lt_of_lt (List.length_pos_of_ne_nil hcalls)
    rw [List.getLast?_eq_getElem?, length_answers, answers_eq_true_iff hs saved hlt,
      Nat.sub_add_cancel (Nat.one_le_of_lt hlt), List.take_of_length_le (List.length_map _).le, stalled_iff h.last,
      List.length_map]
  · have hmodel := hmodels c (List.mem_of_getElem? h.call)
    obtain ⟨model, hmodel⟩ := Option.isSome_iff_exists.mp hmodel
    exact ⟨model, hmodel, h.saved hsaves model hmodel⟩

/-- A stopper with a patience of one call and a least improvement of one. -/
noncomputable def briefStopper : EarlyStopping ℝ where
  patience := 1
  givenPatience := .int 1
  leastImprovement := 1
  savesModel := true
  params := none

/-- Three epochs with given losses. -/
def briefCalls (x y z : ℝ) : List (Call ℝ String) :=
  [⟨x, .int 0, some "a", false⟩, ⟨y, .int 1, some "b", false⟩, ⟨z, .int 2, some "c", false⟩]

/-- Told three, one and one half, that stopper stands at the second one and says to stop at the third. -/
theorem stands_at_last_improvement_brief : ∃ answers t saved,
    ((observeAll (briefCalls 3 1 (1 / 2))).outcome (briefStopper, none) Journal.empty).1 =
        (.ok answers, (t, saved)) ∧
      t.best = some 1 ∧ t.bestEpoch = .int 1 ∧ t.counter = 1 ∧ answers.getLast? = some true ∧
      saved = some ⟨.int 1, some 1, "b", false, none⟩ := by
  have hs : briefStopper.Fresh := ⟨Nat.one_pos, rfl, rfl⟩
  have hleast : 0 ≤ briefStopper.leastImprovement := zero_le_one
  have hne : briefCalls 3 1 (1 / 2) ≠ [] := List.cons_ne_nil _ _
  obtain ⟨answers, t, saved, houtcome, -, k, c, hc, hlast, hbest, hepoch, hcounter, hlow, hfall, hstop, hsaved⟩ :=
    stands_at_last_improvement hs hleast hne none Journal.empty
  have hfirst : Improving briefStopper.leastImprovement ((briefCalls 3 1 (1 / 2)).map Call.loss) 0 := ⟨3, rfl, rfl⟩
  obtain rfl | rfl | rfl | hk : k = 0 ∨ k = 1 ∨ k = 2 ∨ 3 ≤ k := by omega
  · obtain rfl := Option.some.inj hc
    have h : (3 : ℝ) - 1 ≤ 1 := hlow ⟨1, .int 1, some "b", false⟩ (by simp [briefCalls])
    norm_num at h
  · obtain rfl := Option.some.inj hc
    obtain ⟨model, hmodel, hsaved⟩ := hsaved rfl (by simp [briefCalls])
    obtain rfl := Option.some.inj hmodel
    exact ⟨answers, t, saved, houtcome, hbest, hepoch, hcounter, hstop.mpr le_rfl, hsaved⟩
  · have hsecond : Improving briefStopper.leastImprovement ((briefCalls 3 1 (1 / 2)).map Call.loss) 1 := by
      refine ⟨1, rfl, improvesOn_some.mpr ?_⟩
      show (1 : ℝ) < 3 - 1
      norm_num
    have h : (1 / 2 : ℝ) < 1 - 1 := hfall 1 2 _ _ (Nat.lt_succ_self 1) hsecond hlast.1 rfl rfl
    norm_num at h
  · have hlt : k < 3 := (List.getElem?_eq_some_iff.mp hc).1
    omega

/-! ### Runs with losses that are no numbers -/

theorem improvesOn_nan_right (least best : ExactFloat) : improvesOn least (some best) .nan = false := by
  refine decide_eq_false ?_
  rintro ⟨x, y, hx, -, -⟩
  cases hx

theorem improvesOn_nan_left (least x : ExactFloat) : improvesOn least (some .nan) x = false := by
  refine decide_eq_false ?_
  rintro ⟨y, z, -, hz, -⟩
  have hnan : ExactFloat.nan - least = .nan := ExactFloat.map₂_nan_left _ least
  rw [hnan] at hz
  cases hz

theorem improvesOn_real (least best x : ℝ) :
    improvesOn (ExactFloat.real least) (some (.real best)) (.real x) = true ↔ x < best - least := by
  rw [improvesOn_some]
  constructor
  · rintro ⟨y, z, hy, hz, h⟩
    cases hy
    cases hz
    exact h
  · intro h
    exact ⟨x, best - least, rfl, rfl, h⟩

theorem retained_nan (least : ExactFloat) (later : List ExactFloat) :
    retained least (.nan :: later) = some .nan := by
  induction later using List.reverseRecOn with
  | nil => rfl
  | append_singleton later x ih =>
    rw [← List.cons_append, retained_append, ih, keep_of_not]
    rw [improvesOn_nan_left]
    exact Bool.false_ne_true

theorem eq_zero_of_improving_nan {least : ExactFloat} {later : List ExactFloat} {i : ℕ}
    (h : Improving least (.nan :: later) i) : i = 0 := by
  obtain ⟨x, -, himproves⟩ := h
  cases i with
  | zero => rfl
  | succ i =>
    rw [List.take_succ_cons, retained_nan, improvesOn_nan_left] at himproves
    cases himproves

theorem keep_real (least : ℝ) (kept : Option ℝ) (x : ℝ) :
    keep (ExactFloat.real least) (kept.map .real) (.real x) = (keep least kept x).map .real := by
  cases kept with
  | none => rfl
  | some best =>
    by_cases h : x < best - least
    · rw [keep_of_improves (improvesOn_some.mpr h), Option.map_some, keep_of_improves ((improvesOn_real _ _ _).mpr h)]
      rfl
    · rw [keep_of_not (mt improvesOn_some.mp h), Option.map_some, keep_of_not (mt (improvesOn_real _ _ _).mp h)]

/-- The losses of a run that are real numbers. -/
def realLosses (losses : List ExactFloat) : List ℝ :=
  losses.filterMap fun
    | .real x => some x
    | .nan => none

theorem mem_realLosses {losses : List ExactFloat} {x : ℝ} (h : .real x ∈ losses) : x ∈ realLosses losses :=
  List.mem_filterMap.mpr ⟨.real x, h, rfl⟩

/-- After a first loss that is a real number, those that are none do not matter. -/
theorem retained_real (least x : ℝ) (later : List ExactFloat) :
    retained (ExactFloat.real least) (.real x :: later) =
      (retained least (realLosses (.real x :: later))).map .real := by
  induction later using List.reverseRecOn with
  | nil => rfl
  | append_singleton later z ih =>
    rw [← List.cons_append, retained_append, ih]
    cases z with
    | nan =>
      obtain ⟨best, hbest⟩ := exists_retained least (mem_realLosses (List.mem_cons_self (a := .real x) (l := later)))
      have hsame : realLosses ((.real x :: later) ++ [.nan]) = realLosses (.real x :: later) := by
        simp [realLosses]
      rw [hsame, hbest, Option.map_some, keep_of_not]
      rw [improvesOn_nan_right]
      exact Bool.false_ne_true
    | real z =>
      have happend : realLosses ((.real x :: later) ++ [.real z]) = realLosses (.real x :: later) ++ [z] := by
        simp [realLosses]
      rw [happend, retained_append, keep_real]

/-- The first loss decides whether losses that are no numbers matter. If it is a real number, the stopper
keeps a real loss that was seen, its epoch and its checkpoint, and no real loss that was seen is lower by
more than the least improvement. If it is no number, the stopper keeps the first call, whatever follows. -/
theorem first_loss_decides {s : EarlyStopping ExactFloat} (hs : s.Fresh) {least : ℝ} (hleast : 0 ≤ least)
    (hs' : s.leastImprovement = .real least) (first : Call ExactFloat m) (rest : List (Call ExactFloat m))
    (saved : Option (Checkpoint ExactFloat m)) (j : Journal) :
    ∃ answers t saved', ((observeAll (first :: rest)).outcome (s, saved) j).1 = (.ok answers, (t, saved')) ∧
      ∃ c ∈ first :: rest, t.best = some c.loss ∧ t.bestEpoch = c.epoch ∧
        (s.savesModel = true → (∀ b ∈ first :: rest, b.model.isSome) →
          ∃ model, c.model = some model ∧ saved' = some (c.checkpoint s.params model)) ∧
        (∀ x, first.loss = .real x → ∃ best, c.loss = .real best ∧
          ∀ b ∈ first :: rest, ∀ y, b.loss = .real y → best - least ≤ y) ∧
        (first.loss = .nan → c = first ∧ t.counter = rest.length) := by
  obtain ⟨k, c, h⟩ := standing_noted hs saved (List.cons_ne_nil first rest)
  have hc : c ∈ first :: rest := List.mem_of_getElem? h.call
  have hkept := h.kept
  rw [List.map_cons, hs'] at hkept
  refine ⟨_, _, _, outcome_observeAll (first :: rest) (s, saved) j, c, hc,
    congrArg EarlyStopping.best h.stopper, congrArg EarlyStopping.bestEpoch h.stopper, fun hsaves hmodels => ?_,
    fun x hx => ?_, fun hnan => ?_⟩
  · obtain ⟨model, hmodel⟩ := Option.isSome_iff_exists.mp (hmodels c hc)
    exact ⟨model, hmodel, h.saved hsaves model hmodel⟩
  · rw [hx, retained_real, Option.map_eq_some_iff] at hkept
    obtain ⟨best, hbest, hloss⟩ := hkept
    refine ⟨best, hloss.symm, fun b hb y hy => retained_sub_le hleast hbest y (mem_realLosses ?_)⟩
    have hmem : b.loss ∈ (first :: rest).map Call.loss := List.mem_map_of_mem hb
    rwa [List.map_cons, hx, hy] at hmem
  · have himproving := h.last.1
    rw [List.map_cons, hnan] at himproving
    obtain rfl : k = 0 := eq_zero_of_improving_nan himproving
    exact ⟨(Option.some.inj h.call).symm, congrArg EarlyStopping.counter h.stopper⟩

/-- A stopper with a patience of two calls for which any lower loss is an improvement. -/
noncomputable def patientStopper : EarlyStopping ExactFloat where
  patience := 2
  givenPatience := .int 2
  leastImprovement := .real 0
  savesModel := true
  params := none

theorem fresh_patientStopper : patientStopper.Fresh := ⟨Nat.two_pos, rfl, rfl⟩

/-- Told one, no number and one half, that stopper keeps one half. -/
theorem first_loss_decides_patient : ∃ answers t saved, ((observeAll
    [⟨.real 1, .int 0, some "a", true⟩, ⟨.nan, .int 1, some "b", true⟩,
      ⟨.real (1 / 2), .int 2, some "c", true⟩]).outcome
      (patientStopper, none) Journal.empty).1 = (.ok answers, (t, saved)) ∧
    t.best = some (.real (1 / 2)) ∧ t.bestEpoch = .int 2 ∧
    saved = some ⟨.int 2, some (.real (1 / 2)), "c", true, none⟩ := by
  obtain ⟨answers, t, saved, houtcome, c, hc, hbest, hepoch, hsaved, hreal, -⟩ :=
    first_loss_decides fresh_patientStopper le_rfl rfl ⟨.real 1, .int 0, some "a", true⟩
      [⟨.nan, .int 1, some "b", true⟩, ⟨.real (1 / 2), .int 2, some "c", true⟩] none Journal.empty
  obtain ⟨best, hloss, hlow⟩ := hreal 1 rfl
  obtain ⟨model, hmodel, hsaved⟩ := hsaved rfl (by simp)
  have hhalf : best - 0 ≤ 1 / 2 := hlow ⟨.real (1 / 2), .int 2, some "c", true⟩ (by simp) _ rfl
  simp only [List.mem_cons, List.not_mem_nil, or_false] at hc
  rcases hc with rfl | rfl | rfl
  · obtain rfl : 1 = best := ExactFloat.real.inj hloss
    norm_num at hhalf
  · cases hloss
  · obtain rfl := Option.some.inj hmodel
    exact ⟨answers, t, saved, houtcome, hbest, hepoch, hsaved⟩

/-- Told no number and then one half, it keeps what is no number, and the checkpoint of that call stays. -/
theorem nan_hides_improvement : ∃ t, ((observeAll
    [⟨.nan, .int 0, some "a", true⟩, ⟨.real (1 / 2), .int 1, some "b", true⟩]).outcome
      (patientStopper, none) Journal.empty).1 =
        (.ok [false, false], (t, some ⟨.int 0, some .nan, "a", true, none⟩)) ∧
    ¬∃ best, t.best = some (.real best) := by
  set kept : EarlyStopping ExactFloat := { patientStopper with best := some .nan, bestEpoch := .int 0 }
  set saved : Checkpoint ExactFloat String := ⟨.int 0, some .nan, "a", true, none⟩
  have hfirst : noted (patientStopper, none) ⟨.nan, .int 0, some "a", true⟩ = (kept, some saved) :=
    noted_of_improves rfl
  have hnot : Call.improves ⟨.real (1 / 2), .int 1, some "b", true⟩ kept = false := improvesOn_nan_left _ _
  have hsecond := noted_of_not (t := (kept, some saved)) hnot
  refine ⟨{ kept with counter := 1 }, ?_, ?_⟩
  · rw [outcome_observeAll, List.foldl_cons, List.foldl_cons, List.foldl_nil, hfirst, hsecond]
    unfold answers answers answers answer
    rw [hfirst, hsecond, hnot]
    rfl
  · rintro ⟨best, hbest⟩
    cases hbest

end EarlyStopping
end SteeredConv
