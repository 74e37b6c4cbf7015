/-
# Computations that succeed

A sequence of steps succeeds exactly if each step succeeds in turn. What an action
gives is the result it succeeds with for some journal; what it returns is the result it
succeeds with for every journal, and what it results in may also be a failure.

Key definitions: `Action.Gives`, `Action.Returns`, `Action.Results`, `Action.Steady`.
Key theorems: `bind_eq_ok_iff`, `Action.gives_bind`, `Action.gives_map`,
`Action.outcome_reporting`, `Action.returns_bind`, `Action.results_bind`.
-/
import SteeredConv.OrientedConv.Pass

namespace SteeredConv

variable {ε β γ : Type}

theorem ok_bind (b : β) (f : β → Except ε γ) : (Except.ok b >>= f) = f b := rfl

theorem bind_eq_ok_iff {a : Except ε β} {f : β → Except ε γ} {c : γ} :
    (a >>= f) = .ok c ↔ ∃ b, a = .ok b ∧ f b = .ok c := by
  cases a with
  | error e =>
    constructor
    · intro h
      cases h
    · rintro ⟨b, h, -⟩
      cases h
  | ok b =>
    constructor
    · intro h
      exact ⟨b, rfl, h⟩
    · rintro ⟨b', h, h'⟩
      cases h
      exact h'

theorem map_eq_ok_iff {a : Except ε β} {f : β → γ} {c : γ} : a.map f = .ok c ↔ ∃ b, a = .ok b ∧ f b = c := by
  cases a with
  | error e => exact iff_of_false nofun nofun
  | ok b =>
    show Except.ok (f b) = .ok c ↔ _
    simp only [Except.ok.injEq, exists_eq_left']

theorem fitting_some (b : β) : fitting (some b) = .ok b := rfl

/-- Succeeding with a result for some journal. -/
def Action.Gives (a : Action ε β) (b : β) : Prop := ∃ j, (a.outcome j).1 = .ok b

namespace Action

theorem outcome_bind (a : Action ε β) (f : β → Action ε γ) (j : Journal) :
    (a >>= f).outcome j = match a.outcome j with
      | (.ok b, j') => (f b).outcome j'
      | (.error e, j') => (.error e, j') := by
  simp only [outcome, bind, ExceptT.bind, ExceptT.run, ExceptT.mk, ExceptT.bindCont, StateT.bind,
    StateT.run]
  rcases a j with ⟨e | b, j'⟩ <;> rfl

theorem outcome_liftM (x : Except ε β) (j : Journal) : (liftM x : Action ε β).outcome j = (x, j) := by
  cases x <;> rfl

theorem gives_bind {a : Action ε β} {f : β → Action ε γ} {c : γ} (h : (a >>= f).Gives c) :
    ∃ b, a.Gives b ∧ (f b).Gives c := by
  obtain ⟨j, h⟩ := h
  rw [outcome_bind] at h
  rcases ha : a.outcome j with ⟨e | b, j'⟩
  · rw [ha] at h
    cases h
  · rw [ha] at h
    exact ⟨b, ⟨j, by rw [ha]⟩, ⟨j', h⟩⟩

theorem gives_map {f : β → γ} {a : Action ε β} {c : γ} (h : (f <$> a).Gives c) :
    ∃ b, a.Gives b ∧ f b = c := by
  rw [map_eq_pure_bind] at h
  obtain ⟨b, hb, h⟩ := gives_bind h
  obtain ⟨_, h⟩ := h
  exact ⟨b, hb, Except.ok.inj h⟩

theorem gives_liftM {x : Except ε β} {b : β} (h : (liftM x : Action ε β).Gives b) : x = .ok b := by
  obtain ⟨j, h⟩ := h
  rwa [outcome_liftM] at h

theorem gives_pure {b c : β} (h : (pure b : Action ε β).Gives c) : b = c := by
  obtain ⟨_, h⟩ := h
  exact Except.ok.inj h

theorem not_gives_throw {e : ε} {c : β} : ¬(throw e : Action ε β).Gives c := by
  rintro ⟨_, h⟩
  cases h

/-- Logging a failure does not change the result. -/
theorem outcome_reporting (describe : ε → String) (label : String) (a : Action ε β) (j : Journal) :
    ((reporting describe label a).outcome j).1 = (a.outcome j).1 := by
  unfold reporting
  rw [outcome_bind, outcome_attempt]
  cases h : (a.outcome j).1 <;> rfl

theorem gives_attempt {a : Action ε β} {b : β} (h : (attempt a).Gives (.ok b)) : a.Gives b := by
  obtain ⟨j, h⟩ := h
  rw [outcome_attempt] at h
  exact ⟨j, Except.ok.inj h⟩

theorem gives_reporting {describe : ε → String} {label : String} {a : Action ε β} {b : β}
    (h : (reporting describe label a).Gives b) : a.Gives b := by
  obtain ⟨j, h⟩ := h
  rw [outcome_reporting] at h
  exact ⟨j, h⟩

/-- Having a result, which may be a failure, for every journal. -/
def Results (a : Action ε β) (r : Except ε β) : Prop := ∀ j, (a.outcome j).1 = r

theorem results_liftM (r : Except ε β) : (liftM r : Action ε β).Results r := fun j => by rw [outcome_liftM]

theorem results_reporting {describe : ε → String} {label : String} {a : Action ε β} {r : Except ε β}
    (h : a.Results r) : (reporting describe label a).Results r := fun j => by
  rw [outcome_reporting]
  exact h j

theorem Results.unique {a : Action ε β} {r r' : Except ε β} (h : a.Results r) (h' : a.Results r') : r = r' :=
  (h Journal.empty).symm.trans (h' Journal.empty)

/-- Succeeding with a result for every journal. -/
def Returns (a : Action ε β) (b : β) : Prop := ∀ j, (a.outcome j).1 = .ok b

theorem returns_pure (b : β) : (pure b : Action ε β).Returns b := fun _ => rfl

theorem returns_liftM {x : Except ε β} {b : β} (h : x = .ok b) : (liftM x : Action ε β).Returns b := fun j => by
  rw [outcome_liftM, h]

theorem results_bind_of_returns {a : Action ε β} {f : β → Action ε γ} {b : β} {r : Except ε γ} (ha : a.Returns b)
    (hf : (f b).Results r) : (a >>= f).Results r := fun j => by
  have h := ha j
  rw [outcome_bind]
  rcases hj : a.outcome j with ⟨result, j'⟩
  rw [hj] at h
  obtain rfl : result = .ok b := h
  exact hf j'

theorem results_bind_of_error {a : Action ε β} {f : β → Action ε γ} {e : ε} (ha : a.Results (.error e)) :
    (a >>= f).Results (.error e) := fun j => by
  have h := ha j
  rw [outcome_bind]
  rcases hj : a.outcome j with ⟨result, j'⟩
  rw [hj] at h
  obtain rfl : result = .error e := h
  rfl

theorem results_bind {a : Action ε β} {f : β → Action ε γ} {r : Except ε β} {k : β → Except ε γ} (ha : a.Results r)
    (hf : ∀ b, (f b).Results (k b)) : (a >>= f).Results (r >>= k) := by
  cases r with
  | ok b => exact results_bind_of_returns ha (hf b)
  | error e => exact results_bind_of_error ha

theorem returns_bind {a : Action ε β} {f : β → Action ε γ} {b : β} {c : γ} (ha : a.Returns b)
    (hf : (f b).Returns c) : (a >>= f).Returns c := results_bind_of_returns ha hf

theorem returns_attempt {a : Action ε β} {r : Except ε β} (h : a.Results r) : (attempt a).Returns r := fun j => by
  rw [outcome_attempt, h j]

theorem returns_record (r : Record) : (record r : Action ε Unit).Returns () := fun _ => rfl

theorem returns_warnIf (condition : Bool) (text : String) : (warnIf condition text : Action ε Unit).Returns () := by
  cases condition
  · exact returns_pure ()
  · exact returns_record _

theorem returns_printLine (text : String) : (printLine text : Action ε Unit).Returns () := fun _ => rfl

theorem returns_forIn {f : β → Action ε Unit} (hf : ∀ b, (f b).Returns ()) (bs : List β) :
    (forIn bs PUnit.unit fun b _ => do f b; pure (.yield PUnit.unit) : Action ε PUnit).Returns () := by
  induction bs with
  | nil => exact returns_pure ()
  | cons b rest ih =>
    rw [List.forIn_cons]
    exact returns_bind (returns_bind (hf b) (returns_pure _)) ih

theorem returns_reporting {describe : ε → String} {label : String} {a : Action ε β} {b : β} (h : a.Returns b) :
    (reporting describe label a).Returns b := results_reporting h

/-! ### Actions that do not look at the journal -/

/-- The result is the same for every journal. -/
def Steady (a : Action ε β) : Prop := ∃ r, a.Results r

variable {a : Action ε β}

theorem Returns.steady {b : β} (h : a.Returns b) : a.Steady := ⟨.ok b, h⟩

theorem steady_pure (b : β) : (pure b : Action ε β).Steady := (returns_pure b).steady

theorem steady_liftM (r : Except ε β) : (liftM r : Action ε β).Steady := ⟨r, results_liftM r⟩

theorem Steady.bind {f : β → Action ε γ} (ha : a.Steady) (hf : ∀ b, (f b).Steady) : (a >>= f).Steady := by
  obtain ⟨r, hr⟩ := ha
  cases r with
  | error e => exact ⟨.error e, results_bind_of_error hr⟩
  | ok b =>
    obtain ⟨r', hr'⟩ := hf b
    exact ⟨r', results_bind_of_returns hr hr'⟩

theorem Steady.map (ha : a.Steady) (f : β → γ) : (f <$> a).Steady := by
  rw [map_eq_pure_bind]
  exact ha.bind fun b => steady_pure (f b)

theorem Steady.reporting {describe : ε → String} {label : String} (ha : a.Steady) :
    (Action.reporting describe label a).Steady := by
  obtain ⟨r, hr⟩ := ha
  exact ⟨r, results_reporting hr⟩

theorem Steady.returns_of_gives {b : β} (ha : a.Steady) (h : a.Gives b) : a.Returns b := by
  obtain ⟨r, hr⟩ := ha
  obtain ⟨j, hj⟩ := h
  obtain rfl : r = .ok b := (hr j).symm.trans hj
  exact hr

end Action

end SteeredConv
