/-
# Changing a state step by step

An `Update` reads and changes a state, writes to the journal and may fail. What it
changed and wrote before it failed stays.

Key definitions: `Update`, `Update.outcome`, `Update.attempt`, `Update.start`,
`Update.within`, `Update.along`.
Key statements: `Update.outcome_bind`, `Update.outcome_act`, `Update.outcome_attempt`.
-/
import SteeredConv.Journal

namespace SteeredConv

/-- A computation that changes a state, writes a journal and may fail. -/
abbrev Update (σ ε : Type) := ExceptT ε (StateT σ (StateM Journal))

namespace Update

variable {σ τ ε ε' β γ : Type}

/-- The result, state and journal of an update that begins with a given state and journal. -/
def outcome (u : Update σ ε β) (s : σ) (j : Journal) : (Except ε β × σ) × Journal :=
  (u.run.run s).run j

/-- An action, which leaves the state alone. -/
def act (a : Action ε β) : Update σ ε β := ExceptT.mk fun s => do
  let result ← a.run
  return (result, s)

/-- Runs an update without letting its failure pass. -/
def attempt (u : Update σ ε β) : Update σ ε (Except ε β) := ExceptT.mk do
  let result ← u.run
  return .ok result

/-- Starts an update in a state; gives its result and the state that it leaves. -/
def start (u : Update σ ε β) (s : σ) : Action ε' (Except ε β × σ) := ExceptT.mk do
  let left ← u.run.run s
  return .ok left

/-- An update of a part of the state. -/
def within (part : τ → σ) (replace : τ → σ → τ) (u : Update σ ε β) : Update τ ε β :=
  ExceptT.mk fun t => do
    let (result, s) ← u.run.run (part t)
    return (result, replace t s)

/-- An update of every member of a list in turn, each given the result of the one before it. A
failure leaves the members after it as they were. -/
def along (f : β → Update σ ε β) (b : β) : Update (List σ) ε (List β) := ExceptT.mk (go b)
where
  /-- The results and the members that they leave. -/
  go : β → List σ → StateM Journal (Except ε (List β) × List σ)
    | _, [] => return (.ok [], [])
    | b, s :: rest => do
      match ← (f b).run.run s with
      | (.error e, s) => return (.error e, s :: rest)
      | (.ok c, s) =>
        let (results, rest) ← go c rest
        return (results.map (c :: ·), s :: rest)

/-- A failure is logged under a label and passed on. -/
def reporting (describe : ε → String) (label : String) (u : Update σ ε β) : Update σ ε β := do
  match ← attempt u with
  | .ok b => return b
  | .error e =>
    act (Action.complain ("Exception in '" ++ label ++ "': " ++ describe e))
    throw e

@[simp] theorem outcome_pure (b : β) (s : σ) (j : Journal) :
    (pure b : Update σ ε β).outcome s j = ((.ok b, s), j) := rfl

@[simp] theorem outcome_throw (e : ε) (s : σ) (j : Journal) :
    (throw e : Update σ ε β).outcome s j = ((.error e, s), j) := rfl

/-- Where the first part fails, the second one does not run. -/
theorem outcome_bind (u : Update σ ε β) (f : β → Update σ ε γ) (s : σ) (j : Journal) :
    (u >>= f).outcome s j = match u.outcome s j with
      | ((.ok b, s'), j') => (f b).outcome s' j'
      | ((.error e, s'), j') => ((.error e, s'), j') := by
  simp only [outcome, bind, ExceptT.bind, ExceptT.run, ExceptT.mk, ExceptT.bindCont, StateT.bind,
    StateT.run]
  rcases u s j with ⟨⟨b | e, s'⟩, j'⟩ <;> rfl

theorem outcome_act (a : Action ε β) (s : σ) (j : Journal) :
    (act a : Update σ ε β).outcome s j = (((a.outcome j).1, s), (a.outcome j).2) := rfl

theorem outcome_attempt (u : Update σ ε β) (s : σ) (j : Journal) :
    (attempt u).outcome s j = ((.ok (u.outcome s j).1.1, (u.outcome s j).1.2), (u.outcome s j).2) :=
  rfl

theorem outcome_start (u : Update σ ε β) (s : σ) (j : Journal) :
    (u.start s : Action ε' (Except ε β × σ)).outcome j =
      (.ok (u.outcome s j).1, (u.outcome s j).2) := rfl

theorem outcome_within (part : τ → σ) (replace : τ → σ → τ) (u : Update σ ε β) (t : τ)
    (j : Journal) : (within part replace u).outcome t j =
      (((u.outcome (part t) j).1.1, replace t (u.outcome (part t) j).1.2),
        (u.outcome (part t) j).2) := rfl

@[simp] theorem outcome_along_nil (f : β → Update σ ε β) (b : β) (j : Journal) :
    (along f b).outcome [] j = ((.ok [], []), j) := rfl

theorem outcome_along_cons (f : β → Update σ ε β) (b : β) (s : σ) (rest : List σ) (j : Journal) :
    (along f b).outcome (s :: rest) j = match (f b).outcome s j with
      | ((.error e, s'), j') => ((.error e, s' :: rest), j')
      | ((.ok c, s'), j') =>
        let left := (along f c).outcome rest j'
        ((left.1.1.map (c :: ·), s' :: left.1.2), left.2) := by
  show (along.go f b (s :: rest)).run j = _
  simp only [along.go, outcome, bind, StateT.bind, StateT.run, ExceptT.run]
  rcases f b s j with ⟨⟨e | c, s'⟩, j'⟩ <;> rfl

@[simp] theorem outcome_get (s : σ) (j : Journal) :
    (get : Update σ ε σ).outcome s j = ((.ok s, s), j) := rfl

@[simp] theorem outcome_set (t s : σ) (j : Journal) :
    (set t : Update σ ε PUnit).outcome s j = ((.ok ⟨⟩, t), j) := rfl

@[simp] theorem outcome_modify (f : σ → σ) (s : σ) (j : Journal) :
    (modify f : Update σ ε PUnit).outcome s j = ((.ok ⟨⟩, f s), j) := rfl

end Update

end SteeredConv
