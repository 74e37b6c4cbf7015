/-
# What updates leave alone

An update fixes a view of the state if the view is the same afterwards, whether the
update succeeds or fails. Sequences of updates that fix a view fix it, and so do updates
of a part of the state and of every member of a list. An update spares a view if the
view is the same after a failure.

Key definitions: `Update.Fixes`.
Key theorems: `Update.view_bind`, `Update.fixes_bind`, `Update.fixes_within`, `Update.fixes_along`,
`Update.outcome_reporting`, `Update.bind_gives`.
-/
import SteeredConv.Guard
import SteeredConv.Proofs.Outcome

namespace SteeredConv
namespace Update

variable {σ τ υ ε β γ : Type} {view : σ → υ}

/-- An update that leaves a view of every state as it was. -/
def Fixes (view : σ → υ) (u : Update σ ε β) : Prop := ∀ s j, view (u.outcome s j).1.2 = view s

theorem outcome_liftM (x : Except ε β) (s : σ) (j : Journal) :
    (liftM x : Update σ ε β).outcome s j = ((x, s), j) := by
  cases x <;> rfl

theorem outcome_liftM_bind {x : Except ε β} {b : β} (h : x = .ok b) (f : β → Update σ ε γ) (s : σ)
    (j : Journal) : ((liftM x : Update σ ε β) >>= f).outcome s j = (f b).outcome s j := by
  rw [outcome_bind, outcome_liftM, h]

theorem fixes_pure (b : β) : (pure b : Update σ ε β).Fixes view := fun _ _ => rfl

theorem fixes_throw (e : ε) : (throw e : Update σ ε β).Fixes view := fun _ _ => rfl

theorem fixes_get : (get : Update σ ε σ).Fixes view := fun _ _ => rfl

theorem fixes_liftM (x : Except ε β) : (liftM x : Update σ ε β).Fixes view := fun s j => by
  rw [outcome_liftM]

theorem fixes_act (a : Action ε β) : (act a : Update σ ε β).Fixes view := fun _ _ => rfl

/-- What a sequence leaves in view: what its first step leaves, or what the second one makes of it. -/
theorem view_bind {u : Update σ ε β} {f : β → Update σ ε γ} {s : σ} {j : Journal} {v : υ}
    (hu : view (u.outcome s j).1.2 = v)
    (hf : ∀ b s' j', u.outcome s j = ((.ok b, s'), j') → view ((f b).outcome s' j').1.2 = v) :
    view ((u >>= f).outcome s j).1.2 = v := by
  rw [outcome_bind]
  rcases h : u.outcome s j with ⟨⟨e | b, s'⟩, j'⟩
  · rw [h] at hu
    exact hu
  · exact hf b s' j' h

theorem view_liftM_bind {x : Except ε β} {f : β → Update σ ε γ} {s : σ} {j : Journal} {v : υ}
    (hs : view s = v) (hf : ∀ b, x = .ok b → view ((f b).outcome s j).1.2 = v) :
    view (((liftM x : Update σ ε β) >>= f).outcome s j).1.2 = v := by
  cases x with
  | error e => exact hs
  | ok b => exact hf b rfl

theorem fixes_bind {u : Update σ ε β} {f : β → Update σ ε γ} (hu : u.Fixes view)
    (hf : ∀ b, (f b).Fixes view) : (u >>= f).Fixes view := by
  intro s j
  refine view_bind (hu s j) fun b s' j' h => ?_
  have hs := hu s j
  rw [h] at hs
  exact (hf b s' j').trans hs

/-- A part that is fixed is put back where it was. -/
theorem fixes_within {part : τ → σ} {replace : τ → σ → τ} {whole : τ → γ} {u : Update σ ε β}
    (hu : u.Fixes view) (hput : ∀ t s, view s = view (part t) → whole (replace t s) = whole t) :
    (within part replace u).Fixes whole := fun t j => by
  rw [outcome_within]
  exact hput t _ (hu (part t) j)

theorem fixes_along {f : β → Update σ ε β} (hf : ∀ b, (f b).Fixes view) (b : β) :
    (along f b).Fixes (List.map view) := by
  intro ss j
  induction ss generalizing b j with
  | nil => rfl
  | cons s rest ih =>
    have hs := hf b s j
    rw [outcome_along_cons]
    rcases h : (f b).outcome s j with ⟨⟨e | c, s'⟩, j'⟩ <;> rw [h] at hs
    · exact congrArg (· :: rest.map view) hs
    · have hrest : ((along f c).outcome rest j').1.2.map view = rest.map view := ih c j'
      have hs' : view s' = view s := hs
      show view s' :: List.map view ((along f c).outcome rest j').1.2 = view s :: rest.map view
      rw [hrest, hs']

/-- Logging a failure changes neither the result nor the state. -/
theorem outcome_reporting (describe : ε → String) (label : String) (u : Update σ ε β) (s : σ)
    (j : Journal) : ((reporting describe label u).outcome s j).1 = (u.outcome s j).1 := by
  simp only [reporting, outcome_bind, outcome_attempt]
  rcases u.outcome s j with ⟨⟨e | b, s'⟩, j'⟩ <;> rfl

/-- A sequence that gives a result gives one in each step. -/
theorem bind_gives {u : Update σ ε β} {f : β → Update σ ε γ} {s : σ} {j : Journal} {c : γ}
    (h : ((u >>= f).outcome s j).1.1 = .ok c) :
    ∃ b, (u.outcome s j).1.1 = .ok b ∧
      ((f b).outcome (u.outcome s j).1.2 (u.outcome s j).2).1.1 = .ok c := by
  rw [outcome_bind] at h
  rcases hu : u.outcome s j with ⟨⟨e | b, s'⟩, j'⟩ <;> rw [hu] at h
  · cases h
  · exact ⟨b, rfl, h⟩

theorem outcome_bind_ok {u : Update σ ε β} {f : β → Update σ ε γ} {s : σ} {j : Journal} {b : β}
    (h : (u.outcome s j).1.1 = .ok b) : (u >>= f).outcome s j =
      (f b).outcome (u.outcome s j).1.2 (u.outcome s j).2 := by
  rw [outcome_bind]
  rcases hu : u.outcome s j with ⟨⟨e | c, s'⟩, j'⟩ <;> rw [hu] at h
  · cases h
  · obtain rfl := Except.ok.inj h
    rfl

theorem gives_andThen {u : Update σ ε β} {f : β → Update σ ε γ} {s : σ} {j : Journal} {b : β} {c : γ}
    (hu : (u.outcome s j).1.1 = .ok b) (hf : ((f b).outcome (u.outcome s j).1.2 (u.outcome s j).2).1.1 = .ok c) :
    ((u >>= f).outcome s j).1.1 = .ok c := by
  rw [outcome_bind_ok hu, hf]

theorem bind_fails {u : Update σ ε β} {f : β → Update σ ε γ} {s : σ} {j : Journal} {e : ε}
    (h : ((u >>= f).outcome s j).1.1 = .error e) :
    ((u.outcome s j).1.1 = .error e ∧ (u >>= f).outcome s j = ((.error e, (u.outcome s j).1.2), (u.outcome s j).2)) ∨
      ∃ b, (u.outcome s j).1.1 = .ok b ∧
        ((f b).outcome (u.outcome s j).1.2 (u.outcome s j).2).1.1 = .error e := by
  rw [outcome_bind] at h ⊢
  rcases hu : u.outcome s j with ⟨⟨e' | b, s'⟩, j'⟩ <;> rw [hu] at h
  · obtain rfl : e' = e := Except.error.inj h
    exact .inl ⟨rfl, rfl⟩
  · exact .inr ⟨b, rfl, h⟩

end Update
end SteeredConv
