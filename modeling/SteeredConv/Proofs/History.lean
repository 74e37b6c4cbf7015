/-
# Histories of a network

A network comes about by building it, replacing the entries of its parameters, which
are drawn or loaded, passing images through it, training it and evaluating it, in any
order; a call that fails may have come between. Whatever the history, the form is that
of a network that was built.

Key definitions: `Place`, `Network.places`, `Network.withEntries`, `Network.Reached`.
Key theorems: `Network.mem_places`, `Network.withEntries_entry`, `Network.form_of_reached`,
`Network.sound_of_reached`, `Network.loss_of_reached`.
-/
import SteeredConv.Proofs.NetworkForm

namespace SteeredConv

/-! ### Entries of the parameters -/

/-- Both parameters. -/
def Role.all : Finset Role := {.kernel, .bias}

theorem Role.mem_all (r : Role) : r ∈ Role.all := by
  cases r <;> decide

section Entries

variable {α ω : Type}

namespace ConvLayer

variable (l : ConvLayer α ω)

/-- The number of entries of a parameter. -/
def count : Role → ℕ
  | .kernel => l.weight.value.size
  | .bias => l.bias.elim 0 fun b => b.value.size

/-- The entry of a parameter at a flat position. -/
def entry [Zero α] : Role → ℕ → α
  | .kernel, i => l.weight.value.flat i
  | .bias, i => l.bias.elim 0 fun b => b.value.flat i

variable {l}

theorem refill_flat [Zero α] {p : Parameter α} {f : ℕ → α} (h : ∀ i < p.value.size, f i = p.value.flat i) :
    p.refill f = p := by
  have hvalue : Tensor.ofFlat p.value.shape f = p.value := by
    refine Tensor.ext_flat rfl fun i hi => ?_
    rw [Tensor.flat_ofFlat (by exact hi), h i hi]
  unfold Parameter.refill
  rw [hvalue]

/-- A layer with its own entries is itself. -/
theorem withEntries_entry [Zero α] {f : Role → ℕ → α} (h : ∀ r, ∀ i < l.count r, f r i = l.entry r i) :
    l.withEntries f = l := by
  have hweight : l.weight.refill (f .kernel) = l.weight := refill_flat (h .kernel)
  have hbias : (l.bias.map fun b => b.refill (f .bias)) = l.bias := by
    cases hb : l.bias with
    | none => rfl
    | some b =>
      refine congrArg some (refill_flat fun i hi => ?_)
      have := h .bias i
      simp only [count, entry, hb, Option.elim_some] at this
      exact this hi
  unfold withEntries
  rw [hweight, hbias]

end ConvLayer

namespace Network

variable (n : Network α ω)

/-- The places of all entries. -/
def places : Finset Place :=
  Finset.univ.biUnion fun k : Fin n.layers.length => Role.all.biUnion fun r =>
    (Finset.range ((n.layers.get k).count r)).image fun i => (k, r, i)

def entry [Zero α] (e : Place) : α := n.layers[e.1]?.elim 0 fun l => l.entry e.2.1 e.2.2

variable {n}

theorem mem_places {k : ℕ} {r : Role} {i : ℕ} :
    (k, r, i) ∈ n.places ↔ ∃ l, n.layers[k]? = some l ∧ i < l.count r := by
  unfold places
  simp only [Finset.mem_biUnion, Finset.mem_univ, Role.mem_all, true_and, Finset.mem_image,
    Finset.mem_range, Prod.mk.injEq]
  constructor
  · rintro ⟨k', r', i', hi, rfl, rfl, rfl⟩
    exact ⟨n.layers.get k', List.getElem?_eq_getElem k'.isLt, hi⟩
  · rintro ⟨l, hl, hi⟩
    obtain ⟨hk, rfl⟩ := List.getElem?_eq_some_iff.mp hl
    exact ⟨⟨k, hk⟩, r, i, hi, rfl, rfl, rfl⟩

theorem layers_withEntries (f : Place → α) : (n.withEntries f).layers =
    n.layers.mapIdx fun k l => l.withEntries fun r i => f (k, r, i) := by
  unfold layers withEntries
  rw [List.mapIdx_cons]

/-- A network with its own entries is itself. -/
theorem withEntries_entry [Zero α] {f : Place → α} (h : ∀ e ∈ n.places, f e = n.entry e) :
    n.withEntries f = n := by
  have hlayer : ∀ (k : ℕ) (l : ConvLayer α ω), n.layers[k]? = some l →
      l.withEntries (fun r i => f (k, r, i)) = l := by
    intro k l hl
    refine ConvLayer.withEntries_entry fun r i hi => ?_
    rw [h _ (mem_places.mpr ⟨l, hl, hi⟩)]
    unfold entry
    rw [hl, Option.elim_some]
  have hrest : (n.rest.mapIdx fun k l => l.withEntries fun r i => f (k + 1, r, i)) = n.rest := by
    refine List.ext_getElem? fun k => ?_
    rw [List.getElem?_mapIdx]
    cases hl : n.rest[k]? with
    | none => rfl
    | some l => exact congrArg some (hlayer (k + 1) l hl)
  unfold withEntries
  rw [hrest, hlayer 0 n.first rfl]

end Network

end Entries

/-! ### Histories -/

namespace Network

/-- The networks that a history leads to, whatever was drawn for their parameters. -/
inductive Reached : Network ℝ ℝ → Prop where
  | built [Draws ℝ ℝ] {source : String} {description : Value} {globals : GlobalOptions} {n : Network ℝ ℝ}
      (h : (build source description globals).Gives n) : Reached n
  | assigned {n : Network ℝ ℝ} (h : Reached n) (f : Place → ℝ) : Reached (n.withEntries f)
  | passed {n : Network ℝ ℝ} (h : Reached n) (image : Given ℝ) (j : Journal) :
      Reached ((forward image).outcome n j).1.2
  | trained {σ : Type} {t : Trained σ ℝ ℝ} (h : Reached t.network) (o : Optimizer σ ℝ)
      (loss : Option (SimilarityLoss ℝ)) (b : Batch ℝ) (j : Journal) :
      Reached ((trainStep o loss b).outcome t j).1.2.network
  | evaluated {n : Network ℝ ℝ} (h : Reached n) (bs : List (Batch ℝ)) (j : Journal) :
      Reached ((evaluate bs).outcome n j).1.2

/-- Every history keeps the form of the network that was built. -/
theorem form_of_reached {n : Network ℝ ℝ} (h : n.Reached) :
    ∃ (_ : Draws ℝ ℝ) (source : String) (description : Value) (globals : GlobalOptions) (n₀ : Network ℝ ℝ),
      (build source description globals).Gives n₀ ∧ n.form = n₀.form := by
  induction h with
  | built h => exact ⟨_, _, _, _, _, h, rfl⟩
  | assigned _ f ih =>
    obtain ⟨draws, source, description, globals, n₀, hbuild, hform⟩ := ih
    exact ⟨draws, source, description, globals, n₀, hbuild, (form_withEntries f _).trans hform⟩
  | passed _ image j ih =>
    obtain ⟨draws, source, description, globals, n₀, hbuild, hform⟩ := ih
    exact ⟨draws, source, description, globals, n₀, hbuild, (fixes_forward_form image _ j).trans hform⟩
  | trained _ o loss b j ih =>
    obtain ⟨draws, source, description, globals, n₀, hbuild, hform⟩ := ih
    exact ⟨draws, source, description, globals, n₀, hbuild, (fixes_trainStep o loss b _ j).trans hform⟩
  | evaluated _ bs j ih =>
    obtain ⟨draws, source, description, globals, n₀, hbuild, hform⟩ := ih
    exact ⟨draws, source, description, globals, n₀, hbuild, (fixes_evaluate_form bs _ j).trans hform⟩

theorem sound_form {n : Network ℝ ℝ} : n.form.Sound ↔ n.Sound := by
  constructor
  · intro h
    refine ⟨ConvLayer.sound_form.mp h.first, fun l hl => ?_, h.loss⟩
    exact ConvLayer.sound_form.mp (h.rest l.form (List.mem_map_of_mem hl))
  · intro h
    refine ⟨ConvLayer.sound_form.mpr h.first, fun l hl => ?_, h.loss⟩
    obtain ⟨l', hl', rfl⟩ := List.mem_map.mp hl
    exact ConvLayer.sound_form.mpr (h.rest l' hl')

/-- Whatever the history, the parts of the network are sound. -/
theorem sound_of_reached {n : Network ℝ ℝ} (h : n.Reached) : n.Sound := by
  obtain ⟨_, _, _, _, n₀, hbuild, hform⟩ := form_of_reached h
  rw [← sound_form, hform, sound_form]
  exact sound_of_build hbuild

end Network
end SteeredConv
