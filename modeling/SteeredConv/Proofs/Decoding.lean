/-
# Descriptions are decoded faithfully

In a description whose keys are texts, an entry describes the options of one layer: its type
names the set of options, every other key but the name is an option of the set, a given option
is read from its value and the others are at their defaults. This says nothing of the order in
which keys are looked at. Decoding gives exactly the options that are described, entry by entry,
and refuses exactly the entries that are malformed; so options that are written out option by
option are read back as they were.

What the sets of options have in common is that setting one option changes that option alone.

Key definitions: `HasOptions.Lawful`, `HasOptions.ReadFrom`, `LayerOptions.Reads`,
`LayerOptions.Describes`, `LayerOptions.Malformed`, `LayerOptions.written`.
Key theorems: `HasOptions.Lawful.build_eq_ok_iff`, `LayerOptions.settingOf_eq_ok_iff`,
`LayerOptions.decode_eq_ok_iff`, `LayerOptions.ofEntry_eq_ok_iff`, `decoding_exact`.
-/
import Mathlib.Data.List.Nodup
import SteeredConv.Proofs.Descriptions

namespace SteeredConv

open LayerOptions (optionNames textKey?)

/-! ### Setting options by name -/

theorem eq_of_mem_named {β : Type} {named : List (String × β)} (h : (named.map (·.1)).Nodup) {key : String} {b b' : β}
    (hb : (key, b) ∈ named) (hb' : (key, b') ∈ named) : b = b' :=
  congrArg Prod.snd (List.inj_on_of_nodup_map h hb hb' rfl)

namespace HasOptions

/-- Setting one option changes that option alone, and the options are all there is to a set. -/
structure Lawful (τ : Type) [HasOptions τ] : Prop where
  names : ∀ t : τ, (fields t).map (·.1) = optionNames τ
  nodup : (optionNames τ).Nodup
  ext : ∀ t t' : τ, fields t = fields t' → t = t'
  set : ∀ {t t' : τ} {key : String} {s : Setting}, set? t key s = some t' →
    key ∈ optionNames τ ∧ ∀ f ∈ fields t', f = (key, s) ∨ f ∈ fields t ∧ f.1 ≠ key

/-- Options that are given by name, and the defaults of all others. How what is given is read as a setting is a
relation. -/
structure ReadFrom {τ β : Type} [HasOptions τ] (R : String → β → Setting → Prop) (t : τ) (given : List (String × β)) :
    Prop where
  known : ∀ e ∈ given, e.1 ∈ optionNames τ
  read : ∀ f ∈ fields t, ∀ b, (f.1, b) ∈ given → R f.1 b f.2
  omitted : ∀ f ∈ fields t, (∀ b, (f.1, b) ∉ given) → f ∈ fields (default : τ)

variable {τ β : Type} [HasOptions τ] {t t' : τ}

theorem ReadFrom.congr {R R' : String → β → Setting → Prop} {given : List (String × β)}
    (h : ∀ e ∈ given, ∀ s, R e.1 e.2 s ↔ R' e.1 e.2 s) : ReadFrom R t given ↔ ReadFrom R' t given :=
  ⟨fun ht => ⟨ht.known, fun f hf b hb => (h _ hb _).mp (ht.read f hf b hb), ht.omitted⟩,
    fun ht => ⟨ht.known, fun f hf b hb => (h _ hb _).mpr (ht.read f hf b hb), ht.omitted⟩⟩

namespace Lawful

theorem eq_of_settings (h : Lawful τ) (hsettings : ∀ f ∈ fields t, ∀ f' ∈ fields t', f.1 = f'.1 → f = f') : t = t' := by
  refine h.ext t t' (List.ext_getElem ?_ fun i hi hi' => ?_)
  · rw [← List.length_map (·.1), h.names, ← h.names t', List.length_map]
  · refine hsettings _ (List.getElem_mem hi) _ (List.getElem_mem hi') ?_
    have hnames : (fields t).map (·.1) = (fields t').map (·.1) := (h.names t).trans (h.names t').symm
    simpa [hi, hi'] using congrArg (fun l : List String => l[i]?) hnames

/-- There is one set of options at most that is read from what is given. -/
theorem unique (h : Lawful τ) {R : String → β → Setting → Prop} {given : List (String × β)}
    (hR : ∀ key b s s', R key b s → R key b s' → s = s') (ht : ReadFrom R t given) (ht' : ReadFrom R t' given) :
    t = t' := by
  refine h.eq_of_settings fun f hf f' hf' hkey => ?_
  by_cases hgiven : ∃ b, (f.1, b) ∈ given
  · obtain ⟨b, hb⟩ := hgiven
    have hread := ht.read f hf b hb
    rw [hkey] at hread hb
    exact Prod.ext hkey (hR _ _ _ _ hread (ht'.read f' hf' b hb))
  · have hnone := not_exists.mp hgiven
    have hnodup : ((fields (default : τ)).map (·.1)).Nodup := h.nodup
    have hdefault := ht.omitted f hf hnone
    rw [hkey] at hnone
    exact List.inj_on_of_nodup_map hnodup hdefault (ht'.omitted f' hf' hnone) hkey

/-- Setting options in order changes those options alone. -/
theorem setAll_spec (h : Lawful τ) {settings : List (String × Setting)} (hset : setAll t settings = .ok t') :
    (∀ s ∈ settings, s.1 ∈ optionNames τ) ∧
      ∀ f ∈ fields t', f ∈ settings ∨ f ∈ fields t ∧ f.1 ∉ settings.map (·.1) := by
  induction settings generalizing t with
  | nil =>
    obtain rfl := Except.ok.inj hset
    exact ⟨by simp, fun f hf => .inr ⟨hf, List.not_mem_nil⟩⟩
  | cons s rest ih =>
    obtain ⟨key, s⟩ := s
    unfold setAll at hset
    cases hone : set? t key s with
    | none =>
      rw [hone] at hset
      cases hset
    | some t₁ =>
      rw [hone] at hset
      obtain ⟨hkey, hfields⟩ := h.set hone
      obtain ⟨hknown, hrest⟩ := ih hset
      refine ⟨List.forall_mem_cons.mpr ⟨hkey, hknown⟩, fun f hf => ?_⟩
      rcases hrest f hf with hmem | ⟨hmem, hnot⟩
      · exact .inl (List.mem_cons_of_mem _ hmem)
      · rcases hfields f hmem with rfl | ⟨hmem, hne⟩
        · exact .inl List.mem_cons_self
        · exact .inr ⟨hmem, by simpa [hne] using hnot⟩

/-- Options of known names that take their settings are set. -/
theorem exists_setAll {settings : List (String × Setting)}
    (h : ∀ s ∈ settings, ∀ t : τ, ∃ t', set? t s.1 s.2 = some t') (t : τ) : ∃ t', setAll t settings = .ok t' := by
  induction settings generalizing t with
  | nil => exact ⟨t, rfl⟩
  | cons s rest ih =>
    obtain ⟨hs, hrest⟩ := List.forall_mem_cons.mp h
    obtain ⟨t₁, ht₁⟩ := hs t
    obtain ⟨t', ht'⟩ := ih hrest t₁
    refine ⟨t', ?_⟩
    unfold setAll
    rw [ht₁]
    exact ht'

/-- Setting what is given gives exactly the options that are read from it. -/
theorem build_eq_ok_iff (h : Lawful τ) {R : String → β → Setting → Prop} {given : List (String × β)}
    {settings : List (String × Setting)} (hnodup : (given.map (·.1)).Nodup)
    (hR : ∀ key b s s', R key b s → R key b s' → s = s')
    (hto : ∀ e ∈ given, ∃ s, (e.1, s) ∈ settings ∧ R e.1 e.2 s)
    (hfrom : ∀ s ∈ settings, ∃ b, (s.1, b) ∈ given ∧ R s.1 b s.2)
    (htakes : ∀ s ∈ settings, s.1 ∈ optionNames τ → ∀ t : τ, ∃ t', set? t s.1 s.2 = some t') :
    build settings = .ok t ↔ ReadFrom R t given := by
  have hread {t : τ} (hset : build settings = .ok t) : ReadFrom R t given := by
    obtain ⟨hknown, hfields⟩ := h.setAll_spec hset
    refine ⟨fun e he => ?_, fun f hf b hb => ?_, fun f hf hnone => ?_⟩
    · obtain ⟨s, hs, -⟩ := hto e he
      exact hknown _ hs
    · rcases hfields f hf with hmem | ⟨-, hnot⟩
      · obtain ⟨b', hb', hR'⟩ := hfrom f hmem
        rwa [eq_of_mem_named hnodup hb hb']
      · obtain ⟨s, hs, -⟩ := hto _ hb
        exact absurd (List.mem_map_of_mem hs) hnot
    · rcases hfields f hf with hmem | ⟨hdefault, -⟩
      · obtain ⟨b, hb, -⟩ := hfrom f hmem
        exact absurd hb (hnone b)
      · exact hdefault
  refine ⟨hread, fun ht => ?_⟩
  have hknown : ∀ s ∈ settings, ∀ t : τ, ∃ t', set? t s.1 s.2 = some t' := fun s hs => by
    obtain ⟨b, hb, -⟩ := hfrom s hs
    exact htakes s hs (ht.known _ hb)
  obtain ⟨t', ht'⟩ := exists_setAll hknown (default : τ)
  rw [h.unique hR ht (hread ht')]
  exact ht'

end Lawful

theorem lawful_filler : Lawful FillerOptions where
  names _ := rfl
  nodup := by decide
  ext t t' h := by
    cases t
    cases t'
    simpa [fields, FillerOptions.fields] using h
  set {t t' key s} h := by
    cases s with
    | value v =>
      change FillerOptions.set? t key v = some t' at h
      unfold FillerOptions.set? at h
      split at h
      case h_7 => cases h
      all_goals
        obtain rfl := Option.some.inj h
        exact ⟨by decide, by simp [fields, FillerOptions.fields]⟩
    | _ => cases h

theorem lawful_similarity : Lawful SimilarityOptions where
  names _ := rfl
  nodup := by decide
  ext t t' h := by
    cases t
    cases t'
    simpa [fields, SimilarityOptions.fields] using h
  set {t t' key s} h := by
    cases s with
    | value v =>
      change SimilarityOptions.set? t key (.value v) = some t' at h
      unfold SimilarityOptions.set? at h
      dsimp only at h
      split at h
      case h_7 => cases h
      all_goals
        obtain rfl := Option.some.inj h
        exact ⟨by decide, by simp [fields, SimilarityOptions.fields]⟩
    | _ => cases h

theorem lawful_orientedConv : Lawful OrientedConvOptions where
  names _ := rfl
  nodup := by decide
  ext t t' h := by
    cases t
    cases t'
    simpa [fields, OrientedConvOptions.fields] using h
  set {t t' key s} h := by
    change OrientedConvOptions.set? t key s = some t' at h
    unfold OrientedConvOptions.set? at h
    split at h
    · obtain rfl := Option.some.inj h
      exact ⟨by decide, by simp [fields, OrientedConvOptions.fields]⟩
    · obtain rfl := Option.some.inj h
      exact ⟨by decide, by simp [fields, OrientedConvOptions.fields]⟩
    · unfold OrientedConvOptions.setValue? at h
      split at h
      case h_14 => cases h
      all_goals
        obtain rfl := Option.some.inj h
        exact ⟨by decide, by simp [fields, OrientedConvOptions.fields]⟩
    · cases h

end HasOptions

/-! ### Mappings whose keys are texts -/

/-- The entries of a mapping whose keys are texts. -/
def Value.ofNamed (named : List (String × Value)) : List (Value × Value) := named.map fun e => (.text e.1, e.2)

section Named

variable {named : List (String × Value)}

theorem Value.ofNamed_injective : Function.Injective Value.ofNamed :=
  List.map_injective_iff.mpr fun a b h => by
    obtain ⟨hkey, hvalue⟩ := Prod.ext_iff.mp h
    exact Prod.ext (Value.text.inj hkey) hvalue

theorem Value.mem_of_lookup? {key : String} {v : Value} (h : Value.lookup? (Value.ofNamed named) key = some v) :
    (key, v) ∈ named := by
  obtain ⟨e, he, h⟩ := List.exists_of_findSome?_eq_some h
  obtain ⟨⟨k, v'⟩, hmem, rfl⟩ := List.mem_map.mp he
  dsimp only at h
  split at h
  · rename_i hkey
    rwa [← hkey, ← Option.some.inj h]
  · cases h

theorem Value.lookup?_ofNamed_eq_none {key : String} (h : ∀ v, (key, v) ∉ named) :
    Value.lookup? (Value.ofNamed named) key = none := by
  cases hlookup : Value.lookup? (Value.ofNamed named) key with
  | none => rfl
  | some v => exact absurd (Value.mem_of_lookup? hlookup) (h v)

theorem Value.lookup?_ofNamed_eq_some_iff (hnodup : (named.map (·.1)).Nodup) {key : String} {v : Value} :
    Value.lookup? (Value.ofNamed named) key = some v ↔ (key, v) ∈ named := by
  refine ⟨Value.mem_of_lookup?, fun hv => ?_⟩
  cases hlookup : Value.lookup? (Value.ofNamed named) key with
  | none =>
    have hnone := List.findSome?_eq_none_iff.mp hlookup _ (List.mem_map_of_mem hv)
    dsimp only at hnone
    rw [if_pos rfl] at hnone
    cases hnone
  | some v' => rw [eq_of_mem_named hnodup hv (Value.mem_of_lookup? hlookup)]

end Named

/-! ### Reading the settings of an entry -/

namespace LayerOptions

/-- The options whose mappings are fillers. -/
def IsFillerKey (key : String) : Prop := key = "weight_filler" ∨ key = "bias_filler"

instance decidableIsFillerKey : DecidablePred IsFillerKey :=
  fun key => inferInstanceAs (Decidable (key = "weight_filler" ∨ key = "bias_filler"))

/-- A filler that is read from the values of a mapping. -/
def ReadsFiller (fillers : List (String × Value)) (f : FillerOptions) : Prop :=
  HasOptions.ReadFrom (fun _ v s => s = .value v) f fillers

/-- A value stands for itself, but a mapping for a filler. -/
inductive Reads (key : String) : Value → Setting → Prop where
  | value {v : Value} (h : IsFillerKey key → ∀ entries, v ≠ .map entries) : Reads key v (.value v)
  | filler {fillers : List (String × Value)} {f : FillerOptions} (hkey : IsFillerKey key) (hf : ReadsFiller fillers f) :
      Reads key (.map (Value.ofNamed fillers)) (.filler f)

section Settings

variable {key : String} {fillers : List (String × Value)} {f o : FillerOptions} {v : Value} {s : Setting}

/-- The options of a filler are set as those of any set. -/
theorem ofEntries_eq_ok_iff : o.ofEntries fillers = .ok f ↔
    HasOptions.setAll o (fillers.map fun e => (e.1, Setting.value e.2)) = .ok f := by
  induction fillers generalizing o with
  | nil => exact ⟨fun h => congrArg Except.ok (Except.ok.inj h), fun h => congrArg Except.ok (Except.ok.inj h)⟩
  | cons e rest ih =>
    obtain ⟨k, v⟩ := e
    have hset : HasOptions.set? o k (.value v) = o.set? k v := rfl
    rw [List.map_cons]
    unfold FillerOptions.ofEntries HasOptions.setAll
    dsimp only
    rw [hset]
    cases o.set? k v with
    | none => constructor <;> intro h <;> cases h
    | some o' => exact ih

theorem exists_set?_filler (o : FillerOptions) (hkey : key ∈ optionNames FillerOptions) (v : Value) :
    ∃ o', HasOptions.set? o key (.value v) = some o' := by
  have hnames : key ∈ ["type", "value", "min", "max", "mean", "std"] := hkey
  simp only [List.mem_cons, List.not_mem_nil, or_false] at hnames
  rcases hnames with rfl | rfl | rfl | rfl | rfl | rfl
  all_goals exact ⟨_, rfl⟩

/-- A filler is built exactly if its options are read from the mapping. -/
theorem ofEntries_default_eq_ok_iff (hnodup : (fillers.map (·.1)).Nodup) :
    FillerOptions.ofEntries {} fillers = .ok f ↔ ReadsFiller fillers f := by
  rw [ofEntries_eq_ok_iff]
  refine HasOptions.lawful_filler.build_eq_ok_iff hnodup (fun _ _ _ _ h h' => h.trans h'.symm) ?_ ?_ ?_
  · exact fun e he => ⟨_, List.mem_map_of_mem he, rfl⟩
  · intro s hs
    obtain ⟨e, he, rfl⟩ := List.mem_map.mp hs
    exact ⟨e.2, he, rfl⟩
  · intro s hs hkey o
    obtain ⟨e, -, rfl⟩ := List.mem_map.mp hs
    exact exists_set?_filler o hkey e.2

theorem mapM_textKey? (fillers : List (String × Value)) :
    (Value.ofNamed fillers).mapM (fun (k, v) => (textKey? k).map (·, v)) = some fillers := by
  induction fillers with
  | nil => rfl
  | cons e rest ih =>
    show List.mapM _ ((.text e.1, e.2) :: Value.ofNamed rest) = _
    rw [List.mapM_cons, ih]
    rfl

theorem exists_ofEntries (h : ∀ e ∈ fillers, e.1 ∈ optionNames FillerOptions) :
    ∃ f, FillerOptions.ofEntries {} fillers = .ok f := by
  have htakes : ∀ s ∈ fillers.map (fun e => (e.1, Setting.value e.2)), ∀ t : FillerOptions,
      ∃ t', HasOptions.set? t s.1 s.2 = some t' := by
    intro s hs t
    obtain ⟨e, he, rfl⟩ := List.mem_map.mp hs
    exact exists_set?_filler t (h e he) e.2
  obtain ⟨f, hf⟩ := HasOptions.Lawful.exists_setAll htakes {}
  exact ⟨f, ofEntries_eq_ok_iff.mpr hf⟩

/-- A mapping is decoded to the filler that is read from it, or it has an unknown key. -/
theorem fillerOf_cases (key : String) (hnodup : (fillers.map (·.1)).Nodup) :
    (∃ f, ReadsFiller fillers f ∧ fillerOf key (Value.ofNamed fillers) = .ok (.filler f)) ∨
      (∃ e ∈ fillers, e.1 ∉ optionNames FillerOptions) ∧ ∃ e, fillerOf key (Value.ofNamed fillers) = .error e := by
  unfold fillerOf
  rw [mapM_textKey?]
  dsimp only
  split
  · rename_i hself
    obtain ⟨e, he, hkey⟩ := List.any_eq_true.mp hself
    refine .inr ⟨⟨e, he, ?_⟩, _, rfl⟩
    rw [of_decide_eq_true hkey]
    decide
  · split
    · rename_i f hf
      exact .inl ⟨f, (ofEntries_default_eq_ok_iff hnodup).mp hf, rfl⟩
    · rename_i unknown herror
      refine .inr ⟨?_, _, rfl⟩
      by_contra hknown
      simp only [not_exists, not_and, not_not] at hknown
      obtain ⟨f, hf⟩ := exists_ofEntries hknown
      cases herror.symm.trans hf

theorem readsFiller_unique {f' : FillerOptions} (hf : ReadsFiller fillers f) (hf' : ReadsFiller fillers f') : f = f' :=
  HasOptions.lawful_filler.unique (fun _ _ _ _ h h' => h.trans h'.symm) hf hf'

/-- The keys of a filler are texts, no two of them alike. -/
def LegibleValue (key : String) (v : Value) : Prop := IsFillerKey key → ∀ entries, v = .map entries →
  ∃ fillers, entries = Value.ofNamed fillers ∧ (fillers.map (·.1)).Nodup

/-- A filler with a key that fillers do not have. -/
def HasUnknownFillerKey (key : String) (v : Value) : Prop :=
  IsFillerKey key ∧ ∃ fillers, v = .map (Value.ofNamed fillers) ∧ ∃ e ∈ fillers, e.1 ∉ optionNames FillerOptions

theorem settingOf_of_plain (h : IsFillerKey key → ∀ entries, v ≠ .map entries) : settingOf key v = .ok (.value v) := by
  unfold settingOf
  split
  · exact if_neg fun hkey => h hkey _ rfl
  · rfl

/-- A setting is read from its value, or its value is a filler with an unknown key. -/
theorem settingOf_cases (h : LegibleValue key v) : (∃ s, settingOf key v = .ok s ∧ Reads key v s) ∨
    HasUnknownFillerKey key v ∧ ∃ e, settingOf key v = .error e := by
  by_cases hplain : IsFillerKey key → ∀ entries, v ≠ .map entries
  · exact .inl ⟨_, settingOf_of_plain hplain, .value hplain⟩
  · simp only [Classical.not_imp, not_forall, not_not] at hplain
    obtain ⟨hkey, entries, rfl⟩ := hplain
    obtain ⟨fillers, rfl, hnodup⟩ := h hkey entries rfl
    have hsetting : settingOf key (.map (Value.ofNamed fillers)) = fillerOf key (Value.ofNamed fillers) := if_pos hkey
    rw [hsetting]
    rcases fillerOf_cases key hnodup with ⟨f, hf, hok⟩ | ⟨hunknown, herror⟩
    · exact .inl ⟨_, hok, .filler hkey hf⟩
    · exact .inr ⟨⟨hkey, fillers, rfl, hunknown⟩, herror⟩

/-- A value is read as one setting at most. -/
theorem Reads.unique {s' : Setting} (h : Reads key v s) (h' : Reads key v s') : s = s' := by
  cases h with
  | value hplain =>
    cases h' with
    | value => rfl
    | filler hkey => exact absurd rfl (hplain hkey _)
  | @filler fillers f hkey hf =>
    generalize hv : Value.map (Value.ofNamed fillers) = v at h'
    cases h' with
    | value hplain => exact absurd hv.symm (hplain hkey _)
    | filler hkey' hf' =>
      obtain rfl := Value.ofNamed_injective (Value.map.inj hv)
      rw [readsFiller_unique hf hf']

theorem Reads.known (h : Reads key v s) : ¬HasUnknownFillerKey key v := by
  rintro ⟨hkey, fillers, rfl, e, he, hunknown⟩
  generalize hv : Value.map (Value.ofNamed fillers) = v at h
  cases h with
  | value hplain => exact hplain hkey _ hv.symm
  | filler hkey' hf =>
    obtain rfl := Value.ofNamed_injective (Value.map.inj hv)
    exact hunknown (hf.known e he)

/-- A setting is decoded exactly if it is read from the value. -/
theorem settingOf_eq_ok_iff (h : LegibleValue key v) : settingOf key v = .ok s ↔ Reads key v s := by
  rcases settingOf_cases h with ⟨s', hs', hreads⟩ | ⟨hunknown, e, herror⟩
  · rw [hs', Except.ok.injEq]
    exact ⟨fun hs => hs ▸ hreads, fun hs => hreads.unique hs⟩
  · rw [herror]
    exact iff_of_false nofun fun hreads => hreads.known hunknown

end Settings

/-! ### Decoding one entry -/

section Decode

variable {τ : Type} [HasOptions τ] {given : List (String × Value)} {t : τ} {layer : String}

def readEntry (e : Value × Value) : Except Fault (String × Setting) := do
  let key := (textKey? e.1).getD ""
  return (key, ← settingOf key e.2)

theorem readEntry_text {key : String} {v : Value} {s : String × Setting} :
    readEntry (.text key, v) = .ok s ↔ s.1 = key ∧ settingOf key v = .ok s.2 := by
  show (settingOf key v >>= fun s => .ok (key, s)) = _ ↔ _
  rw [bind_eq_ok_iff]
  constructor
  · rintro ⟨s', hs', h⟩
    obtain rfl := Except.ok.inj h
    exact ⟨rfl, hs'⟩
  · rintro ⟨hkey, hs⟩
    exact ⟨s.2, hs, congrArg Except.ok (Prod.ext hkey.symm rfl)⟩

theorem unknownKeys_eq_nil_iff : unknownKeys τ (Value.ofNamed given) = [] ↔ ∀ e ∈ given, e.1 ∈ optionNames τ := by
  constructor
  · intro h e he
    obtain ⟨key, hkey, hknown⟩ := known_of_mem h (List.mem_map_of_mem he)
    rwa [← Option.some.inj hkey] at hknown
  · intro h
    refine List.filter_eq_nil_iff.mpr fun k hk => ?_
    obtain ⟨_, hentry, rfl⟩ := List.mem_map.mp hk
    obtain ⟨e, he, rfl⟩ := List.mem_map.mp hentry
    simpa [textKey?] using h e he

/-- Decoding reads the settings of known options and sets them. -/
theorem decode_eq_ok_iff_build : decode τ layer (Value.ofNamed given) = .ok t ↔
    (∀ e ∈ given, e.1 ∈ optionNames τ) ∧
      ∃ settings, (Value.ofNamed given).mapM readEntry = .ok settings ∧ HasOptions.build settings = .ok t := by
  have hdecode : decode τ layer (Value.ofNamed given) =
      if !(unknownKeys τ (Value.ofNamed given)).isEmpty then
        ordered (unknownKeys τ (Value.ofNamed given)) >>= fun keys => throw (.option (.unknownLayerKeys layer keys))
      else
        (["weight_filler", "bias_filler"].filterMap fun key =>
            (Value.lookup? (Value.ofNamed given) key).map (key, ·)).mapM (fun e => settingOf e.1 e.2) >>= fun _ =>
          (Value.ofNamed given).mapM readEntry >>= HasOptions.build := rfl
  rw [hdecode]
  by_cases hunknown : unknownKeys τ (Value.ofNamed given) = []
  · rw [if_neg (by simp [hunknown]), bind_eq_ok_iff]
    constructor
    · rintro ⟨_, -, h⟩
      exact ⟨unknownKeys_eq_nil_iff.mp hunknown, bind_eq_ok_iff.mp h⟩
    · rintro ⟨-, settings, hsettings, hbuild⟩
      -- a filler that is looked at first is read once more with the others
      have hfirst : ∀ e ∈ ["weight_filler", "bias_filler"].filterMap (fun key =>
          (Value.lookup? (Value.ofNamed given) key).map (key, ·)), ∃ s, settingOf e.1 e.2 = .ok s := by
        intro e he
        obtain ⟨key, -, he⟩ := List.mem_filterMap.mp he
        obtain ⟨v, hv, rfl⟩ := Option.map_eq_some_iff.mp he
        obtain ⟨s, -, hs⟩ := exists_mem_mapM hsettings (List.mem_map_of_mem (Value.mem_of_lookup? hv))
        exact ⟨s.2, (readEntry_text.mp hs).2⟩
      obtain ⟨first, hfirst⟩ := exists_mapM hfirst
      exact ⟨first, hfirst, bind_eq_ok_iff.mpr ⟨settings, hsettings, hbuild⟩⟩
  · rw [if_pos (by simpa using hunknown)]
    refine iff_of_false ?_ fun h => hunknown (unknownKeys_eq_nil_iff.mpr h.1)
    intro h
    obtain ⟨keys, -, h⟩ := bind_eq_ok_iff.mp h
    cases h

/-- Entries whose fillers are legible. -/
def LegibleValues (given : List (String × Value)) : Prop := ∀ e ∈ given, LegibleValue e.1 e.2

theorem exists_settings (h : ∀ e ∈ given, ∃ s, settingOf e.1 e.2 = .ok s) :
    ∃ settings, (Value.ofNamed given).mapM readEntry = .ok settings := by
  refine exists_mapM fun entry hentry => ?_
  obtain ⟨e, he, rfl⟩ := List.mem_map.mp hentry
  obtain ⟨s, hs⟩ := h e he
  exact ⟨(e.1, s), readEntry_text.mpr ⟨rfl, hs⟩⟩

theorem exists_of_mem_settings {settings : List (String × Setting)}
    (h : (Value.ofNamed given).mapM readEntry = .ok settings) {s : String × Setting} (hs : s ∈ settings) :
    ∃ v, (s.1, v) ∈ given ∧ settingOf s.1 v = .ok s.2 := by
  obtain ⟨_, hentry, hread⟩ := exists_of_mem_mapM h hs
  obtain ⟨e, he, rfl⟩ := List.mem_map.mp hentry
  obtain ⟨hkey, hread⟩ := readEntry_text.mp hread
  rw [← hkey] at hread
  exact ⟨e.2, hkey ▸ he, hread⟩

/-- Decoding gives exactly the options that are read from the entries. -/
theorem decode_eq_ok_iff (hτ : HasOptions.Lawful τ) (htakes : TakesAll τ) (hnodup : (given.map (·.1)).Nodup)
    (hlegible : LegibleValues given) :
    decode τ layer (Value.ofNamed given) = .ok t ↔ HasOptions.ReadFrom Reads t given := by
  have hbuild {settings : List (String × Setting)} (hsettings : (Value.ofNamed given).mapM readEntry = .ok settings) :
      HasOptions.build settings = .ok t ↔ HasOptions.ReadFrom Reads t given := by
    refine hτ.build_eq_ok_iff hnodup (fun _ _ _ _ h h' => h.unique h') (fun e he => ?_) (fun s hs => ?_)
      fun s hs hkey t => ?_
    · obtain ⟨s, hs, hread⟩ := exists_mem_mapM hsettings (List.mem_map_of_mem he)
      obtain ⟨hkey, hread⟩ := readEntry_text.mp hread
      exact ⟨s.2, hkey ▸ hs, (settingOf_eq_ok_iff (hlegible e he)).mp hread⟩
    · obtain ⟨v, hv, hread⟩ := exists_of_mem_settings hsettings hs
      exact ⟨v, hv, (settingOf_eq_ok_iff (hlegible _ hv)).mp hread⟩
    · obtain ⟨v, -, hread⟩ := exists_of_mem_settings hsettings hs
      exact htakes t s.1 v s.2 hkey hread
  rw [decode_eq_ok_iff_build]
  constructor
  · rintro ⟨-, settings, hsettings, hset⟩
    exact (hbuild hsettings).mp hset
  · intro ht
    have hread : ∀ e ∈ given, ∃ s, settingOf e.1 e.2 = .ok s := by
      intro e he
      have hkey := ht.known e he
      rw [← hτ.names t] at hkey
      obtain ⟨f, hf, hname⟩ := List.mem_map.mp hkey
      have hreads := ht.read f hf e.2 (hname.symm ▸ he)
      rw [hname] at hreads
      exact ⟨f.2, (settingOf_eq_ok_iff (hlegible e he)).mpr hreads⟩
    obtain ⟨settings, hsettings⟩ := exists_settings hread
    exact ⟨ht.known, settings, hsettings, (hbuild hsettings).mpr ht⟩

/-- Options can be read from entries whose keys are known, down to those of the fillers. -/
theorem exists_readFrom (hτ : HasOptions.Lawful τ) (htakes : TakesAll τ) (hnodup : (given.map (·.1)).Nodup)
    (hlegible : LegibleValues given) (hknown : ∀ e ∈ given, e.1 ∈ optionNames τ)
    (hfillers : ∀ e ∈ given, ¬HasUnknownFillerKey e.1 e.2) : ∃ t : τ, HasOptions.ReadFrom Reads t given := by
  have hread : ∀ e ∈ given, ∃ s, settingOf e.1 e.2 = .ok s := by
    intro e he
    rcases settingOf_cases (hlegible e he) with ⟨s, hs, -⟩ | ⟨hunknown, -⟩
    · exact ⟨s, hs⟩
    · exact absurd hunknown (hfillers e he)
  obtain ⟨settings, hsettings⟩ := exists_settings hread
  have hset : ∀ s ∈ settings, ∀ t : τ, ∃ t', HasOptions.set? t s.1 s.2 = some t' := by
    intro s hs t
    obtain ⟨v, hv, hs⟩ := exists_of_mem_settings hsettings hs
    exact htakes t s.1 v s.2 (hknown _ hv) hs
  obtain ⟨t, ht⟩ := HasOptions.Lawful.exists_setAll hset (HasOptions.default : τ)
  have hdecode : decode τ "" (Value.ofNamed given) = .ok t :=
    decode_eq_ok_iff_build.mpr ⟨hknown, settings, hsettings, ht⟩
  exact ⟨t, (decode_eq_ok_iff hτ htakes hnodup hlegible).mp hdecode⟩

end Decode

/-! ### Entries -/

/-- The options among the entries: all but the type and the name. -/
def optionsAmong (named : List (String × Value)) : List (String × Value) :=
  named.filter fun e => e.1 ≠ "type" ∧ e.1 ≠ "name"

/-- The options of a layer type, if there is such a type. -/
def namesOf? : String → Option (List String)
  | "GradOrientConvolution" => some (optionNames OrientedConvOptions)
  | "SSIMLoss" => some (optionNames SimilarityOptions)
  | _ => none

/-- The options that an entry describes: its type names the set, and the other entries but the name are the options. -/
inductive Describes : Value → LayerOptions → Prop where
  | orientedConv {named : List (String × Value)} {o : OrientedConvOptions}
      (htype : ("type", .text "GradOrientConvolution") ∈ named)
      (hoptions : HasOptions.ReadFrom Reads o (optionsAmong named)) :
      Describes (.map (Value.ofNamed named)) (.orientedConv o)
  | similarity {named : List (String × Value)} {o : SimilarityOptions}
      (htype : ("type", .text "SSIMLoss") ∈ named)
      (hoptions : HasOptions.ReadFrom Reads o (optionsAmong named)) :
      Describes (.map (Value.ofNamed named)) (.similarity o)

/-- What is wrong with an entry: it is no mapping, has no type or an unknown one, an option that its type does
not have, or a filler with an unknown key. -/
inductive Malformed : Value → Prop where
  | notMapping {v : Value} (h : ∀ entries, v ≠ .map entries) : Malformed v
  | untyped {named : List (String × Value)} (h : ∀ v, ("type", v) ∉ named) : Malformed (.map (Value.ofNamed named))
  | unknownType {named : List (String × Value)} {type : String} (htype : ("type", .text type) ∈ named)
      (h : namesOf? type = none) : Malformed (.map (Value.ofNamed named))
  | unknownOption {named : List (String × Value)} {type : String} {names : List String} {e : String × Value}
      (htype : ("type", .text type) ∈ named) (hnames : namesOf? type = some names) (he : e ∈ optionsAmong named)
      (h : e.1 ∉ names) : Malformed (.map (Value.ofNamed named))
  | unknownFillerKey {named : List (String × Value)} {e : String × Value} (he : e ∈ named)
      (h : HasUnknownFillerKey e.1 e.2) : Malformed (.map (Value.ofNamed named))

/-- The keys of an entry and of its fillers are texts, no two alike in one mapping, and its type is text. -/
def Legible (entry : Value) : Prop := ∀ entries, entry = .map entries → ∃ named, entries = Value.ofNamed named ∧
  (named.map (·.1)).Nodup ∧ (∀ v, ("type", v) ∈ named → ∃ type, v = .text type) ∧ LegibleValues named

section Entries

variable {named : List (String × Value)} {entry : Value}

theorem remaining_ofNamed : remaining (Value.ofNamed named) = Value.ofNamed (optionsAmong named) := by
  unfold remaining Value.ofNamed optionsAmong
  rw [List.filter_map]
  refine congrArg _ (List.filter_congr fun e _ => ?_)
  simp [textKey?]

theorem nodup_optionsAmong (h : (named.map (·.1)).Nodup) : ((optionsAmong named).map (·.1)).Nodup :=
  h.sublist (List.filter_sublist.map _)

theorem LegibleValues.optionsAmong (h : LegibleValues named) : LegibleValues (optionsAmong named) :=
  fun e he => h e (List.mem_filter.mp he).1

/-- An entry is no mapping, has no type, or has one that is text. -/
theorem Legible.cases (h : Legible entry) : (∀ entries, entry ≠ .map entries) ∨
    ∃ named, entry = .map (Value.ofNamed named) ∧
    (named.map (·.1)).Nodup ∧ LegibleValues named ∧
      ((∀ v, ("type", v) ∉ named) ∨ ∃ type, ("type", .text type) ∈ named) := by
  by_cases hmap : ∀ entries, entry ≠ .map entries
  · exact .inl hmap
  · simp only [not_forall, not_not] at hmap
    obtain ⟨entries, rfl⟩ := hmap
    obtain ⟨named, rfl, hnodup, htext, hlegible⟩ := h entries rfl
    refine .inr ⟨named, rfl, hnodup, hlegible, ?_⟩
    by_cases htype : ∀ v, ("type", v) ∉ named
    · exact .inl htype
    · simp only [not_forall, not_not] at htype
      obtain ⟨v, hv⟩ := htype
      obtain ⟨type, rfl⟩ := htext v hv
      exact .inr ⟨type, hv⟩

theorem describes_orientedConv_iff {o : OrientedConvOptions} :
    Describes (.map (Value.ofNamed named)) (.orientedConv o) ↔
    ("type", .text "GradOrientConvolution") ∈ named ∧ HasOptions.ReadFrom Reads o (optionsAmong named) := by
  refine ⟨fun h => ?_, fun h => .orientedConv h.1 h.2⟩
  generalize hv : Value.map (Value.ofNamed named) = v at h
  cases h with
  | orientedConv htype hoptions =>
    obtain rfl := Value.ofNamed_injective (Value.map.inj hv)
    exact ⟨htype, hoptions⟩

theorem describes_similarity_iff {o : SimilarityOptions} : Describes (.map (Value.ofNamed named)) (.similarity o) ↔
    ("type", .text "SSIMLoss") ∈ named ∧ HasOptions.ReadFrom Reads o (optionsAmong named) := by
  refine ⟨fun h => ?_, fun h => .similarity h.1 h.2⟩
  generalize hv : Value.map (Value.ofNamed named) = v at h
  cases h with
  | similarity htype hoptions =>
    obtain rfl := Value.ofNamed_injective (Value.map.inj hv)
    exact ⟨htype, hoptions⟩

/-- An entry is decoded exactly to the options that it describes. -/
theorem ofEntry_eq_ok_iff (h : Legible entry) {o : LayerOptions} : ofEntry entry = .ok o ↔ Describes entry o := by
  rcases h.cases with hmap | ⟨named, rfl, hnodup, hlegible, huntyped | ⟨type, htype⟩⟩
  · refine iff_of_false ?_ ?_
    · unfold ofEntry
      split
      · exact absurd rfl (hmap _)
      · exact nofun
    · rintro ⟨⟩
      all_goals exact hmap _ rfl
  · refine iff_of_false ?_ ?_
    · unfold ofEntry
      dsimp only
      rw [Value.lookup?_ofNamed_eq_none huntyped]
      exact nofun
    · cases o with
      | orientedConv o => exact fun h => huntyped _ (describes_orientedConv_iff.mp h).1
      | similarity o => exact fun h => huntyped _ (describes_similarity_iff.mp h).1
  · have hlookup := (Value.lookup?_ofNamed_eq_some_iff hnodup).mpr htype
    have hunique {name : String} (hname : ("type", .text name) ∈ named) : type = name :=
      Value.text.inj (eq_of_mem_named hnodup htype hname)
    have hnodup' := nodup_optionsAmong hnodup
    unfold ofEntry
    dsimp only
    rw [hlookup, remaining_ofNamed]
    split
    · rename_i heq
      cases heq
    · rename_i heq
      obtain rfl := Value.text.inj (Option.some.inj heq)
      rw [map_eq_ok_iff]
      cases o with
      | orientedConv o =>
        rw [describes_orientedConv_iff,
          ← decode_eq_ok_iff HasOptions.lawful_orientedConv takesAll_orientedConv hnodup' hlegible.optionsAmong]
        exact ⟨fun ⟨_, hb, hbo⟩ => ⟨htype, orientedConv.inj hbo ▸ hb⟩, fun ⟨_, ho⟩ => ⟨o, ho, rfl⟩⟩
      | similarity o =>
        refine iff_of_false (fun ⟨_, _, hbo⟩ => nomatch hbo) fun hdescribes => ?_
        exact absurd (hunique (describes_similarity_iff.mp hdescribes).1) (by decide)
    · rename_i heq
      obtain rfl := Value.text.inj (Option.some.inj heq)
      rw [map_eq_ok_iff]
      cases o with
      | orientedConv o =>
        refine iff_of_false (fun ⟨_, _, hbo⟩ => nomatch hbo) fun hdescribes => ?_
        exact absurd (hunique (describes_orientedConv_iff.mp hdescribes).1) (by decide)
      | similarity o =>
        rw [describes_similarity_iff,
          ← decode_eq_ok_iff HasOptions.lawful_similarity takesAll_similarity hnodup' hlegible.optionsAmong]
        exact ⟨fun ⟨_, hb, hbo⟩ => ⟨htype, similarity.inj hbo ▸ hb⟩, fun ⟨_, ho⟩ => ⟨o, ho, rfl⟩⟩
    · rename_i hconv hloss heq
      obtain rfl := Option.some.inj heq
      refine iff_of_false nofun fun hdescribes => ?_
      cases o with
      | orientedConv o => exact hconv (congrArg Value.text (hunique (describes_orientedConv_iff.mp hdescribes).1))
      | similarity o => exact hloss (congrArg Value.text (hunique (describes_similarity_iff.mp hdescribes).1))

/-- An entry with options of its type is not malformed. -/
theorem not_malformed {τ : Type} [HasOptions τ] (hτ : HasOptions.Lawful τ) {type : String} {t : τ}
    (hnodup : (named.map (·.1)).Nodup) (htype : ("type", .text type) ∈ named)
    (hnames : namesOf? type = some (optionNames τ)) (ht : HasOptions.ReadFrom Reads t (optionsAmong named)) :
    ¬Malformed (.map (Value.ofNamed named)) := by
  intro h
  generalize hv : Value.map (Value.ofNamed named) = v at h
  cases h with
  | notMapping hmap => exact hmap _ hv.symm
  | untyped huntyped =>
    obtain rfl := Value.ofNamed_injective (Value.map.inj hv)
    exact huntyped _ htype
  | unknownType htype' hnone =>
    obtain rfl := Value.ofNamed_injective (Value.map.inj hv)
    obtain rfl := Value.text.inj (eq_of_mem_named hnodup htype htype')
    cases hnames.symm.trans hnone
  | unknownOption htype' hnames' he hunknown =>
    obtain rfl := Value.ofNamed_injective (Value.map.inj hv)
    obtain rfl := Value.text.inj (eq_of_mem_named hnodup htype htype')
    obtain rfl := Option.some.inj (hnames.symm.trans hnames')
    exact hunknown (ht.known _ he)
  | @unknownFillerKey _ e he hunknown =>
    obtain rfl := Value.ofNamed_injective (Value.map.inj hv)
    have hoption : e ∈ optionsAmong named := by
      refine List.mem_filter.mpr ⟨he, ?_⟩
      rcases hunknown.1 with hkey | hkey <;> rw [hkey] <;> decide
    have hkey := ht.known e hoption
    rw [← hτ.names t] at hkey
    obtain ⟨f, hf, hname⟩ := List.mem_map.mp hkey
    have hreads := ht.read f hf e.2 (hname.symm ▸ hoption)
    rw [hname] at hreads
    exact hreads.known hunknown

theorem exists_of_not_malformed {τ : Type} [HasOptions τ] (hτ : HasOptions.Lawful τ) (htakes : TakesAll τ)
    {type : String} (hnodup : (named.map (·.1)).Nodup) (hlegible : LegibleValues named)
    (htype : ("type", .text type) ∈ named) (hnames : namesOf? type = some (optionNames τ))
    (h : ¬Malformed (.map (Value.ofNamed named))) : ∃ t : τ, HasOptions.ReadFrom Reads t (optionsAmong named) := by
  refine exists_readFrom hτ htakes (nodup_optionsAmong hnodup) hlegible.optionsAmong (fun e he => ?_)
    fun e he hunknown => ?_
  · by_contra hunknown
    exact h (.unknownOption htype hnames he hunknown)
  · exact h (.unknownFillerKey (List.mem_filter.mp he).1 hunknown)

/-- An entry describes options exactly if it is not malformed. -/
theorem exists_describes_iff (h : Legible entry) : (∃ o, Describes entry o) ↔ ¬Malformed entry := by
  rcases h.cases with hmap | ⟨named, rfl, hnodup, hlegible, huntyped | ⟨type, htype⟩⟩
  · refine iff_of_false ?_ (not_not_intro (.notMapping hmap))
    rintro ⟨o, ⟨⟩⟩
    all_goals exact hmap _ rfl
  · refine iff_of_false ?_ (not_not_intro (.untyped huntyped))
    rintro ⟨o | o, hdescribes⟩
    · exact huntyped _ (describes_orientedConv_iff.mp hdescribes).1
    · exact huntyped _ (describes_similarity_iff.mp hdescribes).1
  · constructor
    · rintro ⟨o | o, hdescribes⟩
      · obtain ⟨htype', ht⟩ := describes_orientedConv_iff.mp hdescribes
        exact not_malformed HasOptions.lawful_orientedConv hnodup htype' rfl ht
      · obtain ⟨htype', ht⟩ := describes_similarity_iff.mp hdescribes
        exact not_malformed HasOptions.lawful_similarity hnodup htype' rfl ht
    · intro hnot
      cases hnames : namesOf? type with
      | none => exact absurd (.unknownType htype hnames) hnot
      | some names =>
        unfold namesOf? at hnames
        split at hnames
        · obtain ⟨t, ht⟩ := exists_of_not_malformed HasOptions.lawful_orientedConv takesAll_orientedConv hnodup hlegible
            htype rfl hnot
          exact ⟨_, .orientedConv htype ht⟩
        · obtain ⟨t, ht⟩ := exists_of_not_malformed HasOptions.lawful_similarity takesAll_similarity hnodup hlegible
            htype rfl hnot
          exact ⟨_, .similarity htype ht⟩
        · cases hnames

end Entries

/-! ### Options that are written out -/

/-- The value that a setting is written as; a filler is written option by option. -/
def writtenSetting : Setting → Value
  | .value v => v
  | .filler f => .map (Value.ofNamed f.fields)
  | .elementType _ => .null

def writtenOptions {τ : Type} [HasOptions τ] (t : τ) : List (String × Value) :=
  (HasOptions.fields t).map fun f => (f.1, writtenSetting f.2)

/-- The entry for the options of a layer. -/
def written : LayerOptions → Value
  | orientedConv o => .map (Value.ofNamed (("type", .text "GradOrientConvolution") :: writtenOptions o))
  | similarity o => .map (Value.ofNamed (("type", .text "SSIMLoss") :: writtenOptions o))

/-- A setting that can be written under a key: a filler for one, and no mapping in place of a filler. -/
def WritableAt (key : String) (s : Setting) : Prop :=
  (IsFillerKey key ∧ ∃ f, s = .filler f) ∨ ∃ v, s = .value v ∧ (IsFillerKey key → ∀ entries, v ≠ .map entries)

/-- The fillers of a layer are fillers, or values that are no mappings. -/
def Writable : LayerOptions → Prop
  | orientedConv o => WritableAt "weight_filler" o.weightFiller ∧ WritableAt "bias_filler" o.biasFiller
  | similarity _ => True

section Written

variable {τ : Type} [HasOptions τ] {t : τ} {key type : String} {s : Setting}

theorem readsFiller_fields (f : FillerOptions) : ReadsFiller f.fields f where
  known e he := by
    have hnames : f.fields.map (·.1) = optionNames FillerOptions := rfl
    rw [← hnames]
    exact List.mem_map_of_mem he
  read e he v hv := by
    obtain ⟨e', he', rfl⟩ := List.mem_map.mp he
    have hnodup : (f.fields.map (·.1)).Nodup := HasOptions.lawful_filler.nodup
    exact congrArg Setting.value (eq_of_mem_named hnodup he' hv)
  omitted e he h := by
    obtain ⟨e', he', rfl⟩ := List.mem_map.mp he
    exact absurd he' (h _)

theorem reads_writtenSetting (h : WritableAt key s) : Reads key (writtenSetting s) s := by
  rcases h with ⟨hkey, f, rfl⟩ | ⟨v, rfl, hplain⟩
  · exact .filler hkey (readsFiller_fields f)
  · exact .value hplain

theorem legible_writtenSetting (h : WritableAt key s) : LegibleValue key (writtenSetting s) := by
  intro hkey entries hentries
  rcases h with ⟨-, f, rfl⟩ | ⟨v, rfl, hplain⟩
  · exact ⟨f.fields, (Value.map.inj hentries).symm, HasOptions.lawful_filler.nodup⟩
  · exact absurd hentries (hplain hkey entries)

/-- Options that are written out are read as they were. -/
theorem readFrom_writtenOptions (hτ : HasOptions.Lawful τ) (h : ∀ f ∈ HasOptions.fields t, WritableAt f.1 f.2) :
    HasOptions.ReadFrom Reads t (writtenOptions t) where
  known e he := by
    obtain ⟨f, hf, rfl⟩ := List.mem_map.mp he
    rw [← hτ.names t]
    exact List.mem_map_of_mem hf
  read f hf v hv := by
    obtain ⟨f', hf', heq⟩ := List.mem_map.mp hv
    obtain ⟨hkey, rfl⟩ := Prod.ext_iff.mp heq
    have hnodup : ((HasOptions.fields t).map (·.1)).Nodup := by
      rw [hτ.names]
      exact hτ.nodup
    obtain rfl := List.inj_on_of_nodup_map hnodup hf' hf hkey
    exact reads_writtenSetting (h f' hf)
  omitted f hf hnone := absurd (List.mem_map_of_mem hf) (hnone _)

theorem names_writtenOptions (hτ : HasOptions.Lawful τ) (t : τ) : (writtenOptions t).map (·.1) = optionNames τ := by
  rw [← hτ.names t]
  exact List.map_map

theorem optionsAmong_written (hτ : HasOptions.Lawful τ) (htype : "type" ∉ optionNames τ)
    (hname : "name" ∉ optionNames τ) :
    optionsAmong (("type", .text type) :: writtenOptions t) = writtenOptions t := by
  unfold optionsAmong
  rw [List.filter_cons_of_neg (by simp), List.filter_eq_self]
  intro e he
  have hkey : e.1 ∈ optionNames τ := names_writtenOptions hτ t ▸ List.mem_map_of_mem he
  exact decide_eq_true ⟨fun h => htype (h ▸ hkey), fun h => hname (h ▸ hkey)⟩

theorem legible_written (hτ : HasOptions.Lawful τ) (htype : "type" ∉ optionNames τ)
    (h : ∀ f ∈ HasOptions.fields t, WritableAt f.1 f.2) :
    Legible (.map (Value.ofNamed (("type", .text type) :: writtenOptions t))) := by
  intro entries hentries
  have hnodup : ((("type", Value.text type) :: writtenOptions t).map (·.1)).Nodup := by
    rw [List.map_cons, names_writtenOptions hτ]
    exact List.nodup_cons.mpr ⟨htype, hτ.nodup⟩
  refine ⟨_, (Value.map.inj hentries).symm, hnodup, fun v hv => ⟨type, ?_⟩, fun e he => ?_⟩
  · exact eq_of_mem_named hnodup hv List.mem_cons_self
  · have hplain : ¬IsFillerKey "type" := by decide
    rcases List.mem_cons.mp he with rfl | he
    · exact fun hkey => absurd hkey hplain
    · obtain ⟨f, hf, rfl⟩ := List.mem_map.mp he
      exact legible_writtenSetting (h f hf)

theorem writableAt_similarity (o : SimilarityOptions) : ∀ f ∈ HasOptions.fields o, WritableAt f.1 f.2 := by
  simp only [HasOptions.fields, SimilarityOptions.fields, List.forall_mem_cons]
  refine ⟨?_, ?_, ?_, ?_, ?_, ?_, List.forall_mem_nil _⟩
  all_goals exact .inr ⟨_, rfl, fun hkey => absurd hkey (by decide)⟩

theorem writableAt_orientedConv {o : OrientedConvOptions} (h : (orientedConv o).Writable) :
    ∀ f ∈ HasOptions.fields o, WritableAt f.1 f.2 := by
  simp only [HasOptions.fields, OrientedConvOptions.fields, List.forall_mem_cons]
  refine ⟨?_, ?_, ?_, ?_, ?_, ?_, ?_, ?_, ?_, ?_, ?_, ?_, h.1, h.2, ?_, List.forall_mem_nil _⟩
  all_goals exact .inr ⟨_, rfl, fun hkey => absurd hkey (by decide)⟩

/-- Options that are written out are legible and describe themselves. -/
theorem describes_written {o : LayerOptions} (h : o.Writable) : Legible o.written ∧ Describes o.written o := by
  cases o with
  | orientedConv o =>
    have hwritable := writableAt_orientedConv h
    refine ⟨legible_written HasOptions.lawful_orientedConv (by decide) hwritable, .orientedConv List.mem_cons_self ?_⟩
    rw [optionsAmong_written HasOptions.lawful_orientedConv (by decide) (by decide)]
    exact readFrom_writtenOptions HasOptions.lawful_orientedConv hwritable
  | similarity o =>
    have hwritable := writableAt_similarity o
    refine ⟨legible_written HasOptions.lawful_similarity (by decide) hwritable, .similarity List.mem_cons_self ?_⟩
    rw [optionsAmong_written HasOptions.lawful_similarity (by decide) (by decide)]
    exact readFrom_writtenOptions HasOptions.lawful_similarity hwritable

end Written

end LayerOptions

/-! ### Descriptions -/

open LayerOptions in
/-- A description of legible entries is decoded or refused as bad options. -/
theorem reported_of_legible {top : List (Value × Value)} {items : List Value}
    (hlayers : Value.lookup? top "layers" = some (.list items)) (h : ∀ e ∈ items, Legible e) :
    Reported (layersOf (.map top)) := by
  refine reported_of_texts fun entries items' hentries hitems options hoptions => ?_
  obtain rfl := Value.map.inj hentries
  obtain rfl : items = items' := Value.list.inj (Option.some.inj (hlayers.symm.trans hitems))
  obtain ⟨named, rfl, hnodup, htext, -⟩ := h _ hoptions options rfl
  refine ⟨fun e he => ?_, fun v hv => ?_⟩
  · obtain ⟨e, -, rfl⟩ := List.mem_map.mp he
    exact ⟨e.1, rfl⟩
  · obtain ⟨type, rfl⟩ := htext v (Value.mem_of_lookup? hv)
    rfl

def writtenLayers (layers : List LayerOptions) : Value :=
  .map [(.text "layers", .list (layers.map LayerOptions.written))]

theorem layersOf_eq_ok_iff {top : List (Value × Value)} {items : List Value}
    (hlayers : Value.lookup? top "layers" = some (.list items)) (h : ∀ e ∈ items, LayerOptions.Legible e)
    {layers : List LayerOptions} :
    layersOf (.map top) = .ok layers ↔ List.Forall₂ LayerOptions.Describes items layers := by
  have hmap : layersOf (.map top) = items.mapM LayerOptions.ofEntry := by
    unfold layersOf
    dsimp only
    rw [hlayers]
  rw [hmap, mapM_eq_ok_iff]
  constructor
  · intro hall
    refine ((List.forall₂_and_left _ _).mpr ⟨h, hall⟩).imp fun e o hboth => ?_
    exact (LayerOptions.ofEntry_eq_ok_iff hboth.1).mp hboth.2
  · intro hall
    refine ((List.forall₂_and_left _ _).mpr ⟨h, hall⟩).imp fun e o hboth => ?_
    exact (LayerOptions.ofEntry_eq_ok_iff hboth.1).mpr hboth.2

/-- There are options for all entries exactly if none is malformed. -/
theorem exists_layers_iff {items : List Value} (h : ∀ e ∈ items, LayerOptions.Legible e) :
    (∃ layers, List.Forall₂ LayerOptions.Describes items layers) ↔ ¬∃ e ∈ items, LayerOptions.Malformed e := by
  induction items with
  | nil => exact iff_of_true ⟨[], .nil⟩ (by simp)
  | cons e rest ih =>
    obtain ⟨he, hrest⟩ := List.forall_mem_cons.mp h
    rw [List.exists_mem_cons_iff, not_or, ← LayerOptions.exists_describes_iff he, ← ih hrest]
    constructor
    · rintro ⟨_, hall⟩
      cases hall with
      | cons hone hall => exact ⟨⟨_, hone⟩, _, hall⟩
    · rintro ⟨⟨o, hone⟩, layers, hall⟩
      exact ⟨o :: layers, .cons hone hall⟩

/-- A description of legible entries is decoded exactly to the options that its entries describe, in order; it is
refused as bad options exactly if an entry is malformed, and nothing else happens. Layers that are written out are
decoded to what they were. -/
theorem decoding_exact :
    (∀ (top : List (Value × Value)) (items : List Value), Value.lookup? top "layers" = some (.list items) →
      (∀ e ∈ items, LayerOptions.Legible e) →
      (∀ layers, layersOf (.map top) = .ok layers ↔ List.Forall₂ LayerOptions.Describes items layers) ∧
      ((∃ cause, layersOf (.map top) = .error (.option cause)) ↔ ∃ e ∈ items, LayerOptions.Malformed e) ∧
      ((∃ layers, layersOf (.map top) = .ok layers) ∨ ∃ cause, layersOf (.map top) = .error (.option cause))) ∧
    ∀ layers : List LayerOptions, (∀ o ∈ layers, o.Writable) → layersOf (writtenLayers layers) = .ok layers := by
  refine ⟨fun top items hlayers h => ⟨fun layers => layersOf_eq_ok_iff hlayers h, ?_, reported_of_legible hlayers h⟩,
    fun layers hwritable => ?_⟩
  · rw [← not_iff_not, ← exists_layers_iff h]
    constructor
    · intro hnone
      obtain ⟨layers, hok⟩ := (reported_of_legible hlayers h).resolve_right hnone
      exact ⟨layers, (layersOf_eq_ok_iff hlayers h).mp hok⟩
    · rintro ⟨layers, hall⟩ ⟨cause, hcause⟩
      cases hcause.symm.trans ((layersOf_eq_ok_iff hlayers h).mpr hall)
  · have hlegible : ∀ e ∈ layers.map LayerOptions.written, LayerOptions.Legible e := by
      intro e he
      obtain ⟨o, ho, rfl⟩ := List.mem_map.mp he
      exact (LayerOptions.describes_written (hwritable o ho)).1
    have hlayers : Value.lookup? [(.text "layers", .list (layers.map LayerOptions.written))] "layers" =
        some (.list (layers.map LayerOptions.written)) := rfl
    refine (layersOf_eq_ok_iff hlayers hlegible).mpr ?_
    rw [List.forall₂_map_left_iff, List.forall₂_same]
    exact fun o ho => (LayerOptions.describes_written (hwritable o ho)).2

/-- An entry with a name, options of its own and a filler of which two values are given. -/
def namedEntry : List (String × Value) :=
  [("name", .text "edges"), ("num_output", .int 2), ("type", .text "GradOrientConvolution"), ("kernel_size", .int 3),
    ("pad", .int 1), ("weight_filler", .map (Value.ofNamed [("min", .int (-1)), ("type", .text "uniform")]))]

/-- What the entry describes. -/
def namedOptions : OrientedConvOptions where
  numOutput := .int 2
  kernelSize := .int 3
  pad := .int 1
  weightFiller := .filler { type := .text "uniform", min := .int (-1) }

theorem legible_namedEntry : LayerOptions.Legible (.map (Value.ofNamed namedEntry)) := by
  intro entries hentries
  refine ⟨namedEntry, (Value.map.inj hentries).symm, by decide, fun v hv => ?_, fun e he hkey entries' hmap => ?_⟩
  · exact ⟨"GradOrientConvolution", eq_of_mem_named (by decide) hv (by simp [namedEntry])⟩
  · have hfiller : e = ("weight_filler", .map (Value.ofNamed [("min", .int (-1)), ("type", .text "uniform")])) := by
      simp only [namedEntry, List.mem_cons, List.not_mem_nil, or_false] at he
      rcases he with rfl | rfl | rfl | rfl | rfl | rfl
      all_goals first | rfl | exact absurd hkey (by decide)
    rw [hfiller] at hmap
    exact ⟨_, (Value.map.inj hmap).symm, by decide⟩

/-- The entry is decoded to what it describes, the options come back when they are written out after those of a
comparator, and a comparator with an option that it does not have is refused. -/
theorem decoding_exact_sample :
    layersOf (singleLayer (Value.ofNamed namedEntry)) = .ok [.orientedConv namedOptions] ∧
      LayerOptions.Describes (.map (Value.ofNamed namedEntry)) (.orientedConv namedOptions) ∧
      layersOf (writtenLayers [.similarity { kernelSize := .int 7 }, .orientedConv namedOptions]) =
        .ok [.similarity { kernelSize := .int 7 }, .orientedConv namedOptions] ∧
      ∃ cause, layersOf (singleLayer [(.text "type", .text "SSIMLoss"), (.text "size", .null)]) =
        .error (.option cause) := by
  obtain ⟨hdecoded, hwritten⟩ := decoding_exact
  have hnamed : layersOf (singleLayer (Value.ofNamed namedEntry)) = .ok [.orientedConv namedOptions] := rfl
  refine ⟨hnamed, ?_, hwritten _ fun o ho => ?_, ?_⟩
  · have hall := ((hdecoded _ _ rfl (List.forall_mem_singleton.mpr legible_namedEntry)).1 _).mp hnamed
    exact (List.forall₂_cons.mp hall).1
  · rcases List.mem_cons.mp ho with rfl | ho
    · trivial
    · rw [List.mem_singleton.mp ho]
      exact ⟨.inl ⟨.inl rfl, _, rfl⟩, .inl ⟨.inr rfl, _, rfl⟩⟩
  · let named : List (String × Value) := [("type", .text "SSIMLoss"), ("size", .null)]
    have hlegible : ∀ e ∈ [Value.map (Value.ofNamed named)], LayerOptions.Legible e := by
      intro e he entries hentries
      rw [List.mem_singleton.mp he] at hentries
      refine ⟨named, (Value.map.inj hentries).symm, by decide, fun v hv => ?_, fun e he => ?_⟩
      · exact ⟨"SSIMLoss", eq_of_mem_named (by decide) hv List.mem_cons_self⟩
      · have hplain : ∀ key ∈ named.map (·.1), ¬LayerOptions.IsFillerKey key := by decide
        exact fun hkey => absurd hkey (hplain _ (List.mem_map_of_mem he))
    have hsize : ("size", .null) ∈ LayerOptions.optionsAmong named :=
      List.mem_filter.mpr ⟨List.mem_cons_of_mem _ List.mem_cons_self, by decide⟩
    refine (hdecoded _ _ rfl hlegible).2.1.mpr ⟨_, List.mem_cons_self, ?_⟩
    exact .unknownOption List.mem_cons_self rfl hsize (by decide)

end SteeredConv
