/-
# Options are changed in order, up to the first stray name

An update gives settings by name, each name once. They are applied one by one in the order in
which they are given, so a name that is no option stops the update there: the settings before it
are kept, and those behind it are not looked at. An update is refused exactly if it has such a
stray name. Without one it changes the options that it names, and these alone.

A record also answers to the names of its operations and to those that every record inherits.
These are no options, yet an update takes them; `options_changed_up_to_stray` leaves open what
follows if one of them is the first stray name.

Key definitions: `OptionSet.Options`, `HasOptions.Holds`, `Keywords`, `Keywords.applied`,
`Keywords.stray?`, `HasOptions.Answering`, `Fault.OfName`.
Key theorems: `HasOptions.Lawful.get?_setAll_of_mem`, `HasOptions.Lawful.get?_setAll_of_not_mem`,
`OptionRecord.update_eq_of_setAll`, `OptionRecord.update_append`, `OptionRecord.assign_of_stray`,
`options_changed_up_to_stray`.
-/
import SteeredConv.Options.Inquiry
import SteeredConv.Proofs.Decoding

namespace SteeredConv

open LayerOptions (optionNames IsFillerKey)

/-! ### The five sets of options -/

def OptionSet.Options : OptionSet → Type
  | globals => GlobalOptions
  | filler => FillerOptions
  | gaussian => GaussianOptions
  | orientedConv => OrientedConvOptions
  | similarity => SimilarityOptions

instance inquirableOptions : (set : OptionSet) → Inquirable set.Options
  | .globals => inferInstanceAs (Inquirable GlobalOptions)
  | .filler => inferInstanceAs (Inquirable FillerOptions)
  | .gaussian => inferInstanceAs (Inquirable GaussianOptions)
  | .orientedConv => inferInstanceAs (Inquirable OrientedConvOptions)
  | .similarity => inferInstanceAs (Inquirable SimilarityOptions)

namespace HasOptions

theorem lawful_globals : Lawful GlobalOptions where
  names _ := rfl
  nodup := by decide
  ext t t' h := by
    cases t
    cases t'
    simpa [fields, GlobalOptions.fields] using h
  set {t t' key s} h := by
    change GlobalOptions.set? t key s = some t' at h
    unfold GlobalOptions.set? at h
    split at h
    case h_6 => cases h
    all_goals
      obtain rfl := Option.some.inj h
      exact ⟨by decide, by simp [fields, GlobalOptions.fields]⟩

theorem lawful_gaussian : Lawful GaussianOptions where
  names _ := rfl
  nodup := by decide
  ext t t' h := by
    cases t
    cases t'
    simpa [fields, GaussianOptions.fields] using h
  set {t t' key s} h := by
    cases s with
    | value v =>
      change GaussianOptions.set? t key (.value v) = some t' at h
      unfold GaussianOptions.set? at h
      dsimp only at h
      split at h
      case h_9 => cases h
      all_goals
        obtain rfl := Option.some.inj h
        exact ⟨by decide, by simp [fields, GaussianOptions.fields]⟩
    | _ => cases h

theorem lawful_options : (set : OptionSet) → Lawful set.Options
  | .globals => lawful_globals
  | .filler => lawful_filler
  | .gaussian => lawful_gaussian
  | .orientedConv => lawful_orientedConv
  | .similarity => lawful_similarity

/-- Whether an option of a set can hold a setting. Every option holds values; fillers and element
types are held by the options shared by all operators and by the fillers of a layer. -/
def Holds (set : OptionSet) (key : String) : Setting → Prop
  | .value _ => True
  | .filler _ | .elementType _ => set = .globals ∨ IsFillerKey key

theorem exists_set?_globals (t : GlobalOptions) (s : Setting) :
    ∀ key ∈ optionNames GlobalOptions, ∃ t', set? t key s = some t' := by
  simp [optionNames, fields, GlobalOptions.fields, set?, GlobalOptions.set?]

theorem exists_set?_gaussian (t : GaussianOptions) (v : Value) :
    ∀ key ∈ optionNames GaussianOptions, ∃ t', set? t key (.value v) = some t' := by
  simp [optionNames, fields, GaussianOptions.fields, set?, GaussianOptions.set?]

theorem exists_set?_similarity (t : SimilarityOptions) (v : Value) :
    ∀ key ∈ optionNames SimilarityOptions, ∃ t', set? t key (.value v) = some t' := by
  simp [optionNames, fields, SimilarityOptions.fields, set?, SimilarityOptions.set?]

theorem exists_set?_orientedConv (t : OrientedConvOptions) (v : Value) :
    ∀ key ∈ optionNames OrientedConvOptions, ∃ t', set? t key (.value v) = some t' := by
  simp [optionNames, fields, OrientedConvOptions.fields, set?, OrientedConvOptions.set?,
    OrientedConvOptions.setValue?]

theorem exists_set?_of_isFillerKey (t : OrientedConvOptions) {key : String} (hkey : IsFillerKey key) (s : Setting) :
    ∃ t', set? t key s = some t' := by
  rcases hkey with rfl | rfl
  · exact ⟨{ t with weightFiller := s }, rfl⟩
  · exact ⟨{ t with biasFiller := s }, rfl⟩

theorem eq_orientedConv_of_isFillerKey {set : OptionSet} {key : String} (hkey : key ∈ optionNames set.Options)
    (hfiller : IsFillerKey key) : set = .orientedConv := by
  rcases hfiller with rfl | rfl <;> revert hkey <;> cases set <;> decide

/-- An option takes what it can hold. -/
theorem exists_set? {set : OptionSet} {key : String} {s : Setting} (hkey : key ∈ optionNames set.Options)
    (hs : Holds set key s) (t : set.Options) : ∃ t', set? t key s = some t' := by
  have hother (h : set = .globals ∨ IsFillerKey key) : ∃ t', set? t key s = some t' := by
    rcases h with rfl | hfiller
    · exact exists_set?_globals t s key hkey
    · obtain rfl := eq_orientedConv_of_isFillerKey hkey hfiller
      exact exists_set?_of_isFillerKey t hfiller s
  cases s with
  | value v =>
    cases set with
    | globals => exact exists_set?_globals t (.value v) key hkey
    | filler => exact LayerOptions.exists_set?_filler t hkey v
    | gaussian => exact exists_set?_gaussian t v key hkey
    | orientedConv => exact exists_set?_orientedConv t v key hkey
    | similarity => exact exists_set?_similarity t v key hkey
  | filler f => exact hother hs
  | elementType e => exact hother hs

/-! ### Settings by name -/

namespace Lawful

variable {τ : Type} [HasOptions τ] {t t' : τ} {key : String} {s : Setting} {settings : List (String × Setting)}

theorem nodup_fields (h : Lawful τ) (t : τ) : ((fields t).map (·.1)).Nodup := by
  rw [h.names]
  exact h.nodup

/-- The setting of an option is the one that stands beside its name. -/
theorem get?_eq_some_iff (h : Lawful τ) : get? t key = some s ↔ (key, s) ∈ fields t := by
  unfold get?
  rw [Option.map_eq_some_iff]
  constructor
  · rintro ⟨⟨name, s'⟩, hfind, rfl⟩
    obtain rfl : name = key := by simpa using List.find?_some hfind
    exact List.mem_of_find?_eq_some hfind
  · intro hmem
    have hsome : ((fields t).find? fun f => f.1 = key).isSome := List.find?_isSome.mpr ⟨_, hmem, by simp⟩
    obtain ⟨⟨name, s'⟩, hfind⟩ := Option.isSome_iff_exists.mp hsome
    obtain rfl : name = key := by simpa using List.find?_some hfind
    exact ⟨_, hfind, eq_of_mem_named (h.nodup_fields t) (List.mem_of_find?_eq_some hfind) hmem⟩

theorem exists_mem_fields (h : Lawful τ) (hkey : key ∈ optionNames τ) (t : τ) : ∃ s, (key, s) ∈ fields t := by
  rw [← h.names t, List.mem_map] at hkey
  obtain ⟨⟨_, s⟩, hmem, rfl⟩ := hkey
  exact ⟨s, hmem⟩

theorem get?_eq_none (h : Lawful τ) (hkey : key ∉ optionNames τ) (t : τ) : get? t key = none := by
  by_contra hne
  obtain ⟨s, hs⟩ := Option.ne_none_iff_exists'.mp hne
  refine hkey ?_
  rw [← h.names t]
  exact List.mem_map_of_mem (h.get?_eq_some_iff.mp hs)

/-- What is set has the given setting afterwards. -/
theorem get?_setAll_of_mem (h : Lawful τ) (hnodup : (settings.map (·.1)).Nodup) (hset : setAll t settings = .ok t')
    (hmem : (key, s) ∈ settings) : get? t' key = some s := by
  obtain ⟨hknown, hfields⟩ := h.setAll_spec hset
  obtain ⟨s', hs'⟩ := h.exists_mem_fields (hknown _ hmem) t'
  rcases hfields _ hs' with hgiven | ⟨-, hnot⟩
  · rw [h.get?_eq_some_iff, eq_of_mem_named hnodup hmem hgiven]
    exact hs'
  · exact absurd (List.mem_map_of_mem hmem) hnot

/-- What is not set has the setting it had. -/
theorem get?_setAll_of_not_mem (h : Lawful τ) (hset : setAll t settings = .ok t') (hkey : key ∉ settings.map (·.1)) :
    get? t' key = get? t key := by
  by_cases hdeclared : key ∈ optionNames τ
  · obtain ⟨s, hs⟩ := h.exists_mem_fields hdeclared t'
    rcases (h.setAll_spec hset).2 _ hs with hgiven | ⟨hbefore, -⟩
    · exact absurd (List.mem_map_of_mem hgiven) hkey
    · rw [h.get?_eq_some_iff.mpr hs, h.get?_eq_some_iff.mpr hbefore]
  · rw [h.get?_eq_none hdeclared, h.get?_eq_none hdeclared]

end Lawful

/-- The names that a record answers to although they are no options: its operations and what every record
inherits. -/
def Answering (τ : Type) [HasOptions τ] (key : String) : Prop :=
  key ∈ operations τ ∨ key ∈ OptionRecord.inherited ∨ key = "__class__" ∨ key = "__dict__"

instance decidableAnswering (τ : Type) [HasOptions τ] : DecidablePred (Answering τ) := fun key =>
  inferInstanceAs (Decidable (key ∈ operations τ ∨ key ∈ OptionRecord.inherited ∨ key = "__class__" ∨ key = "__dict__"))

end HasOptions

/-- A fault of a name that cannot be set. -/
def Fault.OfName : Fault → Prop
  | .unknownOption _ _ | .noAttribute _ => True
  | _ => False

/-! ### Applying settings in order -/

namespace OptionRecord

variable {τ : Type} [HasOptions τ] {r r' : OptionRecord τ} {key : String} {settings : List (String × Setting)}

/-- An update whose settings are all taken sets the options and hides nothing. -/
theorem update_eq_of_setAll {t : τ} (h : HasOptions.setAll r.options settings = .ok t) :
    r.update settings = ({ r with options := t }, .ok ()) := by
  induction settings generalizing r with
  | nil =>
    obtain rfl := Except.ok.inj h
    rfl
  | cons e rest ih =>
    obtain ⟨key, s⟩ := e
    unfold HasOptions.setAll at h
    cases hone : HasOptions.set? r.options key s with
    | none =>
      rw [hone] at h
      cases h
    | some t₁ =>
      rw [hone] at h
      rw [update_known hone]
      exact ih (r := { r with options := t₁ }) h

/-- What follows settings that are taken is applied to the record they leave. -/
theorem update_append (h : r.update settings = (r', .ok ())) (rest : List (String × Setting)) :
    r.update (settings ++ rest) = r'.update rest := by
  induction settings generalizing r with
  | nil =>
    obtain rfl : r = r' := congrArg Prod.fst h
    rfl
  | cons e more ih =>
    obtain ⟨key, s⟩ := e
    unfold update at h
    cases hone : r.assign key s with
    | error f =>
      rw [hone] at h
      cases congrArg Prod.snd h
    | ok r₁ =>
      rw [hone] at h
      rw [List.cons_append, update, hone]
      exact ih h

/-- A name that the record does not answer to is refused. -/
theorem assign_of_stray (hτ : HasOptions.Lawful τ) (hkey : key ∉ optionNames τ) (h : ¬HasOptions.Answering τ key)
    (r : OptionRecord τ) (s : Setting) : ∃ e : Fault, e.OfName ∧ r.assign key s = .error e := by
  have hset : HasOptions.set? r.options key s = none := by
    by_contra hne
    obtain ⟨t, ht⟩ := Option.ne_none_iff_exists'.mp hne
    exact hkey (hτ.set ht).1
  simp only [HasOptions.Answering, not_or] at h
  obtain ⟨hoperation, hinherited, hclass, hdict⟩ := h
  unfold assign
  rw [hset]
  dsimp only
  rw [if_neg (not_or.mpr ⟨hoperation, hinherited⟩)]
  split_ifs with hview hweak hplace
  · exact ⟨.noAttribute _, trivial, rfl⟩
  · exact ⟨.noAttribute _, trivial, rfl⟩
  · exact absurd hplace (not_or.mpr ⟨hclass, hdict⟩)
  · exact ⟨.unknownOption _ _, trivial, rfl⟩

theorem change_eq {τ : Type} [Inquirable τ] {r : OptionRecord τ} {settings : List (String × Setting)}
    (hanswers : r.answers "update_config" = .ok ()) (hfree : "self" ∉ settings.map (·.1)) :
    r.change settings = ((r.update settings).1,
      (r.update settings).2.map fun () => .changed (Inquirable.pack (r.update settings).1.options)) := by
  have hself : ¬(settings.any fun e => e.1 = "self") := by simpa using hfree
  unfold change
  rw [hanswers]
  dsimp only
  rw [if_neg hself]

end OptionRecord

/-! ### Updates by keywords -/

/-- Settings as they are given to an update: in order, each name once, and what is given for an option is something
that it can hold. The name of the record in the update itself cannot be given. -/
structure Keywords (set : OptionSet) where
  entries : List (String × Setting)
  nodup : (entries.map (·.1)).Nodup
  free : "self" ∉ entries.map (·.1)
  holds : ∀ e ∈ entries, e.1 ∈ optionNames set.Options → HasOptions.Holds set e.1 e.2

namespace Keywords

variable {set : OptionSet}

def names (k : Keywords set) : List String := k.entries.map (·.1)

/-- The settings before the first name that is no option. -/
def applied (k : Keywords set) : List (String × Setting) :=
  k.entries.takeWhile fun e => e.1 ∈ optionNames set.Options

/-- The first name that is no option. -/
def stray? (k : Keywords set) : Option String := k.names.find? (· ∉ optionNames set.Options)

/-- Either no name is stray and all settings are applied, or the settings are those that are applied, the stray one
and the rest. -/
theorem split_at_stray (k : Keywords set) :
    k.stray? = none ∧ (∀ key ∈ k.names, key ∈ optionNames set.Options) ∧ k.applied = k.entries ∨
      ∃ key s rest, k.stray? = some key ∧ key ∉ optionNames set.Options ∧
        k.entries = k.applied ++ (key, s) :: rest := by
  unfold stray? names applied
  -- Nothing is needed of the keywords here but their order, so the induction is on any list of settings.
  induction k.entries with
  | nil => exact .inl ⟨rfl, by simp, rfl⟩
  | cons e more ih =>
    by_cases he : e.1 ∈ optionNames set.Options
    · simp only [List.map_cons, List.find?_cons, List.takeWhile_cons, List.forall_mem_cons, he, not_true, decide_true,
        decide_false, if_true, true_and]
      rcases ih with ⟨hnone, hall, htake⟩ | ⟨key, s, rest, hsome, hkey, hsplit⟩
      · exact .inl ⟨hnone, hall, congrArg (e :: ·) htake⟩
      · exact .inr ⟨key, s, rest, hsome, hkey, congrArg (e :: ·) hsplit⟩
    · refine .inr ⟨e.1, e.2, more, ?_, he, ?_⟩
      · simp [he]
      · simp [he]

theorem exists_setAll_applied (k : Keywords set) (t : set.Options) :
    ∃ t', HasOptions.setAll t k.applied = .ok t' := by
  refine HasOptions.Lawful.exists_setAll (fun e he => ?_) t
  have hdeclared : e.1 ∈ optionNames set.Options := of_decide_eq_true (List.all_eq_true.mp List.all_takeWhile e he)
  have hmem : e ∈ k.entries := (List.takeWhile_sublist _).subset he
  exact HasOptions.exists_set? hdeclared (k.holds e hmem hdeclared)

theorem nodup_applied (k : Keywords set) : (k.applied.map (·.1)).Nodup :=
  k.nodup.sublist ((List.takeWhile_sublist _).map _)

end Keywords

/-- An update sets the options that it names before its first stray name, and changes nothing else. It is refused
exactly if there is a stray name, and otherwise it sets every option that it names. -/
theorem options_changed_up_to_stray (set : OptionSet) (r : OptionRecord set.Options) (k : Keywords set)
    (hanswers : r.answers "update_config" = .ok ())
    (hstray : ∀ key, k.stray? = some key → ¬HasOptions.Answering set.Options key) :
    ∃ (t : set.Options) (outcome : Except Fault Answer), r.change k.entries = ({ r with options := t }, outcome) ∧
      (∀ e ∈ k.applied, HasOptions.get? t e.1 = some e.2) ∧
      (∀ key ∉ k.applied.map (·.1), HasOptions.get? t key = HasOptions.get? r.options key) ∧
      ((∃ e : Fault, e.OfName ∧ outcome = .error e) ↔ ∃ key ∈ k.names, key ∉ optionNames set.Options) ∧
      ((∀ key ∈ k.names, key ∈ optionNames set.Options) →
        k.applied = k.entries ∧ outcome = .ok (.changed (Inquirable.pack t))) := by
  have hlawful := HasOptions.lawful_options set
  -- Up to the stray name nothing is refused, so there the update sets options as if it were building a set.
  obtain ⟨t, ht⟩ := k.exists_setAll_applied r.options
  have happlied : r.update k.applied = ({ r with options := t }, .ok ()) := OptionRecord.update_eq_of_setAll ht
  have hgiven : ∀ e ∈ k.applied, HasOptions.get? t e.1 = some e.2 := fun e he =>
    hlawful.get?_setAll_of_mem k.nodup_applied ht he
  have hkept : ∀ key ∉ k.applied.map (·.1), HasOptions.get? t key = HasOptions.get? r.options key := fun key hkey =>
    hlawful.get?_setAll_of_not_mem ht hkey
  rcases k.split_at_stray with ⟨-, hall, hwhole⟩ | ⟨key, s, rest, hfirst, hkey, hsplit⟩
  · refine ⟨t, .ok (.changed (Inquirable.pack t)), ?_, hgiven, hkept, ?_, fun _ => ⟨hwhole, rfl⟩⟩
    · rw [OptionRecord.change_eq hanswers k.free, ← hwhole, happlied]
      rfl
    · constructor
      · rintro ⟨e, -, he⟩
        cases he
      · rintro ⟨key, hmem, hkey⟩
        exact absurd (hall key hmem) hkey
  · obtain ⟨e, hname, he⟩ :=
      OptionRecord.assign_of_stray hlawful hkey (hstray key hfirst) { r with options := t } s
    have hmem : key ∈ k.names := by
      unfold Keywords.names
      rw [hsplit]
      simp
    refine ⟨t, .error e, ?_, hgiven, hkept, ?_, fun hall => absurd (hall key hmem) hkey⟩
    · rw [OptionRecord.change_eq hanswers k.free, hsplit, OptionRecord.update_append happlied, OptionRecord.update, he]
      rfl
    · exact iff_of_true ⟨e, hname, rfl⟩ ⟨key, hmem, hkey⟩

/-- Two options with a name between them that is none. -/
def misspelt : Keywords .orientedConv where
  entries := [("group", .value (.int 2)), ("window", .value (.int 1)), ("pad", .value (.int 1))]
  nodup := by decide
  free := by decide
  holds := by simp [HasOptions.Holds]

theorem options_changed_up_to_stray_misspelt :
    ∃ (o : OrientedConvOptions) (outcome : Except Fault Answer),
      (OptionRecord.ofOptions (HasOptions.default : OrientedConvOptions)).change misspelt.entries =
        (OptionRecord.ofOptions o, outcome) ∧
      HasOptions.get? o "group" = some (.value (.int 2)) ∧ HasOptions.get? o "pad" = some (.value .null) ∧
      ∃ e : Fault, e.OfName ∧ outcome = .error e := by
  have hstray : misspelt.stray? = some "window" := by decide
  obtain ⟨o, outcome, hchange, hgiven, hkept, hrefused, -⟩ :=
    options_changed_up_to_stray .orientedConv (OptionRecord.ofOptions (HasOptions.default : OrientedConvOptions))
      misspelt
      rfl fun key hkey => by
        obtain rfl := Option.some.inj (hstray.symm.trans hkey)
        decide
  exact ⟨o, outcome, hchange, hgiven ("group", .value (.int 2)) List.mem_cons_self, hkept "pad" (by decide),
    hrefused.mpr ⟨"window", by decide, by decide⟩⟩

/-- A refused change keeps what it set before, and the name of an operation is taken as if it were an option. -/
theorem refused_change_is_kept :
    let o : OrientedConvOptions := { numOutput := .int 2, kernelSize := .int 3 }
    (OptionRecord.ofOptions o).change [("group", .value (.int 2)), ("window", .value (.int 1))] =
        (OptionRecord.ofOptions { o with group := .int 2 }, .error (.unknownOption .orientedConv "window")) ∧
      ({ o with group := .int 2 } : OrientedConvOptions) ≠ o ∧
      "resolve" ∉ optionNames OrientedConvOptions ∧
      ((OptionRecord.ofOptions o).change [("resolve", .value (.int 1))]).2 = .ok (.changed (.orientedConv o)) := by
  refine ⟨rfl, fun h => ?_, by decide, rfl⟩
  have hgroup : Value.int 2 = Value.int 1 := congrArg OrientedConvOptions.group h
  cases hgroup

end SteeredConv
