/-
# Which descriptions are refused in words

A description that is malformed is meant to be refused as bad options. Two things in an
entry escape that: a type that cannot be looked up, being a list, a set or a mapping,
and, for a type that is known, unknown keys that have no common order, which are sorted
before they are reported. `layers_reported_iff` says that nothing else does.

Key definitions: `Reported`, `Value.Comparable`, `LayerOptions.unknownKeys`,
`LayerOptions.Unreported`, `UnreportedDescription`.
Key theorems: `LayerOptions.ordered_cases`, `LayerOptions.decode_cases`, `LayerOptions.ofEntry_cases`,
`layersOf_cases`, `layers_reported_iff`.
-/
import Mathlib.Data.List.Forall2
import Mathlib.Data.List.Pairwise
import SteeredConv.Options.Description
import SteeredConv.Proofs.Outcome

namespace SteeredConv

/-! ### Results that are reported -/

/-- A result, or a refusal of options. -/
def Reported {β : Type} (r : Except Fault β) : Prop := (∃ b, r = .ok b) ∨ ∃ cause, r = .error (.option cause)

section Reported

variable {β γ : Type}

theorem reported_ok (b : β) : Reported (.ok b) := .inl ⟨b, rfl⟩

theorem reported_option (cause : OptionFault) : Reported (.error (.option cause) : Except Fault β) :=
  .inr ⟨cause, rfl⟩

theorem Reported.bind {r : Except Fault β} {f : β → Except Fault γ} (hr : Reported r)
    (hf : ∀ b, r = .ok b → Reported (f b)) : Reported (r >>= f) := by
  rcases hr with ⟨b, rfl⟩ | ⟨cause, rfl⟩
  · exact hf b rfl
  · exact reported_option cause

theorem Reported.map {r : Except Fault β} (hr : Reported r) (f : β → γ) : Reported (r.map f) := by
  rcases hr with ⟨b, rfl⟩ | ⟨cause, rfl⟩
  · exact reported_ok (f b)
  · exact reported_option cause

theorem reported_mapM {f : β → Except Fault γ} {bs : List β} (hf : ∀ b ∈ bs, Reported (f b)) :
    Reported (bs.mapM f) := by
  induction bs with
  | nil => exact reported_ok []
  | cons b rest ih =>
    rw [List.mapM_cons]
    refine (hf b List.mem_cons_self).bind fun c _ => ?_
    refine (ih fun b' hb' => hf b' (List.mem_cons_of_mem b hb')).bind fun cs _ => ?_
    exact reported_ok (c :: cs)

/-- Every member of a list of results is the result of a member. -/
theorem exists_of_mem_mapM {f : β → Except Fault γ} {bs : List β} {cs : List γ} (h : bs.mapM f = .ok cs)
    {c : γ} (hc : c ∈ cs) : ∃ b ∈ bs, f b = .ok c := by
  induction bs generalizing cs with
  | nil =>
    obtain rfl : [] = cs := Except.ok.inj h
    exact absurd hc List.not_mem_nil
  | cons b rest ih =>
    rw [List.mapM_cons] at h
    obtain ⟨c', hb, h⟩ := bind_eq_ok_iff.mp h
    obtain ⟨cs', hrest, h⟩ := bind_eq_ok_iff.mp h
    obtain rfl : c' :: cs' = cs := Except.ok.inj h
    rcases List.mem_cons.mp hc with rfl | hc
    · exact ⟨b, List.mem_cons_self, hb⟩
    · obtain ⟨b', hb', hc⟩ := ih hrest hc
      exact ⟨b', List.mem_cons_of_mem b hb', hc⟩

/-- The members of a list of results are those of the members, in order. -/
theorem mapM_eq_ok_iff {f : β → Except Fault γ} {bs : List β} {cs : List γ} :
    bs.mapM f = .ok cs ↔ List.Forall₂ (fun b c => f b = .ok c) bs cs := by
  induction bs generalizing cs with
  | nil =>
    rw [List.forall₂_nil_left_iff]
    exact ⟨fun h => (Except.ok.inj h).symm, fun h => h ▸ rfl⟩
  | cons b rest ih =>
    rw [List.mapM_cons, bind_eq_ok_iff, List.forall₂_cons_left_iff]
    constructor
    · rintro ⟨c, hc, h⟩
      obtain ⟨cs', hcs', h⟩ := bind_eq_ok_iff.mp h
      exact ⟨c, cs', hc, ih.mp hcs', (Except.ok.inj h).symm⟩
    · rintro ⟨c, cs', hc, hcs', rfl⟩
      exact ⟨c, hc, bind_eq_ok_iff.mpr ⟨cs', ih.mpr hcs', rfl⟩⟩

/-- Every member of a list has a result among those of the list. -/
theorem exists_mem_mapM {f : β → Except Fault γ} {bs : List β} {cs : List γ} (h : bs.mapM f = .ok cs)
    {b : β} (hb : b ∈ bs) : ∃ c ∈ cs, f b = .ok c := by
  induction bs generalizing cs with
  | nil => exact absurd hb List.not_mem_nil
  | cons b' rest ih =>
    rw [List.mapM_cons] at h
    obtain ⟨c, hc, h⟩ := bind_eq_ok_iff.mp h
    obtain ⟨cs', hrest, h⟩ := bind_eq_ok_iff.mp h
    obtain rfl : c :: cs' = cs := Except.ok.inj h
    rcases List.mem_cons.mp hb with rfl | hb
    · exact ⟨c, List.mem_cons_self, hc⟩
    · obtain ⟨c', hc', hb'⟩ := ih hrest hb
      exact ⟨c', List.mem_cons_of_mem c hc', hb'⟩

theorem exists_mapM {f : β → Except Fault γ} {bs : List β} (h : ∀ b ∈ bs, ∃ c, f b = .ok c) :
    ∃ cs, bs.mapM f = .ok cs := by
  induction bs with
  | nil => exact ⟨[], rfl⟩
  | cons b rest ih =>
    obtain ⟨⟨c, hc⟩, hrest⟩ := List.forall_mem_cons.mp h
    obtain ⟨cs, hcs⟩ := ih hrest
    refine ⟨c :: cs, ?_⟩
    rw [List.mapM_cons, hc, ok_bind, hcs]
    rfl

/-- A list of results fails at the first member that does. -/
theorem mapM_eq_error_iff {f : β → Except Fault γ} {bs : List β} {e : Fault} : bs.mapM f = .error e ↔
    ∃ done b rest, bs = done ++ b :: rest ∧ (∀ d ∈ done, ∃ c, f d = .ok c) ∧ f b = .error e := by
  induction bs with
  | nil =>
    constructor
    · intro h
      cases h
    · rintro ⟨done, b, rest, h, -⟩
      cases done <;> cases h
  | cons b rest ih =>
    rw [List.mapM_cons]
    constructor
    · intro h
      cases hb : f b with
      | error e' =>
        rw [hb] at h
        obtain rfl : e' = e := Except.error.inj h
        exact ⟨[], b, rest, rfl, by simp, hb⟩
      | ok c =>
        rw [hb, ok_bind] at h
        cases hrest : rest.mapM f with
        | ok cs =>
          rw [hrest] at h
          cases h
        | error e' =>
          rw [hrest] at h
          obtain rfl : e' = e := Except.error.inj h
          obtain ⟨done, b', rest', rfl, hdone, hb'⟩ := ih.mp hrest
          refine ⟨b :: done, b', rest', rfl, fun d hd => ?_, hb'⟩
          rcases List.mem_cons.mp hd with rfl | hd
          · exact ⟨c, hb⟩
          · exact hdone d hd
    · rintro ⟨done, b', rest', h, hdone, hb'⟩
      cases done with
      | nil =>
        obtain ⟨rfl, rfl⟩ := List.cons.inj h
        rw [hb']
        rfl
      | cons d done =>
        obtain ⟨rfl, rfl⟩ := List.cons.inj h
        obtain ⟨c, hc⟩ := hdone b List.mem_cons_self
        rw [hc, ok_bind, ih.mpr ⟨done, b', rest', rfl, fun d hd => hdone d (List.mem_cons_of_mem b hd), hb'⟩]
        rfl

end Reported

/-! ### Values in order -/

namespace Value

/-- Two values that can be put in order. -/
def Comparable (a b : Value) : Prop := ∃ r, a.less b = .ok r

/-- The kinds of values that have an order. -/
inductive OrderKind where
  | number
  | text
  | bytes
  | date
  | moment (withOffset : Bool)

/-- The kind of values that a value has a common order with, if it has any order. -/
def orderKind? : Value → Option OrderKind
  | bool _ | int _ | float _ => some .number
  | text _ => some .text
  | bytes _ => some .bytes
  | date .. => some .date
  | moment m => some (.moment m.offset.isSome)
  | _ => none

/-- Two values can be put in order exactly if they are of one kind. -/
theorem less_cases (a b : Value) :
    ((∃ kind, a.orderKind? = some kind ∧ b.orderKind? = some kind) ∧ a.Comparable b) ∨
      ((¬∃ kind, a.orderKind? = some kind ∧ b.orderKind? = some kind) ∧
        a.less b = .error (.unordered "<" a b)) := by
  cases a <;> cases b <;> simp [Comparable, less, number?, orderKind?]
  case moment m n =>
    by_cases h : m.offset.isSome = n.offset.isSome
    · simp [h]
      omega
    · simp only [h, Ne.symm h, false_and, false_or, if_false]
      trivial

theorem comparable_iff {a b : Value} :
    a.Comparable b ↔ ∃ kind, a.orderKind? = some kind ∧ b.orderKind? = some kind := by
  rcases less_cases a b with ⟨hkind, hless⟩ | ⟨hkind, hless⟩
  · exact ⟨fun _ => hkind, fun _ => hless⟩
  · refine ⟨fun ⟨r, hr⟩ => ?_, fun h => absurd h hkind⟩
    rw [hless] at hr
    cases hr

theorem less_of_not_comparable {a b : Value} (h : ¬a.Comparable b) : a.less b = .error (.unordered "<" a b) := by
  rcases less_cases a b with ⟨-, hless⟩ | ⟨-, hless⟩
  · exact absurd hless h
  · exact hless

instance comparableSymm : Std.Symm Comparable where
  symm a b h := by
    obtain ⟨kind, ha, hb⟩ := comparable_iff.mp h
    exact comparable_iff.mpr ⟨kind, hb, ha⟩

theorem Comparable.trans {a b c : Value} (hab : a.Comparable b) (hbc : b.Comparable c) : a.Comparable c := by
  obtain ⟨kind, ha, hb⟩ := comparable_iff.mp hab
  obtain ⟨kind', hb', hc⟩ := comparable_iff.mp hbc
  obtain rfl : kind = kind' := Option.some.inj (hb.symm.trans hb')
  exact comparable_iff.mpr ⟨kind, ha, hc⟩

end Value

namespace LayerOptions

/-- A value that can be compared with all others of a list is inserted among them. -/
theorem exists_insertOrdered {v : Value} {ws : List Value} (h : ∀ w ∈ ws, v.Comparable w) :
    ∃ us, insertOrdered v ws = .ok us ∧ us.Perm (v :: ws) := by
  induction ws with
  | nil => exact ⟨[v], rfl, .refl _⟩
  | cons w rest ih =>
    obtain ⟨less, hless⟩ := h w List.mem_cons_self
    obtain ⟨us, hus, hperm⟩ := ih fun w' hw' => h w' (List.mem_cons_of_mem w hw')
    unfold insertOrdered
    rw [hless, ok_bind]
    cases less with
    | true => exact ⟨v :: w :: rest, rfl, .refl _⟩
    | false =>
      rw [hus]
      exact ⟨w :: us, rfl, (hperm.cons w).trans (.swap v w rest)⟩

theorem insertOrdered_cons_of_not {v w : Value} (h : ¬v.Comparable w) (rest : List Value) :
    insertOrdered v (w :: rest) = .error (.unordered "<" v w) := by
  unfold insertOrdered
  rw [Value.less_of_not_comparable h]
  rfl

/-- Values are sorted exactly if any two of them can be compared. -/
theorem ordered_cases (vs : List Value) :
    (vs.Pairwise Value.Comparable ∧ ∃ us, ordered vs = .ok us ∧ us.Perm vs) ∨
      (¬vs.Pairwise Value.Comparable ∧ ∃ a b, ordered vs = .error (.unordered "<" a b)) := by
  induction vs with
  | nil => exact .inl ⟨.nil, [], rfl, .refl _⟩
  | cons v rest ih =>
    unfold ordered
    rcases ih with ⟨hrest, us, hus, hperm⟩ | ⟨hrest, a, b, herror⟩
    · rw [hus, ok_bind]
      by_cases hv : ∀ w ∈ rest, v.Comparable w
      · obtain ⟨all, hall, hperm'⟩ := exists_insertOrdered fun w hw => hv w (hperm.subset hw)
        exact .inl ⟨List.pairwise_cons.mpr ⟨hv, hrest⟩, all, hall, hperm'.trans (hperm.cons v)⟩
      · refine .inr ⟨fun h => hv (List.pairwise_cons.mp h).1, ?_⟩
        obtain ⟨w, hw, hvw⟩ : ∃ w ∈ rest, ¬v.Comparable w := by
          simpa using hv
        -- The sorted rest is of one kind, so its first value already cannot be compared.
        cases us with
        | nil => exact absurd (hperm.symm.subset hw) List.not_mem_nil
        | cons u us =>
          have hu : u ∈ rest := hperm.subset List.mem_cons_self
          have hvu : ¬v.Comparable u := by
            intro h
            by_cases huw : u = w
            · exact hvw (huw ▸ h)
            · exact hvw (h.trans (hrest.forall hu hw huw))
          exact ⟨v, u, insertOrdered_cons_of_not hvu us⟩
    · rw [herror]
      exact .inr ⟨fun h => hrest (List.pairwise_cons.mp h).2, a, b, rfl⟩

/-! ### Fillers and settings -/

theorem reported_fillerOf (key : String) (entries : List (Value × Value)) : Reported (fillerOf key entries) := by
  unfold fillerOf
  dsimp only
  split
  · exact reported_option _
  · split
    · exact reported_option _
    · split
      · exact reported_ok _
      · exact reported_option _

theorem reported_settingOf (key : String) (v : Value) : Reported (settingOf key v) := by
  unfold settingOf
  split
  · split
    · exact reported_fillerOf key _
    · exact reported_ok _
  · exact reported_ok _

theorem settingOf_eq_value {key : String} (hweight : key ≠ "weight_filler") (hbias : key ≠ "bias_filler")
    (v : Value) : settingOf key v = .ok (.value v) := by
  unfold settingOf
  split
  · rw [if_neg (by simp [hweight, hbias])]
  · rfl

/-! ### Entries -/

def optionNames (τ : Type) [HasOptions τ] : List String := (HasOptions.fields (HasOptions.default : τ)).map (·.1)

/-- The keys of an entry that are no names of options. -/
def unknownKeys (τ : Type) [HasOptions τ] (entries : List (Value × Value)) : List Value :=
  (entries.map (·.1)).filter fun k =>
    match textKey? k with
    | some s => s ∉ optionNames τ
    | none => true

/-- Sets of options that take, under each of their names, whatever an entry can give. -/
def TakesAll (τ : Type) [HasOptions τ] : Prop :=
  ∀ (t : τ) (key : String) (v : Value) (s : Setting), key ∈ optionNames τ → settingOf key v = .ok s →
    ∃ t', HasOptions.set? t key s = some t'

theorem takesAll_similarity : TakesAll SimilarityOptions := by
  intro t key v s hkey hs
  have hnames : key ∈ ["kernel_size", "stride", "pad", "c1", "c2", "gaussian_sigma"] := hkey
  simp only [List.mem_cons, List.not_mem_nil, or_false] at hnames
  rcases hnames with rfl | rfl | rfl | rfl | rfl | rfl
  all_goals
    rw [settingOf_eq_value (by decide) (by decide)] at hs
    obtain rfl := Except.ok.inj hs
    exact ⟨_, rfl⟩

theorem takesAll_orientedConv : TakesAll OrientedConvOptions := by
  intro t key v s hkey hs
  by_cases hweight : key = "weight_filler"
  · subst hweight
    exact ⟨{ t with weightFiller := s }, rfl⟩
  by_cases hbias : key = "bias_filler"
  · subst hbias
    exact ⟨{ t with biasFiller := s }, rfl⟩
  rw [settingOf_eq_value hweight hbias] at hs
  obtain rfl := Except.ok.inj hs
  have hnames : key ∈ ["num_output", "kernel_size", "kernel_h", "kernel_w", "stride", "stride_h", "stride_w", "pad",
    "pad_h", "pad_w", "group", "bias_term", "weight_filler", "bias_filler", "gaussian_sigma"] := hkey
  simp only [List.mem_cons, List.not_mem_nil, or_false, hweight, hbias, false_or] at hnames
  rcases hnames with rfl | rfl | rfl | rfl | rfl | rfl | rfl | rfl | rfl | rfl | rfl | rfl | rfl
  all_goals exact ⟨_, rfl⟩

theorem reported_setAll {τ : Type} [HasOptions τ] (t : τ) {settings : List (String × Setting)}
    (h : ∀ e ∈ settings, ∀ t : τ, ∃ t', HasOptions.set? t e.1 e.2 = some t') :
    Reported (HasOptions.setAll t settings) := by
  induction settings generalizing t with
  | nil => exact reported_ok t
  | cons e rest ih =>
    obtain ⟨t', ht'⟩ := h e List.mem_cons_self t
    unfold HasOptions.setAll
    rw [ht']
    exact ih t' fun e' he' => h e' (List.mem_cons_of_mem e he')

theorem known_of_mem {τ : Type} [HasOptions τ] {entries : List (Value × Value)} (h : unknownKeys τ entries = [])
    {e : Value × Value} (he : e ∈ entries) : ∃ s, textKey? e.1 = some s ∧ s ∈ optionNames τ := by
  have hkey := List.filter_eq_nil_iff.mp h e.1 (List.mem_map_of_mem he)
  cases htext : textKey? e.1 with
  | none =>
    rw [htext] at hkey
    exact absurd rfl hkey
  | some s =>
    rw [htext] at hkey
    exact ⟨s, rfl, by simpa using hkey⟩

/-- Decoding an entry of a known type is reported unless two unknown keys cannot be compared. -/
theorem decode_cases {τ : Type} [HasOptions τ] (hτ : TakesAll τ) (layer : String)
    (entries : List (Value × Value)) :
    ((unknownKeys τ entries).Pairwise Value.Comparable ∧ Reported (decode τ layer entries)) ∨
      (¬(unknownKeys τ entries).Pairwise Value.Comparable ∧
        ∃ a b, decode τ layer entries = .error (.unordered "<" a b)) := by
  rcases ordered_cases (unknownKeys τ entries) with ⟨hpairs, keys, hkeys, -⟩ | ⟨hpairs, a, b, herror⟩
  · refine .inl ⟨hpairs, ?_⟩
    by_cases hunknown : unknownKeys τ entries = []
    · show Reported (if !(unknownKeys τ entries).isEmpty then _ else _)
      rw [hunknown, if_neg (by simp)]
      refine (reported_mapM fun e _ => reported_settingOf e.1 e.2).bind fun _ _ => ?_
      refine (reported_mapM fun e _ => (reported_settingOf _ e.2).bind fun s _ => reported_ok _).bind
        fun settings hsettings => reported_setAll _ fun e he t => ?_
      obtain ⟨⟨k, v⟩, hentry, hpair⟩ := exists_of_mem_mapM hsettings he
      obtain ⟨s, hs, hpair⟩ := bind_eq_ok_iff.mp hpair
      obtain ⟨key, hkey, hknown⟩ := known_of_mem hunknown hentry
      dsimp only at hkey
      rw [hkey, Option.getD_some] at hs hpair
      obtain rfl : (key, s) = e := Except.ok.inj hpair
      exact hτ t key v s hknown hs
    · show Reported (if !(unknownKeys τ entries).isEmpty then
        ordered (unknownKeys τ entries) >>= fun keys => throw (.option (.unknownLayerKeys layer keys)) else _)
      rw [if_pos (by simpa using hunknown), hkeys]
      exact reported_option _
  · refine .inr ⟨hpairs, a, b, ?_⟩
    have hunknown : unknownKeys τ entries ≠ [] := by
      intro h
      rw [h] at hpairs
      exact hpairs .nil
    show (if !(unknownKeys τ entries).isEmpty then
      ordered (unknownKeys τ entries) >>= fun keys => throw (.option (.unknownLayerKeys layer keys)) else _) = _
    rw [if_pos (by simpa using hunknown), herror]
    rfl

/-- The keys of an entry that are unknown to its type, if that is known. -/
def unknownOf (name : String) (entries : List (Value × Value)) : List Value :=
  match name with
  | "GradOrientConvolution" => unknownKeys OrientedConvOptions (remaining entries)
  | "SSIMLoss" => unknownKeys SimilarityOptions (remaining entries)
  | _ => []

theorem exists_of_mem_unknownOf {name : String} {entries : List (Value × Value)} {k : Value}
    (h : k ∈ unknownOf name entries) : ∃ e ∈ entries, e.1 = k := by
  have hremaining (h : k ∈ (remaining entries).map (·.1)) : ∃ e ∈ entries, e.1 = k := by
    obtain ⟨e, he, rfl⟩ := List.mem_map.mp h
    exact ⟨e, (List.mem_filter.mp he).1, rfl⟩
  unfold unknownOf at h
  split at h
  · exact hremaining (List.mem_filter.mp h).1
  · exact hremaining (List.mem_filter.mp h).1
  · exact absurd h List.not_mem_nil

/-- Entries that fail although it is not options that are refused: their type cannot be looked up, or two of
the keys that are unknown to it cannot be compared. -/
inductive Unreported : Value → Prop where
  | type {entries : List (Value × Value)} {v : Value} (h : Value.lookup? entries "type" = some v)
      (hkey : Yaml.Node.isKey v = false) : Unreported (.map entries)
  | keys {entries : List (Value × Value)} {name : String} (h : Value.lookup? entries "type" = some (.text name))
      (hkeys : ¬(unknownOf name entries).Pairwise Value.Comparable) : Unreported (.map entries)

theorem unreported_text_iff {entries : List (Value × Value)} {name : String}
    (h : Value.lookup? entries "type" = some (.text name)) :
    Unreported (.map entries) ↔ ¬(unknownOf name entries).Pairwise Value.Comparable := by
  refine ⟨fun hentry => ?_, .keys h⟩
  cases hentry with
  | type h' hkey =>
    obtain rfl := Option.some.inj (h.symm.trans h')
    cases hkey
  | keys h' hkeys =>
    obtain rfl : name = _ := Value.text.inj (Option.some.inj (h.symm.trans h'))
    exact hkeys

/-- Decoding an entry as options of its type. -/
theorem decodeAs_cases {τ : Type} [HasOptions τ] (hτ : TakesAll τ) {name : String}
    {entries : List (Value × Value)} (h : Value.lookup? entries "type" = some (.text name))
    (hunknown : unknownOf name entries = unknownKeys τ (remaining entries)) (f : τ → LayerOptions) :
    (¬Unreported (.map entries) ∧ Reported ((decode τ name (remaining entries)).map f)) ∨
      (Unreported (.map entries) ∧ ∃ text, (decode τ name (remaining entries)).map f = .error (.wrongType text)) := by
  rw [unreported_text_iff h, not_not, hunknown]
  rcases decode_cases hτ name (remaining entries) with ⟨hpairs, hreported⟩ | ⟨hpairs, a, b, herror⟩
  · exact .inl ⟨hpairs, hreported.map f⟩
  · refine .inr ⟨hpairs, ?_⟩
    rw [herror]
    exact ⟨_, rfl⟩

/-- An entry gives options, is refused as bad options, or is one of those that are not reported. -/
theorem ofEntry_cases (entry : Value) : (¬Unreported entry ∧ Reported (ofEntry entry)) ∨
    (Unreported entry ∧ ∃ text, ofEntry entry = .error (.wrongType text)) := by
  unfold ofEntry
  split
  · rename_i entries
    split
    · rename_i hnone
      refine .inl ⟨fun h => ?_, reported_option _⟩
      cases h with
      | type h hkey => cases hnone.symm.trans h
      | keys h hkeys => cases hnone.symm.trans h
    · rename_i htype
      exact decodeAs_cases takesAll_orientedConv htype rfl .orientedConv
    · rename_i htype
      exact decodeAs_cases takesAll_similarity htype rfl .similarity
    · rename_i v hconv hloss htype
      cases hkey : Yaml.Node.isKey v with
      | false => exact .inr ⟨.type htype hkey, _, rfl⟩
      | true =>
        refine .inl ⟨fun h => ?_, reported_option _⟩
        cases h with
        | type h hkey' =>
          obtain rfl := Option.some.inj (htype.symm.trans h)
          rw [hkey] at hkey'
          cases hkey'
        | @keys _ name h hkeys =>
          obtain rfl : v = .text name := Option.some.inj (htype.symm.trans h)
          refine hkeys ?_
          unfold unknownOf
          split
          · exact absurd rfl hconv
          · exact absurd rfl hloss
          · exact .nil
  · rename_i hmap
    refine .inl ⟨fun h => ?_, reported_option _⟩
    cases h <;> exact hmap _ rfl

end LayerOptions

/-! ### Descriptions -/

/-- Lists of entries of which the first one that gives no options is not reported. -/
def UnreportedEntries (items : List Value) : Prop :=
  ∃ done entry rest, items = done ++ entry :: rest ∧ (∀ e ∈ done, ∃ o, LayerOptions.ofEntry e = .ok o) ∧
    LayerOptions.Unreported entry

theorem entries_cases (items : List Value) :
    (¬UnreportedEntries items ∧ Reported (items.mapM LayerOptions.ofEntry)) ∨
      (UnreportedEntries items ∧ ∃ text, items.mapM LayerOptions.ofEntry = .error (.wrongType text)) := by
  have hunreported (h : UnreportedEntries items) :
      ∃ text, items.mapM LayerOptions.ofEntry = .error (.wrongType text) := by
    obtain ⟨done, entry, rest, hitems, hdone, hentry⟩ := h
    rcases LayerOptions.ofEntry_cases entry with ⟨hnot, -⟩ | ⟨-, text, herror⟩
    · exact absurd hentry hnot
    · exact ⟨text, mapM_eq_error_iff.mpr ⟨done, entry, rest, hitems, hdone, herror⟩⟩
  by_cases h : UnreportedEntries items
  · exact .inr ⟨h, hunreported h⟩
  · refine .inl ⟨h, ?_⟩
    cases hitems : items.mapM LayerOptions.ofEntry with
    | ok layers => exact reported_ok layers
    | error e =>
      obtain ⟨done, entry, rest, rfl, hdone, herror⟩ := mapM_eq_error_iff.mp hitems
      rcases LayerOptions.ofEntry_cases entry with ⟨-, hreported⟩ | ⟨hentry, -⟩
      · rcases hreported with ⟨o, ho⟩ | ⟨cause, hcause⟩
        · cases herror.symm.trans ho
        · obtain rfl := Except.error.inj (herror.symm.trans hcause)
          exact reported_option cause
      · exact absurd ⟨done, entry, rest, rfl, hdone, hentry⟩ h

/-- Descriptions with such a list of layers. -/
def UnreportedDescription (document : Value) : Prop :=
  ∃ entries items, document = .map entries ∧ Value.lookup? entries "layers" = some (.list items) ∧
    UnreportedEntries items

theorem layersOf_cases (document : Value) :
    (¬UnreportedDescription document ∧ Reported (layersOf document)) ∨
      (UnreportedDescription document ∧ ∃ text, layersOf document = .error (.wrongType text)) := by
  unfold layersOf
  split
  · rename_i entries
    split
    · rename_i items hitems
      have hiff : UnreportedDescription (.map entries) ↔ UnreportedEntries items := by
        refine ⟨?_, fun h => ⟨entries, items, rfl, hitems, h⟩⟩
        rintro ⟨_, items', ⟨⟩, hitems', h⟩
        obtain rfl : items = items' := Value.list.inj (Option.some.inj (hitems.symm.trans hitems'))
        exact h
      rw [hiff]
      exact entries_cases items
    · rename_i hnone
      refine .inl ⟨?_, reported_option _⟩
      rintro ⟨_, items, ⟨⟩, hitems, -⟩
      exact hnone items hitems
  · rename_i hmap
    refine .inl ⟨?_, reported_option _⟩
    rintro ⟨entries, items, rfl, -⟩
    exact hmap entries rfl

/-- Descriptions whose entries have keys that are texts and types that can be looked up are never refused
but as bad options. -/
theorem reported_of_texts {document : Value} (h : ∀ entries items, document = .map entries →
    Value.lookup? entries "layers" = some (.list items) → ∀ options, .map options ∈ items →
      (∀ e ∈ options, ∃ key, e.1 = .text key) ∧
        ∀ v, Value.lookup? options "type" = some v → Yaml.Node.isKey v = true) :
    Reported (layersOf document) := by
  rcases layersOf_cases document with ⟨-, hreported⟩ | ⟨hunreported, -⟩
  · exact hreported
  · obtain ⟨entries, items, hdocument, hitems, done, entry, rest, rfl, -, hentry⟩ := hunreported
    have hmember : entry ∈ done ++ entry :: rest := by simp
    cases hentry with
    | @type options v htype hkey =>
      obtain ⟨-, htypes⟩ := h entries _ hdocument hitems options hmember
      rw [htypes v htype] at hkey
      cases hkey
    | @keys options name htype hkeys =>
      obtain ⟨htexts, -⟩ := h entries _ hdocument hitems options hmember
      have htext : ∀ k ∈ LayerOptions.unknownOf name options, k.orderKind? = some .text := by
        intro k hk
        obtain ⟨e, he, rfl⟩ := LayerOptions.exists_of_mem_unknownOf hk
        obtain ⟨key, hkey⟩ := htexts e he
        rw [hkey]
        rfl
      refine absurd (List.pairwise_of_forall_mem_list fun a ha b hb => ?_) hkeys
      exact Value.comparable_iff.mpr ⟨.text, htext a ha, htext b hb⟩

/-- A description gives options for every layer or is refused as bad options, unless the first of its
entries that gives none is one that is not reported; such a description is refused for a wrong type of
value. -/
theorem layers_reported_iff (document : Value) :
    (((∃ layers, layersOf document = .ok layers) ∨ ∃ cause, layersOf document = .error (.option cause)) ↔
      ¬UnreportedDescription document) ∧
    (UnreportedDescription document → ∃ text, layersOf document = .error (.wrongType text)) := by
  rcases layersOf_cases document with ⟨hnot, hreported⟩ | ⟨hunreported, text, herror⟩
  · exact ⟨iff_of_true hreported hnot, fun h => absurd h hnot⟩
  · refine ⟨iff_of_false ?_ (not_not_intro hunreported), fun _ => ⟨text, herror⟩⟩
    rintro (⟨layers, hlayers⟩ | ⟨cause, hcause⟩)
    · cases herror.symm.trans hlayers
    · cases herror.symm.trans hcause

/-- A description of one layer. -/
def singleLayer (options : List (Value × Value)) : Value :=
  .map [(.text "layers", .list [.map options])]

/-- A type that is a list, and unknown keys of two kinds, are not refused as bad options. -/
theorem layers_unreported :
    layersOf (singleLayer [(.text "type", .list [])]) = .error (.wrongType ("unhashable type: " ++ quoted "list")) ∧
    layersOf (singleLayer [(.text "type", .text "SSIMLoss"), (.int 1, .null), (.text "size", .null)]) =
      .error (.unordered "<" (.int 1) (.text "size")) ∧
    ¬∀ document, (∃ layers, layersOf document = .ok layers) ∨ ∃ cause, layersOf document = .error (.option cause) := by
  have hlist : layersOf (singleLayer [(.text "type", .list [])]) =
      .error (.wrongType ("unhashable type: " ++ quoted "list")) := rfl
  refine ⟨hlist, rfl, fun h => ?_⟩
  rcases h (singleLayer [(.text "type", .list [])]) with ⟨layers, hlayers⟩ | ⟨cause, hcause⟩
  · cases hlist.symm.trans hlayers
  · cases hlist.symm.trans hcause

end SteeredConv
