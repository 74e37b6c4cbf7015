/-
# What writing does to the files

Lines that are written through a stream are added to one file, which was made at the
path of the stream, whether or not its time has come. No other file changes. The path
leads to that file as long as no other stream begins files anew at the path; other paths
lead where they led. A file that had a name keeps one unless the number of earlier files
is limited.

Key definitions: `IsPlain`, `Disk.madeAt`, `Disk.linesAt`, `Disk.linesOf`, `Disk.Sound`,
`Disk.Adds`, `Stream.Sound`, `Stream.Wrote`.
Key theorems: `plainPath_isPlain`, `Stream.prepare_ready`, `Stream.write_wrote`.
-/
import SteeredConv.Logging.Disk

namespace SteeredConv

/-! ### Names -/

/-- A name that does not end in a digit, as those of earlier files do. -/
def IsPlain (name : String) : Prop := ∀ c, name.toList.getLast? = some c → c.isDigit = false

theorem not_isPlain_of_ends {name : String} {c : Char} (hdigit : c.isDigit = true)
    (hlast : name.toList.getLast? = some c) : ¬IsPlain name := by
  intro h
  rw [h c hlast] at hdigit
  cases hdigit

theorem Stream.datedName_not_isPlain (s : Stream) (t : WallTime) : ¬IsPlain (s.datedName t) := by
  obtain ⟨c, hdigit, hlast⟩ := s.unit.suffix_ends t
  refine not_isPlain_of_ends hdigit ?_
  rw [datedName, String.toList_append, List.getLast?_append, hlast, Option.some_or]

namespace RotationUnit

/-- A text of a form that ends in a digit ends in one. -/
theorem ends_of_isOfForm {pattern : List Char} : ∀ {text : List Char},
    isOfForm (pattern ++ ['d']) text = true → ∃ c, c.isDigit = true ∧ text.getLast? = some c := by
  induction pattern with
  | nil =>
    intro text h
    match text with
    | [] => cases h
    | [c] =>
      simp only [List.nil_append, isOfForm, if_true, Bool.and_true] at h
      exact ⟨c, h, rfl⟩
    | c :: e :: rest => simp [isOfForm] at h
  | cons f pattern ih =>
    intro text h
    match text with
    | [] => cases h
    | c :: rest =>
      rw [List.cons_append, isOfForm, Bool.and_eq_true] at h
      obtain ⟨e, hdigit, hlast⟩ := ih h.2
      exact ⟨e, hdigit, by rw [List.getLast?_cons, hlast]; rfl⟩

theorem form_ends (u : RotationUnit) : ∃ pattern, u.form.toList = pattern ++ ['d'] := by
  cases u with
  | second => exact ⟨"dddd-dd-dd_dd-dd-d".toList, rfl⟩
  | minute => exact ⟨"dddd-dd-dd_dd-d".toList, rfl⟩
  | hour => exact ⟨"dddd-dd-dd_d".toList, rfl⟩
  | day => exact ⟨"dddd-dd-d".toList, rfl⟩
  | midnight => exact ⟨"dddd-dd-d".toList, rfl⟩
  | week => exact ⟨"dddd-dd-d".toList, by rw [form]; rfl⟩

end RotationUnit

theorem Stream.datedNames_not_isPlain {s : Stream} {d : Disk} {name : String} (h : name ∈ s.datedNames d) :
    ¬IsPlain name := by
  rw [datedNames, List.mem_mergeSort, List.mem_filter, Bool.and_eq_true] at h
  obtain ⟨pattern, hform⟩ := s.unit.form_ends
  obtain ⟨c, hdigit, hlast⟩ := RotationUnit.ends_of_isOfForm (hform ▸ h.2.2)
  refine not_isPlain_of_ends hdigit ?_
  rw [List.getLast?_drop] at hlast
  split at hlast
  · cases hlast
  · exact hlast

/-! ### Paths of handlers -/

theorem segmentsOf_of_no_slash {text : List Char} (h : '/' ∉ text) : segmentsOf text = [text] := by
  induction text with
  | nil => rfl
  | cons c text ih =>
    rw [List.mem_cons, not_or] at h
    rw [segmentsOf, ih h.2]
    exact fun e => h.1 e.symm

/-- A text that ends without a slash ends so in its last part. -/
theorem segmentsOf_append (ending : List Char) (h : '/' ∉ ending) :
    ∀ text : List Char, ∃ before last, segmentsOf (text ++ ending) = before ++ [last ++ ending] := by
  intro text
  induction text with
  | nil => exact ⟨[], [], segmentsOf_of_no_slash h⟩
  | cons c text ih =>
    obtain ⟨before, last, hsegments⟩ := ih
    by_cases hc : c = '/'
    · subst hc
      exact ⟨[] :: before, last, by rw [List.cons_append, segmentsOf, hsegments]; rfl⟩
    · rw [List.cons_append, segmentsOf, hsegments]
      · cases before with
        | nil => exact ⟨[], c :: last, rfl⟩
        | cons first others => exact ⟨(c :: first) :: others, last, rfl⟩
      · exact hc

theorem intercalate_append_singleton (separator last : List Char) : ∀ texts : List (List Char), ∃ before,
    separator.intercalate (texts ++ [last]) = before ++ last
  | [] => ⟨[], by simp [List.intercalate]⟩
  | text :: texts => by
    obtain ⟨before, hbefore⟩ := intercalate_append_singleton separator last texts
    refine ⟨text ++ separator ++ before, ?_⟩
    rw [List.cons_append, List.intercalate_cons_of_ne_nil (List.append_ne_nil_of_right_ne_nil _ (List.cons_ne_nil _ _)),
      hbefore, List.append_assoc, List.append_assoc, List.append_assoc]

/-- The plainest form of a path that ends as those of logs do is that of no earlier file. -/
theorem plainPath_isPlain {directory path text : String} (h : path = text ++ ".log") :
    IsPlain (plainPath directory path) := by
  have hwhole : ∃ whole, (pathIn directory path).toList = whole ++ ".log".toList := by
    rw [pathIn, h]
    split
    · exact ⟨text.toList, String.toList_append⟩
    · exact ⟨(directory ++ "/" ++ text).toList, by simp only [String.toList_append, List.append_assoc]⟩
  obtain ⟨whole, hwhole⟩ := hwhole
  obtain ⟨before, last, hsegments⟩ := segmentsOf_append ".log".toList (by decide) whole
  have hstep (done : List (List Char)) : stepAlong done (last ++ ".log".toList) = done ++ [last ++ ".log".toList] := by
    have hlength : 4 ≤ (last ++ ".log".toList).length := by simp
    have hshort {short : List Char} (h : short.length < 4) : last ++ ".log".toList ≠ short := by
      rintro rfl
      omega
    rw [stepAlong, if_neg (not_or.mpr ⟨hshort (by decide), hshort (by decide)⟩), if_neg (hshort (by decide))]
  obtain ⟨start, hstart⟩ := intercalate_append_singleton ['/'] (last ++ ".log".toList) (before.foldl stepAlong [])
  intro c hc
  rw [plainPath, hwhole, hsegments, List.foldl_append, List.foldl_cons, List.foldl_nil, hstep, hstart,
    String.toList_append, List.getLast?_append, String.toList_ofList, List.getLast?_append,
    List.getLast?_append] at hc
  rw [← Option.some.inj (show some 'g' = some c from hc)]
  decide

/-! ### Disks -/

namespace Disk

variable {d d' : Disk} {path name other : String} {now : Int} {file : Nat} {lines : List String}

/-- Where a file was made. -/
def madeAt (d : Disk) (file : Nat) : Option String := d.files[file]?.map StoredFile.path

def linesAt (d : Disk) (file : Nat) : List String := (d.files[file]?.map StoredFile.lines).getD []

/-- The lines of all files that were made at a path. -/
def linesOf (d : Disk) (path : String) : List String :=
  (d.files.filter fun f => f.path = path).flatMap StoredFile.lines

/-- Names lead to files, and those that are no names of earlier files to files that were made there. -/
def Sound (d : Disk) : Prop :=
  ∀ name file, d.named name = some file → ∃ path, d.madeAt file = some path ∧ (IsPlain name → path = name)

/-- Every file has a name. -/
def AllNamed (d : Disk) : Prop := ∀ file < d.files.length, ∃ name, d.named name = some file

/-- A disk has the files of another one, and lines are at most added to them. -/
def Extends (d d' : Disk) : Prop :=
  ∀ file path, d.madeAt file = some path → d'.madeAt file = some path ∧ d.linesAt file <+: d'.linesAt file

/-- The disk comes from another one by lines added to a file that was made at a path. -/
structure Adds (d : Disk) (path : String) (lines : List String) (file : Nat) (d' : Disk) : Prop where
  madeAt_eq : d'.madeAt file = some path
  madeAt_of_made : ∀ {other made}, d.madeAt other = some made → d'.madeAt other = some made
  linesAt_eq : ∀ other, d'.linesAt other = d.linesAt other ++ if other = file then lines else []
  linesOf_perm : ∀ other, (d'.linesOf other).Perm (d.linesOf other ++ if path = other then lines else [])

theorem Adds.extends (h : d.Adds path lines file d') : d.Extends d' := fun other _ hmade =>
  ⟨h.madeAt_of_made hmade, h.linesAt_eq other ▸ List.prefix_append _ _⟩

theorem Extends.refl (d : Disk) : d.Extends d := fun _ _ h => ⟨h, List.prefix_refl _⟩

theorem Extends.trans {d'' : Disk} (h : d.Extends d') (h' : d'.Extends d'') : d.Extends d'' := by
  intro file path hmade
  obtain ⟨hmade', hlines⟩ := h file path hmade
  obtain ⟨hmade'', hlines'⟩ := h' file path hmade'
  exact ⟨hmade'', hlines.trans hlines'⟩

theorem madeAt_lt (h : d.madeAt file = some path) : file < d.files.length := by
  rw [madeAt, Option.map_eq_some_iff] at h
  obtain ⟨f, hf, -⟩ := h
  exact (List.getElem?_eq_some_iff.mp hf).1

section Append

@[simp] theorem named_append : (d.append now file lines).named name = d.named name := rfl

@[simp] theorem madeAt_append (other : Nat) : (d.append now file lines).madeAt other = d.madeAt other := by
  simp only [madeAt, append, List.getElem?_modify]
  cases d.files[other]? with
  | none => rfl
  | some f => by_cases h : file = other <;> simp [h]

theorem linesAt_append (hmade : d.madeAt file = some path) (other : Nat) :
    (d.append now file lines).linesAt other = d.linesAt other ++ if other = file then lines else [] := by
  have hlt := madeAt_lt hmade
  simp only [linesAt, append, List.getElem?_modify]
  by_cases h : file = other
  · subst h
    simp [List.getElem?_eq_getElem hlt]
  · cases d.files[other]? with
    | none => simp [h, Ne.symm h]
    | some f => simp [h, Ne.symm h]

theorem linesOf_append (hmade : d.madeAt file = some path) (other : String) :
    ((d.append now file lines).linesOf other).Perm (d.linesOf other ++ if path = other then lines else []) := by
  obtain ⟨files, names⟩ := d
  simp only [madeAt, linesOf, append] at hmade ⊢
  induction files generalizing file with
  | nil => simp at hmade
  | cons f files ih =>
    cases file with
    | zero =>
      simp only [List.getElem?_cons_zero, Option.map_some, Option.some.injEq] at hmade
      subst hmade
      by_cases h : f.path = other
      · simp only [List.modify_zero_cons, h, decide_true, List.filter_cons_of_pos, List.flatMap_cons, if_true,
          List.append_assoc]
        exact List.Perm.append_left _ List.perm_append_comm
      · simp [h]
    | succ file =>
      simp only [List.getElem?_cons_succ] at hmade
      have hrest := ih hmade
      by_cases h : f.path = other
      · simp only [List.modify_succ_cons, h, decide_true, List.filter_cons_of_pos, List.flatMap_cons,
          List.append_assoc]
        exact List.Perm.append_left _ hrest
      · simpa [h] using hrest

end Append

section FileAt

/-- The file of a path, made if need be: it was made there, and every other name leads where it led. -/
structure Opens (d : Disk) (path : String) (d' : Disk) (file : Nat) : Prop where
  madeAt_eq : d'.madeAt file = some path
  named_eq : ∀ name, d'.named name = if name = path then some file else d.named name
  madeAt_of_made : ∀ {other made}, d.madeAt other = some made → d'.madeAt other = some made
  linesAt_eq : ∀ other, d'.linesAt other = d.linesAt other
  linesOf_eq : ∀ other, d'.linesOf other = d.linesOf other
  eq_of_named : ∀ other, d.named path = some other → other = file
  lt_or_eq : ∀ other < d'.files.length, other < d.files.length ∨ other = file

theorem fileAt_opens (hd : d.Sound) (hplain : IsPlain path) (now : Int) :
    d.Opens path (d.fileAt now path).1 (d.fileAt now path).2 := by
  rw [fileAt]
  cases hnamed : d.named path with
  | some file =>
    obtain ⟨made, hmade, hpath⟩ := hd path file hnamed
    rw [hpath hplain] at hmade
    refine ⟨hmade, fun name => ?_, id, fun _ => rfl, fun _ => rfl,
      fun other h => Option.some.inj (h.symm.trans hnamed), fun _ h => .inl h⟩
    by_cases h : name = path
    · rw [if_pos h, h, hnamed]
    · rw [if_neg h]
  | none =>
    refine ⟨by simp [madeAt], fun name => ?_, fun hmade => ?_, fun other => ?_, fun other => ?_,
      fun other h => ?_, fun other h => ?_⟩
    · by_cases h : name = path
      · rw [if_pos h, h, named, Entries.lookup_assign]
      · rw [if_neg h, named, Entries.lookup_assign_of_ne h, named]
    · rw [madeAt, List.getElem?_append_left (madeAt_lt hmade)]
      exact hmade
    · rw [linesAt, linesAt]
      rcases Nat.lt_trichotomy other d.files.length with h | h | h
      · rw [List.getElem?_append_left h]
      · simp [h]
      · have hout : (d.files ++ [StoredFile.mk path [] now]).length ≤ other := by
          rw [List.length_append, List.length_singleton]
          omega
        rw [List.getElem?_eq_none hout, List.getElem?_eq_none (Nat.le_of_lt h)]
    · by_cases h : path = other <;> simp [linesOf, List.filter_append, h]
    · rw [hnamed] at h
      cases h
    · rw [List.length_append, List.length_singleton] at h
      show other < d.files.length ∨ other = d.files.length
      omega

end FileAt

section Names

/-- A name that is changed leads where it led under the new name, and the old one leads nowhere. -/
theorem named_rename (hfree : d.named other = none) (name : String) :
    (d.rename path other).named name =
      if name = other then d.named path else if name = path then none else d.named name := by
  rw [rename]
  cases hnamed : d.named path with
  | some file =>
    by_cases hother : name = other
    · rw [if_pos hother, hother, named, Entries.lookup_assign]
    · rw [if_neg hother, named, Entries.lookup_assign_of_ne hother, Entries.lookup_restrict, named]
      by_cases h : name = path <;> simp [h]
  | none =>
    by_cases hother : name = other
    · rw [if_pos hother, hother, hfree]
    · by_cases h : name = path
      · rw [if_neg hother, if_pos h, h, hnamed]
      · rw [if_neg hother, if_neg h]

@[simp] theorem files_rename : (d.rename path other).files = d.files := by
  rw [rename]
  cases d.named path <;> rfl

theorem named_remove (paths : List String) (name : String) :
    (d.remove paths).named name = if name ∈ paths then none else d.named name := by
  rw [named, remove, Entries.lookup_restrict, named]
  by_cases h : name ∈ paths <;> simp [h]

end Names
end Disk

/-! ### Streams -/

namespace Stream

variable {s s' : Stream} {d d' : Disk} {site : Site} {now : Int} {lines : List String} {file : Nat} {k : Int}

/-- The path of the stream is that of no earlier file, the number of files to keep is whole, and the file
that is open was made at the path. -/
structure Sound (s : Stream) (d : Disk) : Prop where
  plain : IsPlain s.path
  whole : ∃ k, s.backups.number? = some (.whole k)
  madeAt_file : ∀ file, s.file = some file → d.madeAt file = some s.path

/-- The number of files to keep is not limited. -/
def KeepsAll (s : Stream) : Prop := ∃ k ≤ 0, s.backups.number? = some (.whole k)

/-- Of the names of earlier files some are taken away, and none if their number is not limited. -/
theorem expired_of_whole (hwhole : s.backups.number? = some (.whole k)) (dated : List String) :
    ∃ names, expired s.backups dated = .ok names ∧ (∀ name ∈ names, name ∈ dated) ∧ (k ≤ 0 → names = []) := by
  simp only [expired, hwhole, Number.lt_whole]
  by_cases h : k ≤ 0
  · exact ⟨[], by simp [h], by simp, fun _ => rfl⟩
  · by_cases hfew : (dated.length : Int) < k
    · exact ⟨[], by simp [hfew], by simp, fun _ => rfl⟩
    · exact ⟨dated.take (dated.length - k).toNat, by simp [h, hfew], fun name hname => List.mem_of_mem_take hname,
        fun h' => absurd h' h⟩

/-- A stream is ready to write: as it was, or with no file open and the path leading nowhere. -/
structure Ready (s : Stream) (d : Disk) (s' : Stream) (d' : Disk) : Prop where
  path_eq : s'.path = s.path
  backups_eq : s'.backups = s.backups
  files_eq : d'.files = d.files
  goesOn_or_anew : s'.file = s.file ∧ d'.named s.path = d.named s.path ∨ s'.file = none
  sound : d'.Sound
  named_of_plain : ∀ name, IsPlain name → name ≠ s.path → d'.named name = d.named name
  named_of_keepsAll : s.KeepsAll → ∀ name file, d.named name = some file → ∃ other, d'.named other = some file

/-- A file that is begun anew keeps its lines and is found under the name of its time. -/
theorem beginAnew_ready (hs : s.Sound d) (hd : d.Sound) (site : Site) (now : Int) :
    ∃ s' d', s.beginAnew site now d = (.ok (), s', d') ∧ s.Ready d s' d' := by
  have hdated : ¬IsPlain (s.datedName (s.unit.begun site now s.due)) := s.datedName_not_isPlain _
  rw [beginAnew]
  generalize s.datedName (s.unit.begun site now s.due) = dated at hdated ⊢
  cases hkept : d.named dated with
  | some file =>
    exact ⟨s, d, rfl, rfl, rfl, rfl, .inl ⟨rfl, rfl⟩, hd, fun _ _ _ => rfl, fun _ name _ h => ⟨name, h⟩⟩
  | none =>
    obtain ⟨k, hwhole⟩ := hs.whole
    obtain ⟨names, hexpired, hnames, hnone⟩ :=
      expired_of_whole hwhole (datedNames { s with file := none } (d.rename s.path dated))
    have hplain {name : String} (h : IsPlain name) : name ∉ names ∧ name ≠ dated :=
      ⟨fun hmem => datedNames_not_isPlain (hnames name hmem) h, fun e => hdated (e ▸ h)⟩
    have hnamed (name : String) : ((d.rename s.path dated).remove names).named name =
        if name ∈ names then none else if name = dated then d.named s.path
          else if name = s.path then none else d.named name := by
      rw [Disk.named_remove, Disk.named_rename hkept]
    simp only [Option.isSome_none, Bool.false_eq_true, if_false, hexpired]
    refine ⟨_, _, rfl, rfl, rfl, Disk.files_rename, .inr rfl, fun name file h => ?_, fun name h hne => ?_,
      fun hall name file h => ?_⟩
    · rw [hnamed] at h
      split at h
      · cases h
      · split at h
        next hname =>
          obtain ⟨path, hmade, -⟩ := hd _ _ h
          exact ⟨path, by simpa [Disk.madeAt, Disk.remove] using hmade, fun hp => absurd (hname ▸ hp) hdated⟩
        next =>
          split at h
          · cases h
          · obtain ⟨path, hmade, hpath⟩ := hd _ _ h
            exact ⟨path, by simpa [Disk.madeAt, Disk.remove] using hmade, hpath⟩
    · rw [hnamed, if_neg (hplain h).1, if_neg (hplain h).2, if_neg hne]
    · obtain ⟨k', hk', hwhole'⟩ := hall
      obtain rfl : k = k' := by simpa [hwhole] using hwhole'
      have hnil := hnone hk'
      by_cases hname : name = s.path
      · exact ⟨dated, by rw [hnamed, hnil, if_neg List.not_mem_nil, if_pos rfl, ← hname, h]⟩
      · refine ⟨name, ?_⟩
        have hne : name ≠ dated := by
          rintro rfl
          rw [hkept] at h
          cases h
        rw [hnamed, hnil, if_neg List.not_mem_nil, if_neg hne, if_neg hname, h]

theorem prepare_ready (hs : s.Sound d) (hd : d.Sound) (site : Site) (now : Int) :
    ∃ s' d', s.prepare site now d = (.ok (), s', d') ∧ s.Ready d s' d' := by
  rw [prepare]
  by_cases hdue : s.due ≤ now
  · rw [if_pos hdue]
    exact beginAnew_ready hs hd site now
  · rw [if_neg hdue]
    exact ⟨s, d, rfl, rfl, rfl, rfl, .inl ⟨rfl, rfl⟩, hd, fun _ _ _ => rfl, fun _ name _ h => ⟨name, h⟩⟩

/-- Lines were written through a stream: they were added to one file, which is open now. -/
structure Wrote (s : Stream) (d : Disk) (lines : List String) (file : Nat) (s' : Stream) (d' : Disk) : Prop where
  adds : d.Adds s.path lines file d'
  file_eq : s'.file = some file
  path_eq : s'.path = s.path
  backups_eq : s'.backups = s.backups
  sound : d'.Sound
  named_path : (∀ earlier, s.file = some earlier → d.named s.path = some earlier) → d'.named s.path = some file
  named_of_plain : ∀ name, IsPlain name → name ≠ s.path → d'.named name = d.named name
  allNamed : s.KeepsAll → d.AllNamed → d'.AllNamed

namespace Ready

variable {d'' : Disk}

theorem madeAt_eq (h : s.Ready d s' d') : d'.madeAt = d.madeAt := by
  funext file
  rw [Disk.madeAt, h.files_eq, Disk.madeAt]

theorem linesAt_eq (h : s.Ready d s' d') : d'.linesAt = d.linesAt := by
  funext file
  rw [Disk.linesAt, h.files_eq, Disk.linesAt]

theorem linesOf_eq (h : s.Ready d s' d') : d'.linesOf = d.linesOf := by
  funext path
  rw [Disk.linesOf, h.files_eq, Disk.linesOf]

theorem allNamed (h : s.Ready d s' d') (hall : s.KeepsAll) (hnamed : d.AllNamed) : d'.AllNamed := by
  intro file hfile
  obtain ⟨name, hname⟩ := hnamed file (h.files_eq ▸ hfile)
  exact h.named_of_keepsAll hall name file hname

/-- A stream that has its file open goes on in it. -/
theorem wrote_of_open (h : s.Ready d s' d') (hs : s.Sound d) (hfile : s'.file = some file) :
    s.Wrote d [] file s' d' := by
  obtain ⟨hsame, hpath⟩ : s'.file = s.file ∧ d'.named s.path = d.named s.path :=
    h.goesOn_or_anew.resolve_right (by rw [hfile]; exact Option.some_ne_none file)
  have hopen : s.file = some file := hsame ▸ hfile
  refine ⟨⟨h.madeAt_eq ▸ hs.madeAt_file file hopen, fun {other made} h' => h.madeAt_eq ▸ h', fun other => ?_,
    fun other => ?_⟩, hfile, h.path_eq, h.backups_eq, h.sound, fun h' => hpath.trans (h' file hopen),
    h.named_of_plain, h.allNamed⟩
  · simp [h.linesAt_eq]
  · simp [h.linesOf_eq]

/-- A stream that has no file open goes on in the file that it opens at its path. -/
theorem wrote_of_opens (h : s.Ready d s' d') (hopens : d'.Opens s.path d'' file) :
    s.Wrote d [] file { s' with file := some file } d'' := by
  refine ⟨⟨hopens.madeAt_eq, fun {other made} h' => hopens.madeAt_of_made (h.madeAt_eq ▸ h'), fun other => ?_,
    fun other => ?_⟩, rfl, h.path_eq, h.backups_eq, fun name other hname => ?_, fun _ => ?_,
    fun name hplain hne => ?_, fun hall hnamed other hother => ?_⟩
  · simp [hopens.linesAt_eq, h.linesAt_eq]
  · simp [hopens.linesOf_eq, h.linesOf_eq]
  · rw [hopens.named_eq] at hname
    split at hname
    next hpath =>
      obtain rfl := Option.some.inj hname
      exact ⟨s.path, hopens.madeAt_eq, fun _ => hpath.symm⟩
    next =>
      obtain ⟨path, hpath, hplain⟩ := h.sound name other hname
      exact ⟨path, hopens.madeAt_of_made hpath, hplain⟩
  · rw [hopens.named_eq, if_pos rfl]
  · rw [hopens.named_eq, if_neg hne, h.named_of_plain name hplain hne]
  · rcases hopens.lt_or_eq other hother with hlt | rfl
    · obtain ⟨name, hname⟩ := h.allNamed hall hnamed other hlt
      by_cases hpath : name = s.path
      · rw [hpath] at hname
        exact ⟨s.path, by rw [hopens.named_eq, if_pos rfl, hopens.eq_of_named other hname]⟩
      · exact ⟨name, by rw [hopens.named_eq, if_neg hpath, hname]⟩
    · exact ⟨s.path, by rw [hopens.named_eq, if_pos rfl]⟩

/-- A stream that is ready has a file of its path open after `opened`, to which nothing was added. -/
theorem opened (h : s.Ready d s' d') (hs : s.Sound d) (now : Int) :
    s.Wrote d [] (s'.opened now d').1 (s'.opened now d').2.1 (s'.opened now d').2.2 := by
  rw [Stream.opened]
  cases hfile : s'.file with
  | some file => exact h.wrote_of_open hs hfile
  | none =>
    have hopens := Disk.fileAt_opens h.sound (h.path_eq ▸ hs.plain : IsPlain s'.path) now
    exact h.wrote_of_opens (h.path_eq ▸ hopens)

end Ready

theorem Wrote.append (h : s.Wrote d [] file s' d') (now : Int) (lines : List String) :
    s.Wrote d lines file s' (d'.append now file lines) where
  adds := {
    madeAt_eq := by rw [Disk.madeAt_append, h.adds.madeAt_eq]
    madeAt_of_made := fun {other made} hmade => by rw [Disk.madeAt_append, h.adds.madeAt_of_made hmade]
    linesAt_eq := fun other => by
      rw [Disk.linesAt_append h.adds.madeAt_eq, h.adds.linesAt_eq, ite_self, List.append_nil]
    linesOf_perm := fun other => by
      have hsame := h.adds.linesOf_perm other
      rw [ite_self, List.append_nil] at hsame
      exact (Disk.linesOf_append h.adds.madeAt_eq other).trans (hsame.append_right _) }
  file_eq := h.file_eq
  path_eq := h.path_eq
  backups_eq := h.backups_eq
  sound name file hname := by
    rw [Disk.madeAt_append]
    exact h.sound name file hname
  named_path := h.named_path
  named_of_plain := h.named_of_plain
  allNamed hall hnamed other hother := by
    rw [Disk.append, List.length_modify] at hother
    exact h.allNamed hall hnamed other hother

/-- Lines that are written come to one file of the path of the stream. -/
theorem write_wrote (hs : s.Sound d) (hd : d.Sound) (site : Site) (now : Int) (lines : List String) :
    ∃ file, s.Wrote d lines file (s.write site now lines d).1 (s.write site now lines d).2 := by
  obtain ⟨s', d', hprepare, hready⟩ := prepare_ready hs hd site now
  rw [write, hprepare]
  exact ⟨_, (hready.opened hs now).append now lines⟩

end Stream
end SteeredConv
