/-
# Files that are begun anew

A disk has files, each under at most one name. Lines are only added to files; names are
given, changed and taken away. A stream is the side of a file handler that writes: it
has a file open from its first record on, and when its time is due it gives the file the
name of the time in which it was begun, takes away the names of the earliest files
beyond the number that are kept, and goes on in a new file. If a file of that time
is kept already, by another stream of the path for instance, nothing is renamed and the
stream goes on in the file that it has open.

The place where a file was made is kept with it, to speak of it. That directories can be
made and files opened, and what is written on a failure to begin a file anew, is left
out.

Key definitions: `StoredFile`, `Disk`, `Stream`, `Stream.expired`, `Stream.beginAnew`,
`Stream.write`.
Key statements: `Entries.lookup_assign`, `Entries.lookup_assign_of_ne`.
-/
import SteeredConv.Logging.Handler

namespace SteeredConv

namespace Entries

variable {β : Type} {key other : String}

/-- The entry of a key, if there is one. -/
def lookup (key : String) : List (String × β) → Option β
  | [] => none
  | (k, b) :: rest => if k = key then some b else lookup key rest

/-- The entries with one changed or added. -/
def assign (key : String) (b : β) : List (String × β) → List (String × β)
  | [] => [(key, b)]
  | (k, c) :: rest => if k = key then (k, b) :: rest else (k, c) :: assign key b rest

theorem lookup_assign (key : String) (b : β) :
    ∀ entries : List (String × β), lookup key (assign key b entries) = some b
  | [] => by simp [assign, lookup]
  | (k, c) :: rest => by
    by_cases h : k = key
    · simp [assign, lookup, h]
    · simp [assign, lookup, h, lookup_assign key b rest]

theorem lookup_assign_of_ne (h : other ≠ key) (b : β) :
    ∀ entries : List (String × β), lookup other (assign key b entries) = lookup other entries
  | [] => by simp [assign, lookup, Ne.symm h]
  | (k, c) :: rest => by
    by_cases hk : k = key
    · have : k ≠ other := fun e => h (e.symm.trans hk)
      simp [assign, lookup, hk, Ne.symm h]
    · by_cases ho : k = other
      · simp [assign, lookup, ho, h]
      · simp [assign, lookup, hk, ho, lookup_assign_of_ne h b rest]

/-- The entries of the keys that are kept. -/
def restrict (keeps : String → Bool) (entries : List (String × β)) : List (String × β) :=
  entries.filter fun e => keeps e.1

theorem lookup_restrict (keeps : String → Bool) : ∀ entries : List (String × β),
    lookup key (restrict keeps entries) = if keeps key then lookup key entries else none
  | [] => by simp [restrict, lookup]
  | (k, c) :: rest => by
    have ih := lookup_restrict keeps rest
    rw [restrict] at ih ⊢
    by_cases hk : k = key
    · subst hk
      by_cases hkeeps : keeps k <;> simp_all [lookup]
    · by_cases hkeeps : keeps k <;> simp_all [lookup]

end Entries

/-- A file: where it was made, its lines, and when it was last written to. -/
structure StoredFile where
  path : String
  lines : List String
  modified : Int

/-- Files, and the names that lead to them. -/
structure Disk where
  files : List StoredFile := []
  names : List (String × Nat) := []

namespace Disk

/-- The file of a name. -/
def named (d : Disk) (path : String) : Option Nat := Entries.lookup path d.names

/-- Adds lines to a file. -/
def append (d : Disk) (now : Int) (file : Nat) (lines : List String) : Disk :=
  { d with files := d.files.modify file fun f => { f with lines := f.lines ++ lines, modified := now } }

/-- The file of a name, made if there is none. -/
def fileAt (d : Disk) (now : Int) (path : String) : Disk × Nat :=
  match d.named path with
  | some file => (d, file)
  | none => (⟨d.files ++ [⟨path, [], now⟩], Entries.assign path d.files.length d.names⟩, d.files.length)

/-- Gives a file another name; a name that leads nowhere stays so. -/
def rename (d : Disk) (path other : String) : Disk :=
  match d.named path with
  | some file => { d with names := Entries.assign other file (Entries.restrict (· ≠ path) d.names) }
  | none => d

/-- Takes names away. -/
def remove (d : Disk) (paths : List String) : Disk :=
  { d with names := Entries.restrict (fun name => !paths.contains name) d.names }

end Disk

/-- The side of a file handler that writes. Loggers begin their files anew after one unit of time. -/
structure Stream where
  path : String
  unit : RotationUnit
  backups : Value
  /-- When the file is to be begun anew. -/
  due : Int
  /-- The file that is open. -/
  file : Option Nat := none

namespace Stream

/-- The stream of a new handler: its time counts from the last change of the file, or from now. -/
def ofFile (site : Site) (now : Int) (d : Disk) (f : LogFile) : Stream :=
  let since := ((d.named f.path).bind fun file => d.files[file]?).elim now StoredFile.modified
  { path := f.path, unit := f.rotation.unit, backups := f.backups, due := f.rotation.unit.next site since }

/-- The name under which a file is kept that was begun at some time. -/
def datedName (s : Stream) (t : WallTime) : String := s.path ++ "." ++ s.unit.suffix t

/-- The names of the files that are kept, earliest first. -/
def datedNames (s : Stream) (d : Disk) : List String :=
  let stem := (s.path ++ ".").toList
  let kept := (d.names.map Prod.fst).filter fun name =>
    stem.isPrefixOf name.toList && RotationUnit.isOfForm s.unit.form.toList (name.toList.drop stem.length)
  kept.mergeSort fun a b => decide (a ≤ b)

/-- The names that are taken away: the earliest ones beyond the number that is kept, if one is set. -/
def expired (backups : Value) (dated : List String) : Except Fault (List String) :=
  match backups.number? with
  | none => .error (.unordered ">" backups (.int 0))
  | some n =>
    if !(Number.whole 0).lt n || (Number.whole dated.length).lt n then .ok []
    else
      match n with
      | .whole k => .ok (dated.take (dated.length - k).toNat)
      | .real _ => .error (.wrongType "slice indices must be integers or None or have an __index__ method")

/-- Begins the file anew, unless a file of its time is kept already. -/
def beginAnew (site : Site) (now : Int) (s : Stream) (d : Disk) : Except Fault Unit × Stream × Disk :=
  let name := s.datedName (s.unit.begun site now s.due)
  if (d.named name).isSome then (.ok (), s, d)
  else
    let d := d.rename s.path name
    let s := { s with file := none }
    match expired s.backups (s.datedNames d) with
    | .error e => (.error e, s, d)
    | .ok names => (.ok (), { s with due := s.unit.next site now }, d.remove names)

/-- Begins the file anew if its time has come. -/
def prepare (site : Site) (now : Int) (s : Stream) (d : Disk) : Except Fault Unit × Stream × Disk :=
  if s.due ≤ now then s.beginAnew site now d else (.ok (), s, d)

/-- The stream with a file open: the one of its path if there was none. -/
def opened (now : Int) (s : Stream) (d : Disk) : Nat × Stream × Disk :=
  match s.file with
  | some file => (file, s, d)
  | none =>
    let (d, file) := d.fileAt now s.path
    (file, { s with file := some file }, d)

/-- Writes lines to the file that is open, once that is of its time. -/
def write (site : Site) (now : Int) (lines : List String) (s : Stream) (d : Disk) : Stream × Disk :=
  match s.prepare site now d with
  | (.error _, s, d) => (s, d)
  | (.ok (), s, d) =>
    let (file, s, d) := s.opened now d
    (s, d.append now file lines)

end Stream
end SteeredConv
