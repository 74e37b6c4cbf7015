/-
# Handlers of log records

A handler passes records of at least its level on: to the console, or to a file that is
begun anew after a number of seconds. A level is a whole number; six of them have names.

Key definitions: `levelName`, `levelOf`, `Rotation`, `Rotation.of?`, `LogFile`, `Handler`,
`plainPath`, `Handler.ofSettings`.
Key statements: `levelOf_levelName`.
-/
import SteeredConv.Logging.Clock
import SteeredConv.Value.Named
import SteeredConv.Value.Number

namespace SteeredConv

/-- The levels that have names; the first name of a level is the one that is written. -/
def namedLevels : List (String × Int) :=
  [("CRITICAL", 50), ("FATAL", 50), ("ERROR", 40), ("WARNING", 30), ("WARN", 30), ("INFO", 20),
    ("DEBUG", 10), ("NOTSET", 0)]

/-- The name of a level in a line of a log. -/
def levelName (level : Int) : String :=
  match namedLevels.find? fun e => e.2 = level with
  | some (name, _) => name
  | none => s!"Level {level}"

/-- The level that a setting stands for. -/
def levelOf (v : Value) : Except Fault Int :=
  match v with
  | .int n => .ok n
  | .bool b => .ok (if b then 1 else 0)
  | .text s =>
    match namedLevels.find? fun e => e.1 = s with
    | some (_, level) => .ok level
    | none => .error (.badValue ("Unknown level: " ++ quoted s))
  | v => .error (.wrongType ("Level not an integer or a valid string: " ++ v.plain))

/-- The name that is written for a level stands for that level. -/
theorem levelOf_levelName {level : Int} (h : level ∈ namedLevels.map Prod.snd) :
    levelOf (.text (levelName level)) = .ok level := by
  simp only [namedLevels, List.map_cons, List.map_nil, List.mem_cons, List.not_mem_nil,
    or_false] at h
  rcases h with h | h | h | h | h | h | h | h <;> subst h <;> rfl

/-- When a file is begun anew. -/
structure Rotation where
  unit : RotationUnit
  seconds : Number

/-- The rotation after a number of units of time. -/
def Rotation.of? (unit interval : Value) : Except Fault Rotation :=
  match unit with
  | .text s => do
    let unit ← RotationUnit.of? s.toUpper
    match interval.number? with
    | some n => return ⟨unit, ← Number.combine (· * ·) (· * ·) (.whole unit.seconds) n⟩
    | none => throw (.operands "*" (.int unit.seconds) interval)
  | v => .error (.lacks v "upper")

/-- A file that records are written to, with the number that the handlers of a registry are told
apart by. -/
structure LogFile where
  number : Nat
  path : String
  rotation : Rotation
  backups : Value
  encoding : Value

/-- Where a handler passes records on to. -/
inductive Sink where
  | file (f : LogFile)
  | console

/-- What passes records of at least a level on. -/
structure Handler where
  level : Int
  sink : Sink

def lineLayout : String := "%(asctime)s - %(name)s - %(levelname)s - %(message)s"

def logLine (time name : String) (level : Int) (text : String) : String :=
  time ++ " - " ++ name ++ " - " ++ levelName level ++ " - " ++ text

/-- The parts of a path between its slashes. -/
def segmentsOf : List Char → List (List Char)
  | [] => [[]]
  | '/' :: rest => [] :: segmentsOf rest
  | c :: rest =>
    match segmentsOf rest with
    | [] => [[c]]
    | first :: others => (c :: first) :: others

/-- The parts of a path without those that lead nowhere. -/
def stepAlong (done : List (List Char)) (segment : List Char) : List (List Char) :=
  if segment = [] ∨ segment = ['.'] then done
  else if segment = ['.', '.'] then done.dropLast
  else done ++ [segment]

/-- The path of a file in a directory; a path that begins at the top stands for itself. -/
def pathIn (directory file : String) : String :=
  if file.startsWith "/" || directory.isEmpty then file else directory ++ "/" ++ file

/-- A path from a directory on in its plainest form. -/
def plainPath (directory path : String) : String :=
  "/" ++ String.ofList (['/'].intercalate ((segmentsOf (pathIn directory path).toList).foldl stepAlong []))

/-- The encoding of a file; nothing stands for that of the locale. -/
def encodingOf (v : Value) : Value := if v.isNull then .text "locale" else v

/-- A file to write to. -/
def LogFile.create (site : Site) (number : Nat) (path : String) (unit backups encoding interval : Value) :
    Except Fault LogFile := do
  let rotation ← Rotation.of? unit interval
  return ⟨number, plainPath site.directory path, rotation, backups, encodingOf encoding⟩

namespace Handler

/-- A handler that writes to a file, the settings being given by name. -/
def ofSettings (site : Site) (path : String) (settings : List (String × Value)) : Except Fault Handler := do
  Named.only ["level", "when", "backupCount", "encoding", "interval"] settings
  let level ← Named.required settings "level"
  let f ← LogFile.create site 0 path (Named.get settings "when" (.text "midnight"))
    (Named.get settings "backupCount" (.int 7)) (Named.get settings "encoding" (.text "utf-8"))
    (Named.get settings "interval" (.int 1))
  return ⟨← levelOf level, .file f⟩

def withLevel (h : Handler) (level : Int) : Handler := { h with level := level }

end Handler
end SteeredConv
