/-
# Loggers by name

Loggers are kept under their names. The first request of a name decides on its
handlers: a file, and for a main logger the console as well. Every request sets the
level of the logger and of its handlers, and no request adds handlers to a logger that
has some. A record that reaches the level of its logger goes to the handlers of the
logger and of those above it, up to the first that passes nothing on, and is written by
those whose level it reaches. A handler of a file writes through a stream of its own,
which is found under the number of the file.

Key definitions: `Purpose`, `LoggerRequest`, `Logger`, `Registry`, `Registry.request`,
`Registry.write`.
Key statements: `Registry.find?_put`, `Registry.find?_put_of_ne`.
-/
import SteeredConv.Logging.Disk

namespace SteeredConv

/-- What a logger is requested for. -/
inductive Purpose where
  | main
  | errors
  | debug
  deriving Repr, DecidableEq

namespace Purpose

/-- The name of the logger if none is given. -/
def defaultName : Purpose → String
  | main => "gradorient"
  | errors => "error_logger"
  | debug => "debug_logger"

/-- The level of the logger if none is given. -/
def defaultLevel : Purpose → Int
  | main => 20
  | errors => 40
  | debug => 10

/-- How many earlier files are kept if no number is given. -/
def defaultBackups : Purpose → Int
  | main => 7
  | errors => 30
  | debug => 7

/-- The settings that a request may give. -/
def known : Purpose → List String
  | main => ["name", "level", "when", "backupCount"]
  | errors | debug => ["name", "level", "backupCount"]

/-- What the name of the file begins with. -/
def stem (p : Purpose) (name : Value) : String :=
  match p with
  | main => name.plain
  | errors => "errors"
  | debug => "debug"

end Purpose

/-- A request for a logger. -/
structure LoggerRequest where
  purpose : Purpose
  name : Value
  directory : String
  level : Value
  rotationUnit : Value
  backups : Value

/-- The path of the file of a logger that is first requested on a given day. -/
def LoggerRequest.path (today : String) (r : LoggerRequest) : String :=
  pathIn r.directory (r.purpose.stem r.name ++ "_" ++ today ++ ".log")

/-- A request whose settings are given by name. -/
def LoggerRequest.ofSettings (purpose : Purpose) (directory : String)
    (settings : List (String × Value)) : Except Fault LoggerRequest := do
  Named.only purpose.known settings
  return {
    purpose := purpose, directory := directory
    name := Named.get settings "name" (.text purpose.defaultName)
    level := Named.get settings "level" (.int purpose.defaultLevel)
    rotationUnit := Named.get settings "when" (.text "midnight")
    backups := Named.get settings "backupCount" (.int purpose.defaultBackups) }

/-- A logger. -/
structure Logger where
  level : Int := 0
  /-- Whether records are passed on to the logger above. -/
  propagates : Bool := true
  handlers : List Handler := []

/-- Loggers by name, the files that are written to and the streams that write to them, and the lines of
the console. -/
structure Registry where
  loggers : List (String × Logger) := []
  disk : Disk := {}
  streams : List Stream := []
  console : List String := []

namespace Registry

/-- The registry before any request. -/
def empty : Registry := {}

/-- The name of the logger above all others. -/
def topName : String := "root"

/-- The name under which a logger is kept. -/
def keyOf (name : Value) : Except Fault String :=
  if !name.isTrue then .ok topName
  else
    match name with
    | .text s => .ok s
    | _ => .error (.wrongType "A logger name must be a string")

/-- The logger of a name, if it was requested. -/
def find? (g : Registry) (name : String) : Option Logger := Entries.lookup name g.loggers

/-- The registry with a logger changed or added. -/
def put (g : Registry) (name : String) (l : Logger) : Registry :=
  { g with loggers := Entries.assign name l g.loggers }

@[simp] theorem find?_put (g : Registry) (name : String) (l : Logger) :
    (g.put name l).find? name = some l :=
  Entries.lookup_assign name l g.loggers

theorem find?_put_of_ne (g : Registry) {name other : String} (h : other ≠ name) (l : Logger) :
    (g.put name l).find? other = g.find? other := Entries.lookup_assign_of_ne h l g.loggers

/-- The handlers that the first request of a logger creates, and the stream of its file. -/
def handlersFor (site : Site) (now : Int) (r : LoggerRequest) (level : Int) (g : Registry) :
    Except Fault (List Handler × Stream) := do
  let f ← LogFile.create site g.streams.length (r.path (site.today now)) r.rotationUnit r.backups (.text "utf-8")
    (.int 1)
  let file : Handler := ⟨level, .file f⟩
  return (if r.purpose = .main then [file, ⟨level, .console⟩] else [file], Stream.ofFile site now g.disk f)

/-- Answers a request. Handlers that cannot be created leave the logger at its new level. -/
def request (site : Site) (now : Int) (r : LoggerRequest) (g : Registry) :
    Except Fault (String × Logger) × Registry :=
  match keyOf r.name, levelOf r.level with
  | .error e, _ | _, .error e => (.error e, g)
  | .ok name, .ok level =>
    let l : Logger := { (g.find? name).getD {} with level := level, propagates := false }
    if l.handlers.isEmpty then
      match handlersFor site now r level g with
      | .error e => (.error e, g.put name l)
      | .ok (handlers, stream) =>
        let l := { l with handlers := handlers }
        (.ok (name, l), { g.put name l with streams := g.streams ++ [stream] })
    else
      let l := { l with handlers := l.handlers.map fun h => h.withLevel level }
      (.ok (name, l), g.put name l)

/-- The names of the loggers up to the top, nearest first and the top left out. -/
def lineage (name : String) : List String :=
  if name = topName then []
  else
    let segments := name.splitOn "."
    name :: (List.range (segments.length - 1)).map fun i =>
      String.intercalate "." (segments.take (segments.length - 1 - i))

/-- The level from which the loggers of the given names on accept records: the first one that is
not zero. -/
def levelAlong (g : Registry) : List String → Int
  | [] => ((g.find? topName).map Logger.level).getD 30
  | name :: above =>
    match g.find? name with
    | some l => if l.level = 0 then levelAlong g above else l.level
    | none => levelAlong g above

/-- The level from which a logger accepts records. -/
def acceptedFrom (g : Registry) (name : String) : Int := levelAlong g (lineage name)

/-- The handlers that a record of the loggers of the given names comes to. -/
def handlersAlong (g : Registry) : List String → List Handler
  | [] => ((g.find? topName).map Logger.handlers).getD []
  | name :: above =>
    match g.find? name with
    | some l => if l.propagates then l.handlers ++ handlersAlong g above else l.handlers
    | none => handlersAlong g above

/-- Writes the lines of a text through a stream. -/
def writeThrough (site : Site) (now : Int) (number : Nat) (text : String) (g : Registry) : Registry :=
  match g.streams[number]? with
  | some stream =>
    let (stream, disk) := stream.write site now (text.splitOn "\n") g.disk
    { g with streams := g.streams.set number stream, disk := disk }
  | none => g

/-- Adds the lines of a text to the console. -/
def display (g : Registry) (text : String) : Registry :=
  { g with console := g.console ++ text.splitOn "\n" }

/-- Passes a record on to a handler. -/
def emit (site : Site) (m : Instant) (name : String) (level : Int) (text : String) (g : Registry) (h : Handler) :
    Registry :=
  if h.level ≤ level then
    match h.sink with
    | .console => g.display (logLine (site.stamp m) name level text)
    | .file f => g.writeThrough site m.seconds f.number (logLine (site.stamp m) name level text)
  else g

/-- Writes a record. The bare text of a warning that comes to no handler is displayed. -/
def write (site : Site) (m : Instant) (name : String) (level : Int) (text : String) (g : Registry) : Registry :=
  if g.acceptedFrom name ≤ level then
    match g.handlersAlong (lineage name) with
    | [] => if 30 ≤ level then g.display text else g
    | handlers => handlers.foldl (emit site m name level text) g
  else g

end Registry
end SteeredConv
