/-
# Loggers over whole histories

A history is a list of requests for loggers and of records. After every history the
logger of a name has the handlers that its first request created: one file, and the
console as well if that request was for a main logger. It and its handlers have the
level of its latest request, and it passes nothing on. Every record at or above that
level is written once, to a file of the path that the first request chose; no other line
is written.

Files are begun anew in between. The earlier file keeps its lines under another name, so
the lines of a path are those of all files that were made there, and the path itself
leads to the file that is written to unless another logger begins files anew at the same
path. A file loses its name only where the number of earlier files is limited.

Histories start with no loggers and no files, and their records go to loggers that were
requested before. Names do not stand for the top, levels are at least one. That
directories and files can be made is left out.

Key definitions: `LogEvent`, `LogEvent.Fits`, `History`, `Registry.after`, `requestsOf`,
`Logger.StandsBy`, `LogEvent.linesTo`, `LogEvent.linesShown`, `linesAfter`,
`Registry.Keeps`, `Registry.Ordered`, `Registry.Taken`.
Key theorems: `Registry.request_first`, `Registry.request_again`, `Registry.write_of_standing`,
`Registry.Keeps.step`, `Registry.Keeps.steps`, `Registry.kept_through_history`.
-/
import SteeredConv.Logging.Registry
import SteeredConv.Proofs.LogFiles

namespace SteeredConv

/-! ### Requests and records -/

namespace LoggerRequest

/-- The name of the logger that is requested; the top stands for names that are refused. -/
def loggerName (r : LoggerRequest) : String := (Registry.keyOf r.name).toOption.getD Registry.topName

/-- The level that is requested; zero stands for levels that are refused. -/
def loggerLevel (r : LoggerRequest) : Int := (levelOf r.level).toOption.getD 0

/-- The path that the request chooses at its moment if it is the first one of its logger. -/
def chosenPath (site : Site) (now : Int) (r : LoggerRequest) : String :=
  plainPath site.directory (r.path (site.today now))

/-- The handlers of a logger with that first request, at a level: its file, which has a number, and the
console for a main logger. -/
def handlersAt (site : Site) (now : Int) (number : Nat) (rotation : Rotation) (level : Int) (r : LoggerRequest) :
    List Handler :=
  ⟨level, .file ⟨number, r.chosenPath site now, rotation, r.backups, .text "utf-8"⟩⟩ ::
    if r.purpose = .main then [⟨level, .console⟩] else []

/-- The request is for a logger below the top and a level of at least one, with a unit of time that
files are begun anew by and a whole number of earlier files to keep. -/
structure Valid (r : LoggerRequest) : Prop where
  below : r.loggerName ≠ Registry.topName
  positive : 1 ≤ r.loggerLevel
  rotates : ∃ rotation, Rotation.of? r.rotationUnit (.int 1) = .ok rotation
  counts : ∃ k, r.backups.number? = some (.whole k)

variable {r : LoggerRequest}

theorem Valid.keyOf_eq (h : r.Valid) : Registry.keyOf r.name = .ok r.loggerName := by
  have hbelow := h.below
  unfold loggerName at hbelow ⊢
  cases hkey : Registry.keyOf r.name with
  | ok name => rfl
  | error e => simp [hkey, Except.toOption] at hbelow

theorem Valid.levelOf_eq (h : r.Valid) : levelOf r.level = .ok r.loggerLevel := by
  have hpositive := h.positive
  unfold loggerLevel at hpositive ⊢
  cases hlevel : levelOf r.level with
  | ok level => rfl
  | error e => simp [hlevel, Except.toOption] at hpositive

theorem chosenPath_isPlain (site : Site) (now : Int) (r : LoggerRequest) : IsPlain (r.chosenPath site now) := by
  have hpath : ∃ text, r.path (site.today now) = text ++ ".log" := by
    rw [path, pathIn]
    split
    · exact ⟨_, rfl⟩
    · exact ⟨r.directory ++ "/" ++ (r.purpose.stem r.name ++ "_" ++ site.today now), by simp only [String.append_assoc]⟩
  obtain ⟨text, htext⟩ := hpath
  exact plainPath_isPlain htext

end LoggerRequest

/-- What happens to a registry. -/
inductive LogEvent where
  | request (now : Int) (r : LoggerRequest)
  | record (m : Instant) (name : String) (level : Int) (text : String)

/-- The requests for a logger, each with its moment. -/
def requestsOf (name : String) (events : List LogEvent) : List (Int × LoggerRequest) :=
  events.filterMap fun
    | .request now r => if r.loggerName = name then some (now, r) else none
    | .record .. => none

/-- The moment and the first request of a logger in a history, and its latest request. -/
structure FirstLatest (name : String) (events : List LogEvent) (now : Int) (first latest : LoggerRequest) :
    Prop where
  head_eq : (requestsOf name events).head? = some (now, first)
  last_eq : (requestsOf name events).getLast?.map Prod.snd = some latest

namespace LogEvent

/-- The event can follow a history: a request is valid, a record goes to a logger that was requested. -/
def Fits (before : List LogEvent) : LogEvent → Prop
  | request _ r => r.Valid
  | record _ name _ _ => requestsOf name before ≠ []

/-- The lines that an event adds after a history wherever the first requests that are chosen had its
records written: those of a record at or above the level of the latest request of its logger. -/
def linesWhere (site : Site) (chosen : Int → LoggerRequest → Bool) (before : List LogEvent) :
    LogEvent → List String
  | request .. => []
  | record m name level text =>
    match (requestsOf name before).head?, (requestsOf name before).getLast? with
    | some (now, first), some (_, latest) =>
      if latest.loggerLevel ≤ level ∧ chosen now first = true then
        (logLine (site.stamp m) name level text).splitOn "\n"
      else []
    | _, _ => []

/-- The lines that an event adds to the files of a path. -/
def linesTo (site : Site) (path : String) : List LogEvent → LogEvent → List String :=
  linesWhere site fun now first => first.chosenPath site now = path

/-- The lines that an event adds to the console. -/
def linesShown (site : Site) : List LogEvent → LogEvent → List String :=
  linesWhere site fun _ first => first.purpose = .main

end LogEvent

/-- A history goes on with events of which each fits those before it. -/
def History (before : List LogEvent) : List LogEvent → Prop
  | [] => True
  | e :: rest => e.Fits before ∧ History (before ++ [e]) rest

/-- What the events after a history add up to, each adding lines that depend on those before it. -/
def linesAfter (lines : List LogEvent → LogEvent → List String) (before : List LogEvent) :
    List LogEvent → List String
  | [] => []
  | e :: rest => lines before e ++ linesAfter lines (before ++ [e]) rest

section Requests

variable {site : Site} {name text : String} {m : Instant} {now level : Int} {r first latest : LoggerRequest}
  {before : List LogEvent}

theorem requestsOf_append_record {other : String} :
    requestsOf name (before ++ [.record m other level text]) = requestsOf name before := by
  simp [requestsOf]

theorem requestsOf_append_request :
    requestsOf name (before ++ [.request now r]) =
      requestsOf name before ++ if r.loggerName = name then [(now, r)] else [] := by
  by_cases h : r.loggerName = name <;> simp [requestsOf, h]

theorem requestsOf_append_of_ne (h : name ≠ r.loggerName) :
    requestsOf name (before ++ [.request now r]) = requestsOf name before := by
  rw [requestsOf_append_request, if_neg (Ne.symm h), List.append_nil]

theorem loggerName_of_mem {q : Int × LoggerRequest} (h : q ∈ requestsOf name before) :
    q.2.loggerName = name := by
  obtain ⟨e, -, he⟩ := List.mem_filterMap.mp h
  cases e with
  | request now r =>
    by_cases hname : r.loggerName = name
    · simp only [hname, if_true, Option.some.injEq] at he
      rw [← he, hname]
    · simp [hname] at he
  | record => simp at he

theorem exists_firstLatest (h : requestsOf name before ≠ []) :
    ∃ now first latest, FirstLatest name before now first latest :=
  ⟨_, _, _, ⟨List.head?_eq_some_head h, by rw [List.getLast?_eq_some_getLast h, Option.map_some]⟩⟩

theorem FirstLatest.ne_nil (h : FirstLatest name before now first latest) : requestsOf name before ≠ [] := by
  intro hnil
  have hhead := h.head_eq
  simp [hnil] at hhead

theorem FirstLatest.latest_mem (h : FirstLatest name before now first latest) :
    ∃ earlier, (earlier, latest) ∈ requestsOf name before := by
  obtain ⟨⟨earlier, _⟩, hlast, rfl⟩ := Option.map_eq_some_iff.mp h.last_eq
  exact ⟨earlier, List.mem_of_getLast? hlast⟩

theorem firstLatest_first (h : requestsOf r.loggerName before = []) :
    FirstLatest r.loggerName (before ++ [.request now r]) now r r := by
  constructor <;> simp [requestsOf_append_request, h]

/-- A further request leaves the first one as it is. -/
theorem FirstLatest.again {earlier : Int} (h : FirstLatest r.loggerName before earlier first latest) :
    FirstLatest r.loggerName (before ++ [.request now r]) earlier first r := by
  constructor
  · rw [requestsOf_append_request, if_pos rfl, List.head?_append, h.head_eq, Option.some_or]
  · simp [requestsOf_append_request]

theorem FirstLatest.unique {earlier : Int} {one other : LoggerRequest}
    (h : FirstLatest name before now first latest) (h' : FirstLatest name before earlier one other) :
    earlier = now ∧ one = first ∧ other = latest := by
  obtain ⟨hhead, hlast⟩ := h
  obtain ⟨hhead', hlast'⟩ := h'
  rw [hhead] at hhead'
  rw [hlast] at hlast'
  simp only [Option.some.injEq, Prod.mk.injEq] at hhead' hlast'
  exact ⟨hhead'.1.symm, hhead'.2.symm, hlast'.symm⟩

theorem LogEvent.linesWhere_of_firstLatest (h : FirstLatest name before now first latest)
    (chosen : Int → LoggerRequest → Bool) :
    (LogEvent.record m name level text).linesWhere site chosen before =
      if latest.loggerLevel ≤ level ∧ chosen now first = true then
        (logLine (site.stamp m) name level text).splitOn "\n"
      else [] := by
  obtain ⟨⟨earlier, _⟩, hlast, rfl⟩ := Option.map_eq_some_iff.mp h.last_eq
  simp only [linesWhere, h.head_eq, hlast]

end Requests

/-! ### How a logger stands -/

/-- The logger has the handlers that its first request created, it and they have the level of the latest
request, and it passes nothing on. -/
structure Logger.StandsBy (site : Site) (now : Int) (first latest : LoggerRequest) (number : Nat) (l : Logger) :
    Prop where
  level_eq : l.level = latest.loggerLevel
  silent : l.propagates = false
  handlers_eq : ∃ rotation, Rotation.of? first.rotationUnit (.int 1) = .ok rotation ∧
    l.handlers = first.handlersAt site now number rotation latest.loggerLevel

/-- The stream writes to the path that a first request chose, and keeps as many earlier files as it set. -/
structure Stream.Serves (site : Site) (now : Int) (first : LoggerRequest) (s : Stream) : Prop where
  path_eq : s.path = first.chosenPath site now
  backups_eq : s.backups = first.backups

theorem Stream.Serves.sound {site : Site} {now : Int} {r : LoggerRequest} {s : Stream} {d : Disk}
    (hserves : s.Serves site now r) (h : r.Valid) (hfile : s.file = none) : s.Sound d where
  plain := hserves.path_eq ▸ r.chosenPath_isPlain site now
  whole := hserves.backups_eq ▸ h.counts
  madeAt_file file hopen := by
    rw [hfile] at hopen
    cases hopen

theorem LoggerRequest.map_withLevel_handlersAt (site : Site) (now : Int) (number : Nat) (rotation : Rotation)
    (before level : Int) (r : LoggerRequest) :
    (r.handlersAt site now number rotation before).map (fun h => h.withLevel level) =
      r.handlersAt site now number rotation level := by
  by_cases hmain : r.purpose = .main <;> simp [handlersAt, hmain, Handler.withLevel]

namespace Registry

variable {site : Site} {g : Registry} {r first latest : LoggerRequest} {name text : String} {m : Instant}
  {now level : Int} {l : Logger} {number : Nat} {s : Stream}

theorem handlersFor_of_valid (h : r.Valid) (site : Site) (now : Int) (g : Registry) : ∃ rotation s,
    Rotation.of? r.rotationUnit (.int 1) = .ok rotation ∧ s.Serves site now r ∧ s.file = none ∧
      handlersFor site now r r.loggerLevel g =
        .ok (r.handlersAt site now g.streams.length rotation r.loggerLevel, s) := by
  obtain ⟨rotation, hrotation⟩ := h.rotates
  refine ⟨rotation, Stream.ofFile site now g.disk
    ⟨g.streams.length, r.chosenPath site now, rotation, r.backups, .text "utf-8"⟩, hrotation, ⟨rfl, rfl⟩, rfl, ?_⟩
  by_cases hmain : r.purpose = .main <;>
    simp [handlersFor, LogFile.create, hrotation, hmain, LoggerRequest.handlersAt, LoggerRequest.chosenPath,
      encodingOf, Value.isNull, bind, Except.bind, pure, Except.pure]

/-- The first request of a logger creates it. -/
theorem request_first (h : r.Valid) (habsent : g.find? r.loggerName = none) (site : Site) (now : Int) :
    ∃ l s, l.StandsBy site now r r g.streams.length ∧ s.Serves site now r ∧ s.file = none ∧
      g.request site now r =
        (.ok (r.loggerName, l), { g.put r.loggerName l with streams := g.streams ++ [s] }) := by
  obtain ⟨rotation, s, hrotation, hserves, hfile, hhandlers⟩ := handlersFor_of_valid h site now g
  refine ⟨⟨r.loggerLevel, false, r.handlersAt site now g.streams.length rotation r.loggerLevel⟩, s,
    ⟨rfl, rfl, rotation, hrotation, rfl⟩, hserves, hfile, ?_⟩
  simp only [request, h.keyOf_eq, h.levelOf_eq, habsent, Option.getD_none, List.isEmpty_nil, if_true, hhandlers]

/-- A further request leaves a logger its handlers and sets their level. -/
theorem request_again {earlier : Int} (h : r.Valid) (hfound : g.find? r.loggerName = some l)
    (hl : l.StandsBy site earlier first latest number) (now : Int) :
    ∃ l', l'.StandsBy site earlier first r number ∧
      g.request site now r = (.ok (r.loggerName, l'), g.put r.loggerName l') := by
  obtain ⟨rotation, hrotation, hhandlers⟩ := hl.handlers_eq
  have hsome : l.handlers.isEmpty = false := by rw [hhandlers]; rfl
  refine ⟨⟨r.loggerLevel, false, l.handlers.map fun h => h.withLevel r.loggerLevel⟩,
    ⟨rfl, rfl, rotation, hrotation, ?_⟩, ?_⟩
  · rw [hhandlers, LoggerRequest.map_withLevel_handlersAt]
  · simp only [request, h.keyOf_eq, h.levelOf_eq, hfound, Option.getD_some, hsome, Bool.false_eq_true, if_false]

/-! ### What a record adds -/

theorem handlers_of_standing (hbelow : name ≠ topName) (hfound : g.find? name = some l)
    (hl : l.StandsBy site now first latest number) (hpositive : 1 ≤ latest.loggerLevel) :
    g.acceptedFrom name = latest.loggerLevel ∧ g.handlersAlong (lineage name) = l.handlers := by
  have hlevel : latest.loggerLevel ≠ 0 := by omega
  constructor
  · simp only [acceptedFrom, lineage, if_neg hbelow, levelAlong, hfound, hl.level_eq, if_neg hlevel]
  · simp [lineage, hbelow, handlersAlong, hfound, hl.silent]

/-- The registry after lines were written through a stream, and shown on the console or not. -/
def written (site : Site) (now : Int) (number : Nat) (s : Stream) (lines : List String) (shown : Bool)
    (g : Registry) : Registry :=
  let w := s.write site now lines g.disk
  { g with
    streams := g.streams.set number w.1, disk := w.2, console := g.console ++ if shown then lines else [] }

/-- A record is written once through the stream of its logger if it reaches the level of the logger's
latest request, and else nowhere. -/
theorem write_of_standing (hbelow : name ≠ topName) (hfound : g.find? name = some l)
    (hl : l.StandsBy site now first latest number) (hpositive : 1 ≤ latest.loggerLevel)
    (hs : g.streams[number]? = some s) (m : Instant) (level : Int) (text : String) :
    g.write site m name level text =
      if latest.loggerLevel ≤ level then
        g.written site m.seconds number s ((logLine (site.stamp m) name level text).splitOn "\n")
          (first.purpose = .main)
      else g := by
  obtain ⟨haccepted, halong⟩ := handlers_of_standing hbelow hfound hl hpositive
  obtain ⟨rotation, -, hhandlers⟩ := hl.handlers_eq
  by_cases hreached : latest.loggerLevel ≤ level
  · by_cases hmain : first.purpose = .main
    · simp only [write, haccepted, halong, hhandlers, LoggerRequest.handlersAt, hmain, hreached, if_true,
        List.foldl_cons, List.foldl_nil, emit, writeThrough, hs, display, written, decide_true]
    · simp only [write, haccepted, halong, hhandlers, LoggerRequest.handlersAt, hmain, hreached, if_true, if_false,
        List.foldl_cons, List.foldl_nil, emit, writeThrough, hs, written, decide_false, Bool.false_eq_true,
        List.append_nil]
  · simp only [write, haccepted, hreached, if_false]

/-! ### Whole histories -/

/-- The registry after one more event. -/
def step (site : Site) (g : Registry) : LogEvent → Registry
  | .request now r => (g.request site now r).2
  | .record m name level text => g.write site m name level text

/-- The registry after a history that began with no loggers and no files. -/
def after (site : Site) (events : List LogEvent) : Registry := events.foldl (step site) empty

/-- The registry holds a logger as its requests have it, with the stream of its file. -/
structure Holds (g : Registry) (site : Site) (name : String) (now : Int) (first latest : LoggerRequest)
    (number : Nat) (s : Stream) (l : Logger) : Prop where
  found : g.find? name = some l
  stands : l.StandsBy site now first latest number
  stream : g.streams[number]? = some s
  serves : s.Serves site now first

/-- No other stream has the path of a stream. -/
def Alone (g : Registry) (number : Nat) (s : Stream) : Prop :=
  ∀ other s', g.streams[other]? = some s' → s'.path = s.path → other = number

/-- The registry holds the loggers that a history requested, each as its requests have it, and its streams
are theirs. -/
structure Keeps (site : Site) (g : Registry) (before : List LogEvent) : Prop where
  absent : ∀ name, requestsOf name before = [] → g.find? name = none
  valid : ∀ name, ∀ q ∈ requestsOf name before, q.2.Valid
  holds : ∀ name now first latest, FirstLatest name before now first latest →
    ∃ number s l, g.Holds site name now first latest number s l
  owned : ∀ number s, g.streams[number]? = some s → ∃ name now first latest l,
    FirstLatest name before now first latest ∧ g.Holds site name now first latest number s l

/-- The streams and the disk go together. -/
structure Ordered (g : Registry) : Prop where
  disk : g.disk.Sound
  streams : ∀ (number : Nat) (s : Stream), g.streams[number]? = some s → s.Sound g.disk
  current : ∀ (number : Nat) (s : Stream), g.streams[number]? = some s → g.Alone number s →
    ∀ file, s.file = some file → g.disk.named s.path = some file
  named : (∀ (number : Nat) (s : Stream), g.streams[number]? = some s → s.KeepsAll) → g.disk.AllNamed

/-- The registry comes from another one by further lines in the files of paths and on the console. -/
structure Gains (g : Registry) (toPath : String → List String) (shown : List String) (g' : Registry) : Prop where
  linesOf_perm : ∀ path, (g'.disk.linesOf path).Perm (g.disk.linesOf path ++ toPath path)
  console_eq : g'.console = g.console ++ shown
  extends_disk : g.disk.Extends g'.disk

variable {before : List LogEvent}

theorem Gains.of_disk_eq {g' : Registry} (hdisk : g'.disk = g.disk) (hconsole : g'.console = g.console) :
    g.Gains (fun _ => []) [] g' where
  linesOf_perm path := by rw [hdisk, List.append_nil]
  console_eq := by rw [hconsole, List.append_nil]
  extends_disk := hdisk ▸ Disk.Extends.refl g.disk

theorem Holds.number_eq {earlier : Int} {one other : LoggerRequest} {i : Nat} {s' : Stream} {l' : Logger}
    (h : g.Holds site name now first latest number s l) (h' : g.Holds site name earlier one other i s' l') :
    i = number := by
  obtain rfl : l = l' := Option.some.inj (h.found.symm.trans h'.found)
  obtain ⟨rotation, -, hhandlers⟩ := h.stands.handlers_eq
  obtain ⟨rotation', -, hhandlers'⟩ := h'.stands.handlers_eq
  rw [hhandlers] at hhandlers'
  simp only [LoggerRequest.handlersAt, List.cons.injEq, Handler.mk.injEq, Sink.file.injEq, LogFile.mk.injEq]
    at hhandlers'
  exact hhandlers'.1.2.1.symm

/-! A request -/

/-- A request that is answered changes its own logger, and creates at most its own stream. -/
theorem Keeps.step_request {g' : Registry} {earlier : Int} (hg : Keeps site g before) (h : r.Valid)
    (hrequested : FirstLatest r.loggerName (before ++ [.request now r]) earlier first r)
    (hholds : g'.Holds site r.loggerName earlier first r number s l)
    (hothers : ∀ name ≠ r.loggerName, g'.find? name = g.find? name)
    (hstreams : ∀ (i : Nat) (s' : Stream), g.streams[i]? = some s' → g'.streams[i]? = some s')
    (hback : ∀ (i : Nat) (s' : Stream), g'.streams[i]? = some s' → i ≠ number → g.streams[i]? = some s')
    (hsame : ∀ name earlier first latest i s l, g.Holds site name earlier first latest i s l →
      name = r.loggerName → i = number) :
    Keeps site g' (before ++ [.request now r]) := by
  have hlift {name : String} {earlier : Int} {first latest : LoggerRequest} {i : Nat} {s' : Stream} {l' : Logger}
      (hne : name ≠ r.loggerName) (h' : g.Holds site name earlier first latest i s' l') :
      g'.Holds site name earlier first latest i s' l' :=
    ⟨(hothers name hne).trans h'.found, h'.stands, hstreams i s' h'.stream, h'.serves⟩
  refine ⟨fun name hnone => ?_, fun name q hq => ?_, fun name now' first' latest' h' => ?_, fun i s' hs' => ?_⟩
  · have hne : name ≠ r.loggerName := by
      rintro rfl
      exact hrequested.ne_nil hnone
    rw [hothers name hne]
    exact hg.absent name (requestsOf_append_of_ne hne ▸ hnone)
  · rw [requestsOf_append_request, List.mem_append] at hq
    rcases hq with hq | hq
    · exact hg.valid name q hq
    · by_cases hname : r.loggerName = name
      · rw [if_pos hname] at hq
        rw [List.mem_singleton.mp hq]
        exact h
      · rw [if_neg hname] at hq
        exact absurd hq List.not_mem_nil
  · by_cases hname : name = r.loggerName
    · subst hname
      obtain ⟨rfl, rfl, rfl⟩ := h'.unique hrequested
      exact ⟨number, s, l, hholds⟩
    · obtain ⟨i, s', l', hold⟩ := hg.holds name now' first' latest' ⟨requestsOf_append_of_ne hname ▸ h'.head_eq,
        requestsOf_append_of_ne hname ▸ h'.last_eq⟩
      exact ⟨i, s', l', hlift hname hold⟩
  · by_cases hi : i = number
    · subst hi
      obtain rfl : s = s' := Option.some.inj (hholds.stream.symm.trans hs')
      exact ⟨_, _, _, _, l, hrequested, hholds⟩
    · obtain ⟨name, now', first', latest', l', hfirst, hold⟩ := hg.owned i s' (hback i s' hs' hi)
      have hname : name ≠ r.loggerName := fun e => hi (hsame _ _ _ _ _ _ _ hold e)
      exact ⟨name, now', first', latest', l', ⟨(requestsOf_append_of_ne hname).symm ▸ hfirst.head_eq,
        (requestsOf_append_of_ne hname).symm ▸ hfirst.last_eq⟩, hlift hname hold⟩

/-- New streams that have no file open leave the order as it is. -/
theorem Ordered.of_fresh {g' : Registry} (hg : g.Ordered) (fresh : List Stream) (hdisk : g'.disk = g.disk)
    (hstreams : g'.streams = g.streams ++ fresh) (hfresh : ∀ s ∈ fresh, s.file = none ∧ s.Sound g.disk) :
    g'.Ordered := by
  have hcases {i : Nat} {s : Stream} (h : g'.streams[i]? = some s) :
      g.streams[i]? = some s ∨ s.file = none ∧ s.Sound g.disk := by
    rw [hstreams, List.getElem?_append] at h
    split at h
    · exact .inl h
    · exact .inr (hfresh s (List.mem_of_getElem? h))
  have hlift {i : Nat} {s : Stream} (h : g.streams[i]? = some s) : g'.streams[i]? = some s := by
    rw [hstreams, List.getElem?_append_left (List.getElem?_eq_some_iff.mp h).1, h]
  refine ⟨hdisk ▸ hg.disk, fun i s h => ?_, fun i s h halone file hfile => ?_, fun hall => ?_⟩
  · rw [hdisk]
    exact (hcases h).elim (hg.streams i s) And.right
  · rw [hdisk]
    rcases hcases h with hold | ⟨hnone, -⟩
    · exact hg.current i s hold (fun other s' h' => halone other s' (hlift h')) file hfile
    · rw [hnone] at hfile
      cases hfile
  · rw [hdisk]
    exact hg.named fun i s h => hall i s (hlift h)

/-- A valid request is answered with its logger, which stands as the requests up to this one have it; no
line is written. -/
theorem Keeps.request (hg : Keeps site g before) (hordered : g.Ordered) (h : r.Valid) (now : Int) :
    (∃ l, (g.request site now r).1 = .ok (r.loggerName, l)) ∧
      Keeps site (g.step site (.request now r)) (before ++ [.request now r]) ∧
      (g.step site (.request now r)).Ordered ∧ g.Gains (fun _ => []) [] (g.step site (.request now r)) := by
  by_cases hfirst : requestsOf r.loggerName before = []
  · have habsent := hg.absent _ hfirst
    obtain ⟨l, s, hl, hserves, hfile, hrequest⟩ := request_first h habsent site now
    rw [step, hrequest]
    have hstreams {i : Nat} {s' : Stream} (h : (g.streams ++ [s])[i]? = some s') (hi : i ≠ g.streams.length) :
        g.streams[i]? = some s' := by
      have hlt := (List.getElem?_eq_some_iff.mp h).1
      rw [List.length_append, List.length_singleton] at hlt
      rwa [List.getElem?_append_left (by omega)] at h
    refine ⟨⟨l, rfl⟩, hg.step_request h (firstLatest_first hfirst) (s := s) (l := l)
        ⟨find?_put g _ l, hl, by simp, hserves⟩
        (fun name hne => find?_put_of_ne g hne l)
        (fun i s' h' => ?_) (fun i s' h' hi => hstreams h' hi) (fun name _ _ _ i s' l' hold e => ?_),
      hordered.of_fresh [s] rfl rfl fun s' hs' => ?_, Gains.of_disk_eq rfl rfl⟩
    · rw [List.getElem?_append_left (List.getElem?_eq_some_iff.mp h').1, h']
    · rw [e] at hold
      have hfound := hold.found
      rw [habsent] at hfound
      cases hfound
    · rw [List.mem_singleton.mp hs']
      exact ⟨hfile, hserves.sound h hfile⟩
  · obtain ⟨earlier, first, latest, hrequested⟩ := exists_firstLatest hfirst
    obtain ⟨number, s, l, hold⟩ := hg.holds _ _ _ _ hrequested
    obtain ⟨l', hl', hrequest⟩ := request_again h hold.found hold.stands now
    rw [step, hrequest]
    refine ⟨⟨l', rfl⟩, hg.step_request h hrequested.again (s := s) (l := l')
        ⟨find?_put g _ l', hl', hold.stream, hold.serves⟩
        (fun name hne => find?_put_of_ne g hne l') (fun i s' h' => h') (fun i s' h' _ => h')
        (fun name _ _ _ i s' l' h' e => ?_),
      hordered.of_fresh [] rfl (List.append_nil _).symm (fun s' hs' => absurd hs' List.not_mem_nil),
      Gains.of_disk_eq rfl rfl⟩
    subst e
    exact hold.number_eq h'

/-! A record -/

section Written

variable {file : Nat} {lines : List String} {shown : Bool}

theorem stream_written (hs : g.streams[number]? = some s) (i : Nat) :
    (g.written site now number s lines shown).streams[i]? =
      if number = i then some (s.write site now lines g.disk).1 else g.streams[i]? := by
  rw [written, List.getElem?_set]
  simp only [(List.getElem?_eq_some_iff.mp hs).1, if_true]

/-- Lines that are written change no logger. -/
theorem Keeps.written (hg : Keeps site g before) (hs : g.streams[number]? = some s)
    (hwrote : s.Wrote g.disk lines file (s.write site now lines g.disk).1 (s.write site now lines g.disk).2) :
    Keeps site (g.written site now number s lines shown) before := by
  have hlift {name : String} {now' : Int} {first latest : LoggerRequest} {i : Nat} {s' : Stream} {l : Logger}
      (h : g.Holds site name now' first latest i s' l) : ∃ s'', (g.written site now number s lines shown).Holds site
        name now' first latest i s'' l := by
    by_cases hi : number = i
    · obtain rfl : s = s' := by
        subst hi
        exact Option.some.inj (hs.symm.trans h.stream)
      exact ⟨_, h.found, h.stands, by rw [stream_written hs, if_pos hi], hwrote.path_eq.trans h.serves.path_eq,
        hwrote.backups_eq.trans h.serves.backups_eq⟩
    · exact ⟨s', h.found, h.stands, by rw [stream_written hs, if_neg hi, h.stream], h.serves⟩
  refine ⟨hg.absent, hg.valid, fun name now' first latest h => ?_, fun i s' h => ?_⟩
  · obtain ⟨i, s', l, hold⟩ := hg.holds name now' first latest h
    obtain ⟨s'', hnew⟩ := hlift hold
    exact ⟨i, s'', l, hnew⟩
  · have hsome : ∃ s'', g.streams[i]? = some s'' := by
      rw [stream_written hs] at h
      split at h
      next hi => exact ⟨s, hi ▸ hs⟩
      next => exact ⟨s', h⟩
    obtain ⟨s'', hs''⟩ := hsome
    obtain ⟨name, now', first, latest, l, hfirst, hold⟩ := hg.owned i s'' hs''
    obtain ⟨s₁, hnew⟩ := hlift hold
    obtain rfl : s₁ = s' := Option.some.inj (hnew.stream.symm.trans h)
    exact ⟨name, now', first, latest, l, hfirst, hnew⟩

/-- Lines that are written leave streams and disk in order, and if no other stream has the path it leads to
their file. -/
theorem Ordered.written (hg : g.Ordered) (hs : g.streams[number]? = some s)
    (hwrote : s.Wrote g.disk lines file (s.write site now lines g.disk).1 (s.write site now lines g.disk).2) :
    (g.written site now number s lines shown).Ordered ∧
      (g.Alone number s → (g.written site now number s lines shown).disk.named s.path = some file) := by
  have hsound := hg.streams number s hs
  -- Of which stream each stream comes, and what they have in common.
  have hback {i : Nat} {s' : Stream} (h : (g.written site now number s lines shown).streams[i]? = some s') :
      number = i ∧ s' = (s.write site now lines g.disk).1 ∨ number ≠ i ∧ g.streams[i]? = some s' := by
    rw [stream_written hs] at h
    by_cases hi : number = i
    · rw [if_pos hi] at h
      exact .inl ⟨hi, (Option.some.inj h).symm⟩
    · rw [if_neg hi] at h
      exact .inr ⟨hi, h⟩
  have hforth {i : Nat} {s' : Stream} (h : g.streams[i]? = some s') :
      ∃ s'', (g.written site now number s lines shown).streams[i]? = some s'' ∧ s''.path = s'.path ∧
        s''.backups = s'.backups := by
    by_cases hi : number = i
    · obtain rfl : s = s' := by
        subst hi
        exact Option.some.inj (hs.symm.trans h)
      exact ⟨_, by rw [stream_written hs, if_pos hi], hwrote.path_eq, hwrote.backups_eq⟩
    · exact ⟨s', by rw [stream_written hs, if_neg hi, h], rfl, rfl⟩
  have halone {i : Nat} {s' s'' : Stream} (hpath : s''.path = s'.path)
      (h : (g.written site now number s lines shown).Alone i s'') : g.Alone i s' := by
    intro other t ht hsame
    obtain ⟨t', ht', htpath, -⟩ := hforth ht
    exact h other t' ht' (by rw [htpath, hsame, hpath])
  refine ⟨⟨hwrote.sound, fun i s' h => ?_, fun i s' h hone file' hfile => ?_, fun hall => ?_⟩,
    fun hone => hwrote.named_path (hg.current number s hs hone)⟩
  · rcases hback h with ⟨-, rfl⟩ | ⟨-, hold⟩
    · refine ⟨hwrote.path_eq ▸ hsound.plain, hwrote.backups_eq ▸ hsound.whole, fun other hother => ?_⟩
      obtain rfl : file = other := Option.some.inj (hwrote.file_eq.symm.trans hother)
      rw [hwrote.path_eq]
      exact hwrote.adds.madeAt_eq
    · obtain ⟨hplain, hwhole, hmade⟩ := hg.streams i s' hold
      exact ⟨hplain, hwhole, fun other hother => hwrote.adds.madeAt_of_made (hmade other hother)⟩
  · rcases hback h with ⟨rfl, rfl⟩ | ⟨hi, hold⟩
    · obtain rfl : file = file' := Option.some.inj (hwrote.file_eq.symm.trans hfile)
      rw [hwrote.path_eq]
      exact hwrote.named_path (hg.current number s hs (halone hwrote.path_eq hone))
    · have hone' := halone rfl hone
      have hne : s'.path ≠ s.path := fun e => hi (hone' number s hs e.symm)
      exact (hwrote.named_of_plain s'.path (hg.streams i s' hold).plain hne).trans
        (hg.current i s' hold hone' file' hfile)
  · have hkeeps {i : Nat} {s' : Stream} (h : g.streams[i]? = some s') : s'.KeepsAll := by
      obtain ⟨s'', hs'', -, hbackups⟩ := hforth h
      obtain ⟨k, hk, hcount⟩ := hall i s'' hs''
      exact ⟨k, hk, hbackups ▸ hcount⟩
    exact hwrote.allNamed (hkeeps hs) (hg.named fun i s' h => hkeeps h)

end Written

/-- No other logger of the history had its file chosen at a path. -/
def OnlyChooser (site : Site) (name : String) (before : List LogEvent) (path : String) : Prop :=
  ∀ other now first latest, FirstLatest other before now first latest → first.chosenPath site now = path →
    other = name

/-- What becomes of a record after a history: if it reaches the level of the latest request of its logger
its lines are added to one file, made at the path that the first request chose, to which that path leads if
no other logger has it; and else nothing happens. -/
def Taken (site : Site) (before : List LogEvent) (m : Instant) (name : String) (level : Int) (text : String)
    (g g' : Registry) : Prop :=
  ∀ now first latest, FirstLatest name before now first latest →
    if latest.loggerLevel ≤ level then
      ∃ file, g.disk.Adds (first.chosenPath site now) ((logLine (site.stamp m) name level text).splitOn "\n") file
          g'.disk ∧
        (OnlyChooser site name before (first.chosenPath site now) →
          g'.disk.named (first.chosenPath site now) = some file)
    else g' = g

theorem FirstLatest.of_append_record {other : String}
    (h : FirstLatest name (before ++ [.record m other level text]) now first latest) :
    FirstLatest name before now first latest :=
  ⟨requestsOf_append_record ▸ h.head_eq, requestsOf_append_record ▸ h.last_eq⟩

theorem FirstLatest.append_record {other : String} (h : FirstLatest name before now first latest) :
    FirstLatest name (before ++ [.record m other level text]) now first latest :=
  ⟨requestsOf_append_record.symm ▸ h.head_eq, requestsOf_append_record.symm ▸ h.last_eq⟩

theorem Keeps.append_record (hg : Keeps site g before) :
    Keeps site g (before ++ [.record m name level text]) where
  absent other h := hg.absent other (requestsOf_append_record ▸ h)
  valid other := by
    rw [requestsOf_append_record]
    exact hg.valid other
  holds other now first latest h := hg.holds other now first latest (FirstLatest.of_append_record h)
  owned i s h := by
    obtain ⟨other, now, first, latest, l, hfirst, hold⟩ := hg.owned i s h
    exact ⟨other, now, first, latest, l, FirstLatest.append_record hfirst, hold⟩

theorem Keeps.alone (hg : Keeps site g before) (hold : g.Holds site name now first latest number s l)
    (honly : OnlyChooser site name before (first.chosenPath site now)) : g.Alone number s := by
  intro other s' hs' hpath
  obtain ⟨name', now', first', latest', l', hfirst', hold'⟩ := hg.owned other s' hs'
  have hchosen : first'.chosenPath site now' = first.chosenPath site now := by
    rw [← hold'.serves.path_eq, hpath, hold.serves.path_eq]
  obtain rfl := honly name' now' first' latest' hfirst' hchosen
  exact hold.number_eq hold'

/-- A record changes no logger, and comes to the file of its logger if it reaches its level. -/
theorem Keeps.record (hg : Keeps site g before) (hordered : g.Ordered) (h : requestsOf name before ≠ [])
    (m : Instant) (level : Int) (text : String) :
    Taken site before m name level text g (g.step site (.record m name level text)) ∧
      Keeps site (g.step site (.record m name level text)) (before ++ [.record m name level text]) ∧
      (g.step site (.record m name level text)).Ordered ∧
      g.Gains (fun path => LogEvent.linesTo site path before (.record m name level text))
        (LogEvent.linesShown site before (.record m name level text))
        (g.step site (.record m name level text)) := by
  obtain ⟨now, first, latest, hrequested⟩ := exists_firstLatest h
  obtain ⟨earlier, hlatest⟩ := hrequested.latest_mem
  have hvalid := hg.valid name _ hlatest
  have hbelow : name ≠ topName := by
    rw [← loggerName_of_mem hlatest]
    exact hvalid.below
  obtain ⟨number, s, l, hold⟩ := hg.holds _ _ _ _ hrequested
  simp only [step, write_of_standing hbelow hold.found hold.stands hvalid.positive hold.stream m level text,
    LogEvent.linesTo, LogEvent.linesShown, LogEvent.linesWhere_of_firstLatest hrequested, decide_eq_true_eq]
  by_cases hreached : latest.loggerLevel ≤ level
  · simp only [hreached, if_true, true_and]
    obtain ⟨file, hwrote⟩ := Stream.write_wrote (hordered.streams number s hold.stream) hordered.disk site m.seconds
      ((logLine (site.stamp m) name level text).splitOn "\n")
    obtain ⟨hnew, hnamed⟩ := hordered.written hold.stream hwrote
    refine ⟨fun now' first' latest' h' => ?_, (hg.written hold.stream hwrote).append_record, hnew,
      fun path => ?_, by simp [Registry.written], hwrote.adds.extends⟩
    · obtain ⟨rfl, rfl, rfl⟩ := h'.unique hrequested
      rw [if_pos hreached, ← hold.serves.path_eq]
      exact ⟨file, hwrote.adds, fun honly => hnamed (hg.alone hold (hold.serves.path_eq ▸ honly))⟩
    · rw [← hold.serves.path_eq]
      exact hwrote.adds.linesOf_perm path
  · simp only [hreached, false_and, if_false]
    refine ⟨fun now' first' latest' h' => ?_, hg.append_record, hordered, Gains.of_disk_eq rfl rfl⟩
    obtain ⟨rfl, rfl, rfl⟩ := h'.unique hrequested
    rw [if_neg hreached]

/-- What one event preserves, and what it adds. -/
theorem Keeps.step (hg : Keeps site g before) (hordered : g.Ordered) {e : LogEvent} (he : e.Fits before) :
    Keeps site (g.step site e) (before ++ [e]) ∧ (g.step site e).Ordered ∧
      g.Gains (fun path => e.linesTo site path before) (e.linesShown site before) (g.step site e) := by
  cases e with
  | request now r => exact (hg.request hordered he now).2
  | record m name level text => exact (hg.record hordered he m level text).2

/-- What whole histories preserve, and what they add. -/
theorem Keeps.steps {events : List LogEvent} (hg : Keeps site g before) (hordered : g.Ordered)
    (h : History before events) :
    Keeps site (events.foldl (Registry.step site) g) (before ++ events) ∧
      (events.foldl (Registry.step site) g).Ordered ∧
      g.Gains (fun path => linesAfter (LogEvent.linesTo site path) before events)
        (linesAfter (LogEvent.linesShown site) before events) (events.foldl (Registry.step site) g) := by
  induction events generalizing before g with
  | nil => exact ⟨by simpa using hg, hordered, Gains.of_disk_eq rfl rfl⟩
  | cons e rest ih =>
    obtain ⟨he, hrest⟩ := h
    obtain ⟨hkept, hordered', hgained⟩ := hg.step hordered he
    obtain ⟨hkept', hordered'', hgained'⟩ := ih hkept hordered' hrest
    rw [List.append_assoc, List.singleton_append] at hkept'
    refine ⟨hkept', hordered'', fun path => ?_, ?_, hgained.extends_disk.trans hgained'.extends_disk⟩
    · have hfirst := (hgained.linesOf_perm path).append_right
        (linesAfter (LogEvent.linesTo site path) (before ++ [e]) rest)
      rw [List.append_assoc] at hfirst
      exact (hgained'.linesOf_perm path).trans hfirst
    · simp only [List.foldl_cons, hgained'.console_eq, hgained.console_eq, linesAfter, List.append_assoc]

end Registry
end SteeredConv
