/-
# Guarded calls

A guard stands around the calls of a function. It may log what a call is given, how
long it took and why it failed; a failure is passed on or swallowed, and what a call
changed before it failed stays changed.

Key definitions: `Failure`, `Call`, `Guard`, `Guard.report`, `Guard.watch`, `Guard.ofReporter`,
`Guard.ofTimer`, `Guard.ofLabel`.
Key statements: `Guard.outcome_report`.
-/
import SteeredConv.Update
import SteeredConv.Value.Named

namespace SteeredConv

/-- A failure of a function: its kind and what it was raised with. -/
structure Failure where
  kind : String
  details : List Value

/-- The failure in words: a single detail stands for itself, several are listed. -/
def Failure.text (f : Failure) : String :=
  match f.details with
  | [] => ""
  | [v] => if f.kind = "KeyError" then v.spell else v.plain
  | several => (Value.tuple several).spell

/-- What a function is called with, by position and by name. -/
structure Call where
  arguments : List Value
  named : List (String × Value)

/-- The call in the log. -/
def Call.spell (c : Call) : String :=
  "args=" ++ (Value.tuple c.arguments).spell ++ ", kwargs=" ++
    (Value.map (c.named.map fun (k, v) => (.text k, v))).spell

/-- How the calls of a function are watched. -/
structure Guard where
  label : String
  logsTime : Bool := true
  logsFailures : Bool := true
  logsInputs : Bool := false
  /-- Whether a failure is passed on. -/
  raises : Bool := false
  /-- Whether the time is returned beside the result. -/
  paired : Bool := false
  failureLogger : String := "error_logger"

/-- What a watched call gives: its result and the seconds that it took, or nothing if its failure
was swallowed. -/
structure Watched (β : Type) where
  result : Option β
  seconds : Option Float

namespace Guard

variable {σ ε β : Type}

/-- Logs how long a call took. -/
def reportTime (g : Guard) (seconds : Float) : Action ε Unit :=
  if g.logsTime then
    Action.info
      ("Execution time for '" ++ g.label ++ "': " ++ Decimal.fixed 3 seconds ++ " seconds")
  else pure ()

/-- Logs why a call failed. -/
def reportFailure (g : Guard) (reason : String) : Action ε Unit :=
  if g.logsFailures then
    Action.record ⟨g.failureLogger, .error, "Exception in '" ++ g.label ++ "': " ++ reason⟩
  else pure ()

/-- Logs what a call is given. -/
def reportInputs (g : Guard) (call : Call) : Action ε Unit :=
  if g.logsInputs then Action.debug ("Calling '" ++ g.label ++ "' with " ++ call.spell) else pure ()

/-- Logs the time of a call that takes the given number of seconds, or its failure, which is passed
on. -/
def report (g : Guard) (describe : ε → String) (seconds : Float) (u : Update σ ε β) :
    Update σ ε β := do
  match ← Update.attempt u with
  | .ok b =>
    Update.act (g.reportTime seconds)
    return b
  | .error e =>
    Update.act (g.reportFailure (describe e))
    throw e

/-- Runs a call that takes the given number of seconds. -/
def watch (g : Guard) (describe : ε → String) (call : Call) (seconds : Float) (u : Update σ ε β) :
    Update σ ε (Watched β) := do
  Update.act (g.reportInputs call)
  match ← Update.attempt (g.report describe seconds u) with
  | .ok b => return ⟨some b, some seconds⟩
  | .error e => if g.raises then throw e else return ⟨none, none⟩

/-- Logging changes neither the result of a call nor the state that it leaves. -/
theorem outcome_report (g : Guard) (describe : ε → String) (seconds : Float) (u : Update σ ε β)
    (s : σ) (j : Journal) : ((g.report describe seconds u).outcome s j).1 = (u.outcome s j).1 := by
  simp only [report, Update.outcome_bind, Update.outcome_attempt]
  rcases u.outcome s j with ⟨⟨e | b, s'⟩, j'⟩
  · simp only [Update.outcome_bind]
    unfold reportFailure
    cases g.logsFailures <;> rfl
  · simp only [Update.outcome_bind]
    unfold reportTime
    cases g.logsTime <;> rfl

/-- Whether a setting that stands for a truth value is on. -/
def isOn (settings : List (String × Value)) (name : String) (fallback : Bool) : Bool :=
  (Named.get settings name (.bool fallback)).isTrue

/-- The name of a logger; nothing stands for the topmost one. -/
def loggerName (v : Value) : Except Fault String :=
  if !v.isTrue then .ok "root"
  else
    match v with
    | .text s => .ok s
    | _ => .error (.wrongType "A logger name must be a string")

/-- The guard of a function that only logs its failures. -/
def ofReporter (function : String) (settings : List (String × Value)) : Except Fault Guard := do
  Named.only ["logger_name", "raise_exception"] settings
  return {
    label := function, logsTime := false
    raises := isOn settings "raise_exception" false
    failureLogger := ← loggerName (Named.get settings "logger_name" (.text "error_logger")) }

/-- The guard of a function with the settings that every timer has. -/
def ofSettings (label : String) (settings : List (String × Value)) : Guard where
  label := label
  logsTime := isOn settings "log" true
  logsFailures := isOn settings "log_errors" true
  logsInputs := isOn settings "log_inputs" false
  raises := isOn settings "raise_exception" false
  paired := isOn settings "return_result" false

def timerSettings : List String :=
  ["log", "log_errors", "raise_exception", "return_result", "info_logger", "error_logger"]

/-- The guard of a function that is timed under its name or another one. -/
def ofTimer (function : String) (settings : List (String × Value)) : Except Fault Guard := do
  Named.only ("name" :: timerSettings) settings
  let name := Named.get settings "name" .null
  return ofSettings (if name.isTrue then name.plain else function) settings

/-- The guard of a function that is timed under a label. -/
def ofLabel (settings : List (String × Value)) : Except Fault Guard := do
  Named.only (["label", "log_inputs", "debug_logger"] ++ timerSettings) settings
  let label ← Named.required settings "label"
  return ofSettings label.plain settings

end Guard
end SteeredConv
