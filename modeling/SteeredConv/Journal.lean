/-
# What an operation leaves behind

Operations write log records and lines of a summary. Both are kept in a `Journal`
in the order in which they arise, also when the operation fails: an `Action` is a
computation that may fail and whose journal survives the failure.

Key definitions: `Record`, `Journal`, `Action`, `Action.reporting`.
Key statements: `Action.outcome_attempt`, `Action.outcome_reporting_ok`.
-/
import SteeredConv.Fault

namespace SteeredConv

/-- How urgent a record is. -/
inductive Level where
  | debug
  | info
  | warning
  | error
  | critical
  deriving Repr, DecidableEq

/-- The name of a level. -/
def Level.title : Level → String
  | debug => "DEBUG"
  | info => "INFO"
  | warning => "WARNING"
  | error => "ERROR"
  | critical => "CRITICAL"

/-- A line that a logger accepted. -/
structure Record where
  logger : String
  level : Level
  text : String
  deriving Repr, DecidableEq

/-- The records and printed lines of an operation, oldest first. -/
structure Journal where
  records : Array Record
  printed : Array String

/-- The journal of an operation that has not begun. -/
def Journal.empty : Journal := ⟨#[], #[]⟩

/-- A computation that writes a journal and may fail. -/
abbrev Action (ε : Type) := ExceptT ε (StateM Journal)

namespace Action

variable {ε β : Type}

/-- Adds a record. -/
def record (r : Record) : Action ε Unit :=
  modify fun j => { j with records := j.records.push r }

/-- Adds a record of the main logger. -/
def info (text : String) : Action ε Unit := record ⟨"gradorient", .info, text⟩

/-- Adds a warning of the main logger. -/
def warn (text : String) : Action ε Unit := record ⟨"gradorient", .warning, text⟩

/-- Adds a record of the logger for shapes and calls. -/
def debug (text : String) : Action ε Unit := record ⟨"debug_logger", .debug, text⟩

/-- Adds a record of the logger for failures. -/
def complain (text : String) : Action ε Unit := record ⟨"error_logger", .error, text⟩

def warnIf (condition : Bool) (text : String) : Action ε Unit :=
  if condition then warn text else pure ()

def printLine (text : String) : Action ε Unit :=
  modify fun j => { j with printed := j.printed.push text }

/-- Runs a computation without letting its failure pass. -/
def attempt (a : Action ε β) : Action ε (Except ε β) := ExceptT.mk do
  let result ← a.run
  return .ok result

/-- A failure is logged under a label and passed on. -/
def reporting (describe : ε → String) (label : String) (a : Action ε β) : Action ε β := do
  match ← attempt a with
  | .ok b => return b
  | .error e =>
    complain ("Exception in '" ++ label ++ "': " ++ describe e)
    throw e

/-- The result and the journal of a computation that begins with a given journal. -/
def outcome (a : Action ε β) (j : Journal) : Except ε β × Journal := a.run.run j

theorem outcome_attempt (a : Action ε β) (j : Journal) :
    (attempt a).outcome j = (.ok (a.outcome j).1, (a.outcome j).2) := rfl

/-- A computation that succeeds reports nothing. -/
theorem outcome_reporting_ok {describe : ε → String} {label : String} {a : Action ε β}
    {j j' : Journal} {b : β} (h : a.outcome j = (.ok b, j')) :
    (reporting describe label a).outcome j = (.ok b, j') := by
  simp only [outcome, reporting, attempt, ExceptT.run, ExceptT.mk, bind, ExceptT.bind,
    ExceptT.bindCont, StateT.bind, StateT.run] at h ⊢
  rw [h]
  rfl

end Action
end SteeredConv
