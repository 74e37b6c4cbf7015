/-
# Options shared by all operators

The kind of array that operators return, the element type of the arrays they create
and whether they introduce themselves with a summary. `GlobalOptions.summary` lists
the options, and `summaryLines` lays such a list out in two columns.

Key definitions: `GlobalOptions`, `GlobalOptions.summary`, `summaryLines`.
-/
import SteeredConv.Options.Record
import SteeredConv.Journal

namespace SteeredConv

/-- Options of every operator. -/
structure GlobalOptions where
  framework : Setting := .value (.text "torch")
  outputFormat : Setting := .value (.text "torch")
  device : Setting := .value (.text "cpu")
  dtype : Setting := .elementType .float32
  verbose : Setting := .value (.bool false)
  deriving Inhabited

namespace GlobalOptions

/-- The options and their settings. -/
def fields (o : GlobalOptions) : List (String × Setting) :=
  [("framework", o.framework), ("output_format", o.outputFormat), ("device", o.device),
    ("dtype", o.dtype), ("verbose", o.verbose)]

/-- Sets one option. -/
def set? (o : GlobalOptions) (key : String) (s : Setting) : Option GlobalOptions :=
  match key with
  | "framework" => some { o with framework := s }
  | "output_format" => some { o with outputFormat := s }
  | "device" => some { o with device := s }
  | "dtype" => some { o with dtype := s }
  | "verbose" => some { o with verbose := s }
  | _ => none

instance : HasOptions GlobalOptions where
  owner := .globals
  default := {}
  fields := fields
  set? := set?
  operations := ["update_config", "summary"]
  views := []

/-- The element type of created arrays. -/
def elementType (o : GlobalOptions) : ElementType :=
  match o.dtype with
  | .elementType e => e
  | _ => .float32

end GlobalOptions

/-- Spaces behind a text up to a width. -/
def padRight (width : Nat) (s : String) : String :=
  s ++ String.ofList (List.replicate (width - s.length) ' ')

/-- Names and settings in two columns, the first of a given width. -/
def summaryLines (width : Nat) (entries : List (String × Setting)) : List String :=
  entries.map fun (name, s) => padRight width name ++ ": " ++ s.plain

namespace GlobalOptions

/-- The options, printed as well if that is asked for. -/
def summary (o : GlobalOptions) (printout : Bool) : Action Fault (List (String × Setting)) := do
  if printout then
    Action.printLine "=== [ GlobalConfig Summary ] ==="
    for line in summaryLines 25 o.fields do Action.printLine line
  return o.fields

end GlobalOptions
end SteeredConv
