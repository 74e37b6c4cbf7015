/-
# Options of parameter fillers

A filler names how the entries of a parameter are chosen and carries the numbers that
the choice needs. Options are read and set by name; a name that is no option is
refused.

Key definitions: `FillerOptions`, `FillerOptions.set?`, `FillerOptions.fields`,
`FillerOptions.ofEntries`.
-/
import SteeredConv.Value.Number

namespace SteeredConv

/-- How the entries of a parameter are chosen. -/
structure FillerOptions where
  type : Value := .text "constant"
  value : Value := .float 0
  min : Value := .float 0
  max : Value := .float 1
  mean : Value := .float 0
  std : Value := .float 1
  deriving Inhabited

namespace FillerOptions

/-- The options and their values, in the order of declaration. -/
def fields (o : FillerOptions) : List (String × Value) :=
  [("type", o.type), ("value", o.value), ("min", o.min), ("max", o.max), ("mean", o.mean),
    ("std", o.std)]

/-- Sets one option; `none` if there is no option of that name. -/
def set? (o : FillerOptions) (key : String) (v : Value) : Option FillerOptions :=
  match key with
  | "type" => some { o with type := v }
  | "value" => some { o with value := v }
  | "min" => some { o with min := v }
  | "max" => some { o with max := v }
  | "mean" => some { o with mean := v }
  | "std" => some { o with std := v }
  | _ => none

/-- Two sets of options are equal if each option is. -/
def same (a b : FillerOptions) : Bool :=
  (a.fields.zip b.fields).all fun (x, y) => x.2.same y.2

/-- Sets options in order; the first name that is no option is returned instead. -/
def ofEntries (o : FillerOptions) : List (String × Value) → Except String FillerOptions
  | [] => .ok o
  | (key, v) :: rest =>
    match o.set? key v with
    | some o => ofEntries o rest
    | none => .error key

end FillerOptions
end SteeredConv
