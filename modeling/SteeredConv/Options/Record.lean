/-
# Sets of options

What the five sets of options have in common: each option holds a `Setting`, options
are read and set by name, and two sets are equal if all their options are. An
`OptionRecord` is a set of options together with the members of the set that were
overwritten by a setting of their name: changing options accepts every name that the
record has, its operations included, and applies the changes one by one until a name
is unknown.

Key definitions: `Setting`, `HasOptions`, `OptionRecord.update`, `HasOptions.build`.
Key statements: `OptionRecord.update_known`.
-/
import SteeredConv.Options.Filler
import SteeredConv.Tensor.ElementType

namespace SteeredConv

/-- What one option may hold. -/
inductive Setting where
  | value (v : Value)
  | filler (f : FillerOptions)
  | elementType (e : ElementType)
  deriving Inhabited

namespace Setting

/-- Equality of settings. -/
def same : Setting → Setting → Bool
  | value a, value b => a.same b
  | filler a, filler b => a.same b
  | elementType a, elementType b => a == b
  | _, _ => false

/-- A setting inside a sentence. -/
def plain : Setting → String
  | value v => v.plain
  | elementType e => "torch." ++ e.title
  | filler f => "FillerConfig(" ++
      String.intercalate ", " (f.fields.map fun (k, v) => k ++ "=" ++ v.spell) ++ ")"

/-- Whether a setting counts as true. -/
def isTrue : Setting → Bool
  | value v => v.isTrue
  | filler _ | elementType _ => true

end Setting

/-- A set of options whose members are read and set by name. -/
class HasOptions (τ : Type) where
  owner : OptionSet
  /-- The set in which nothing was given. -/
  default : τ
  /-- The options and their settings, in the order of declaration. -/
  fields : τ → List (String × Setting)
  /-- Sets one option; `none` if there is no option of that name. -/
  set? : τ → String → Setting → Option τ
  /-- The names of the operations of the set. -/
  operations : List String
  /-- The names of the views of the set, which cannot be overwritten. -/
  views : List String

/-- The names that every record answers to beside its own. -/
def OptionRecord.inherited : List String :=
  ["__annotations__", "__dataclass_fields__", "__dataclass_params__", "__delattr__", "__dir__",
    "__doc__", "__eq__", "__format__", "__ge__", "__getattribute__", "__getstate__", "__gt__",
    "__hash__", "__init__", "__init_subclass__", "__le__", "__lt__", "__match_args__", "__module__",
    "__ne__", "__new__", "__reduce__", "__reduce_ex__", "__repr__", "__setattr__", "__sizeof__",
    "__str__", "__subclasshook__"]

namespace HasOptions

variable {τ : Type} [HasOptions τ]

/-- The setting of an option. -/
def get? (t : τ) (key : String) : Option Setting :=
  ((fields t).find? fun f => f.1 = key).map (·.2)

/-- Two sets of options are equal if each option is. -/
def same (a b : τ) : Bool :=
  ((fields a).zip (fields b)).all fun (x, y) => x.2.same y.2

/-- The complaint about a name that is no option when a set is built. -/
def unexpected (owner : OptionSet) (key : String) : String :=
  owner.title ++ ".__init__() got an unexpected keyword argument " ++ quoted key

/-- Sets options in order; a name that is no option is refused. -/
def setAll (t : τ) : List (String × Setting) → Except Fault τ
  | [] => .ok t
  | (key, s) :: rest =>
    match set? t key s with
    | some t => setAll t rest
    | none => .error (.wrongType (unexpected (owner τ) key))

/-- The set of options with the given ones set and the others at their defaults. -/
def build (entries : List (String × Setting)) : Except Fault τ := setAll (default : τ) entries

end HasOptions

/-- The options of a filler as settings. -/
instance : HasOptions FillerOptions where
  owner := .filler
  default := {}
  fields o := o.fields.map fun (k, v) => (k, .value v)
  set? o key
    | .value v => o.set? key v
    | _ => none
  operations := ["update_config"]
  views := []

/-- A set of options and the settings that hide operations of the set. -/
structure OptionRecord (τ : Type) where
  options : τ
  hidden : List (String × Setting)

namespace OptionRecord

variable {τ : Type} [HasOptions τ]

/-- A fresh record. -/
def ofOptions (t : τ) : OptionRecord τ := ⟨t, []⟩

/-- Changes one option or hides one operation. -/
def assign (r : OptionRecord τ) (key : String) (s : Setting) : Except Fault (OptionRecord τ) :=
  match HasOptions.set? r.options key s with
  | some t => .ok { r with options := t }
  | none =>
    if key ∈ HasOptions.operations τ ∨ key ∈ inherited then
      .ok { r with hidden := (key, s) :: r.hidden }
    else if key ∈ HasOptions.views τ then
      .error (.noAttribute
        ("property " ++ quoted key ++ " of " ++ quoted (HasOptions.owner τ).title ++
        " object has no setter"))
    else if key = "__weakref__" then
      .error (.noAttribute ("attribute " ++ quoted key ++ " of " ++
        quoted (HasOptions.owner τ).title ++ " objects is not writable"))
    else if key = "__class__" ∨ key = "__dict__" then .error (.wrongType "")
    else .error (.unknownOption (HasOptions.owner τ) key)

/-- Applies changes in order. A change that is refused stops the update, and the changes
before it stay. -/
def update (r : OptionRecord τ) : List (String × Setting) → OptionRecord τ × Except Fault Unit
  | [] => (r, .ok ())
  | (key, s) :: rest =>
    match r.assign key s with
    | .ok r => update r rest
    | .error e => (r, .error e)

/-- A change of a declared option is applied before the remaining ones. -/
theorem update_known {r : OptionRecord τ} {key : String} {s : Setting} {t : τ}
    (h : HasOptions.set? r.options key s = some t) (rest : List (String × Setting)) :
    r.update ((key, s) :: rest) = update { r with options := t } rest := by
  simp [update, assign, h]

/-- Whether an operation of the set still answers to its name. -/
def answers (r : OptionRecord τ) (name : String) : Except Fault Unit :=
  match r.hidden.find? fun h => h.1 = name with
  | none => .ok ()
  | some (_, .value v) => .error (.wrongType (quoted v.kind ++ " object is not callable"))
  | some _ => .error (.wrongType "")

end OptionRecord
end SteeredConv
