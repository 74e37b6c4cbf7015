/-
# Values given by name

An operation that takes its settings by name refuses a name that it does not know and
falls back to a default where a setting is not given.

Key definitions: `Named.only`, `Named.get`, `Named.required`.
-/
import SteeredConv.Fault

namespace SteeredConv
namespace Named

variable {β : Type}

/-- Refuses names that are not known. -/
def only (known : List String) (settings : List (String × β)) : Except Fault Unit :=
  match settings.find? fun e => e.1 ∉ known with
  | some (name, _) => .error (.wrongType ("unexpected keyword argument " ++ quoted name))
  | none => .ok ()

/-- The setting of a name, if it is given. -/
def get? (settings : List (String × β)) (name : String) : Option β :=
  (settings.find? fun e => e.1 = name).map (·.2)

/-- The setting of a name, or the fallback. -/
def get (settings : List (String × β)) (name : String) (fallback : β) : β :=
  (get? settings name).getD fallback

/-- The setting of a name that has to be given. -/
def required (settings : List (String × β)) (name : String) : Except Fault β :=
  match get? settings name with
  | some v => .ok v
  | none => .error (.wrongType ("missing required argument " ++ quoted name))

end Named
end SteeredConv
