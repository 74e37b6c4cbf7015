/-
# Values of options

An option holds what a document or a caller gave it: nothing, a truth value, a
whole or floating-point number of any size, text, a date, a list or a mapping.
`Value` is that sum; `Value.kind` names the alternatives and `Value.isTrue` says
when a value counts as true.

Key definitions: `Value`, `Value.kind`, `Value.isTrue`, `Moment.instant`.
-/
namespace SteeredConv

/-- A point in time as documents write it; the offset from universal time is in minutes. -/
structure Moment where
  year : Nat
  month : Nat
  day : Nat
  hour : Nat
  minute : Nat
  second : Nat
  microsecond : Nat
  offset : Option Int
  deriving Repr, DecidableEq, Inhabited

namespace Moment

/-- The number of a day. Years are counted from March, so that the day of a leap year comes last. -/
def dayNumber (year month day : Nat) : Nat :=
  let y := if month ≤ 2 then year - 1 else year
  365 * y + y / 4 - y / 100 + y / 400 + (153 * ((month + 9) % 12) + 2) / 5 + day

/-- The microseconds of universal time until a moment; one without an offset counts as universal. -/
def instant (m : Moment) : Int :=
  let minutes := ((dayNumber m.year m.month m.day * 24 + m.hour) * 60 + m.minute : Nat) -
    m.offset.getD 0
  (minutes * 60 + m.second) * 1000000 + m.microsecond

end Moment

/-- What an option holds. -/
inductive Value where
  | null
  | bool (b : Bool)
  | int (n : Int)
  | float (x : Float)
  | text (s : String)
  | date (year month day : Nat)
  | moment (m : Moment)
  | bytes (data : List Nat)
  | list (items : List Value)
  | tuple (items : List Value)
  | set (items : List Value)
  | map (entries : List (Value × Value))
  deriving Inhabited

namespace Value

/-- The name of the kind of a value. -/
def kind : Value → String
  | null => "NoneType"
  | bool _ => "bool"
  | int _ => "int"
  | float _ => "float"
  | text _ => "str"
  | date .. => "date"
  | moment _ => "datetime"
  | bytes _ => "bytes"
  | list _ => "list"
  | tuple _ => "tuple"
  | set _ => "set"
  | map _ => "dict"

/-- Whether a value counts as true: zero and whatever is empty do not. -/
def isTrue : Value → Bool
  | null => false
  | bool b => b
  | int n => n != 0
  | float x => x != 0
  | text s => !s.isEmpty
  | date .. | moment _ => true
  | bytes data => !data.isEmpty
  | list items | tuple items | set items => !items.isEmpty
  | map entries => !entries.isEmpty

/-- Whether nothing was given. -/
def isNull : Value → Bool
  | null => true
  | _ => false

end Value
end SteeredConv
