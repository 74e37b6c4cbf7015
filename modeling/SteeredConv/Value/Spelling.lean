/-
# How values are written

`Value.spell` writes a value inside a list, a mapping or a report of a refused
option: text is quoted, numbers are written with the fewest digits, and collections
keep their order. `Value.plain` writes it inside a sentence, where text stands bare.

Key definitions: `Value.spell`, `Value.plain`, `spellTuple`.
-/
import SteeredConv.Decimal.Shortest
import SteeredConv.Text.Quoted
import SteeredConv.Value

namespace SteeredConv

/-- Parts between a pair of brackets. -/
def bracketed (opening closing : String) (parts : List String) : String :=
  opening ++ String.intercalate ", " parts ++ closing

/-- Parts between round brackets; a single part is followed by a comma. -/
def spellTuple (parts : List String) : String :=
  match parts with
  | [x] => "(" ++ x ++ ",)"
  | _ => bracketed "(" ")" parts

/-- A shape or another run of naturals between round brackets. -/
def spellShape (dims : List Nat) : String := spellTuple (dims.map toString)

/-- Texts, each quoted, between square brackets. -/
def spellNames (names : List String) : String := bracketed "[" "]" (names.map quoted)

/-- A byte inside quoted bytes. -/
def spellByte (b : Nat) : List Char :=
  if b = 0x27 ∨ b = 0x5c then ['\\', Char.ofNat b]
  else if b = 0x0a then ['\\', 'n']
  else if b = 0x0d then ['\\', 'r']
  else if b = 0x09 then ['\\', 't']
  else if 0x20 ≤ b ∧ b < 0x7f then [Char.ofNat b]
  else '\\' :: 'x' :: Quoted.hexDigits b 2

/-- Two digits at least. -/
def spellTwo (n : Nat) : String := String.ofList (Decimal.padded 2 n)

namespace Moment

/-- The offset from universal time as `+hh:mm`. -/
def spellOffset (m : Moment) : String :=
  match m.offset with
  | none => ""
  | some minutes =>
    (if minutes < 0 then "-" else "+") ++ spellTwo (minutes.natAbs / 60) ++ ":" ++
      spellTwo (minutes.natAbs % 60)

/-- Date, time and offset, as a sentence shows them. -/
def plain (m : Moment) : String :=
  String.ofList (Decimal.padded 4 m.year) ++ "-" ++ spellTwo m.month ++ "-" ++ spellTwo m.day ++
    " " ++ spellTwo m.hour ++ ":" ++ spellTwo m.minute ++ ":" ++ spellTwo m.second ++
    (if m.microsecond = 0 then "" else "." ++ String.ofList (Decimal.padded 6 m.microsecond)) ++
    m.spellOffset

/-- The offset as a list of values shows it. -/
def spellZone : Int → String
  | 0 => "datetime.timezone.utc"
  | minutes =>
    let seconds := minutes * 60
    let days := Int.fdiv seconds 86400
    let rest := Int.fmod seconds 86400
    let parts := (if days = 0 then [] else ["days=" ++ toString days]) ++
      (if rest = 0 then [] else ["seconds=" ++ toString rest])
    "datetime.timezone(datetime.timedelta(" ++ String.intercalate ", " parts ++ "))"

/-- The moment as a list of values shows it. -/
def spell (m : Moment) : String :=
  let tail :=
    if m.microsecond ≠ 0 then [m.second, m.microsecond]
    else if m.second ≠ 0 then [m.second] else []
  let zone := match m.offset with
    | none => []
    | some minutes => ["tzinfo=" ++ spellZone minutes]
  "datetime.datetime(" ++ String.intercalate ", "
    (([m.year, m.month, m.day, m.hour, m.minute] ++ tail).map toString ++ zone) ++ ")"

end Moment

namespace Value

mutual

/-- A value as it stands inside a collection. -/
def spell : Value → String
  | null => "None"
  | bool b => if b then "True" else "False"
  | int n => toString n
  | float x => Decimal.shortest x
  | text s => quoted s
  | date y m d => "datetime.date" ++ spellTuple [toString y, toString m, toString d]
  | moment m => m.spell
  | bytes data => "b'" ++ String.ofList (data.flatMap spellByte) ++ "'"
  | list items => bracketed "[" "]" (spellAll items)
  | tuple items => spellTuple (spellAll items)
  | set items => if items.isEmpty then "set()" else bracketed "\x7b" "\x7d" (spellAll items)
  | map entries => bracketed "\x7b" "\x7d" (spellEntries entries)

/-- Each value of a list. -/
def spellAll : List Value → List String
  | [] => []
  | v :: vs => v.spell :: spellAll vs

/-- Each entry of a mapping. -/
def spellEntries : List (Value × Value) → List String
  | [] => []
  | (k, v) :: rest => (k.spell ++ ": " ++ v.spell) :: spellEntries rest

end

/-- A value as it stands inside a sentence. -/
def plain : Value → String
  | text s => s
  | date y m d => String.ofList (Decimal.padded 4 y) ++ "-" ++ spellTwo m ++ "-" ++ spellTwo d
  | moment m => m.plain
  | v => v.spell

/-- Two values between round brackets. -/
def spellPair (p : Value × Value) : String := spellTuple [p.1.spell, p.2.spell]

end Value

/-- Two whole numbers between round brackets. -/
def spellInts (p : Int × Int) : String := spellTuple [toString p.1, toString p.2]

end SteeredConv
