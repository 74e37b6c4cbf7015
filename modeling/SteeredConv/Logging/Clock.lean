/-
# The local time

Lines of logs and names of files tell the local time, and files are begun anew by it.
What a clock on the wall shows at a moment depends on the site where the program runs,
so it is a parameter, `Site`, together with the directory that paths lead from. Moments
are counted in seconds.

Key definitions: `WallTime`, `Site`, `Instant`, `RotationUnit`, `RotationUnit.next`,
`RotationUnit.begun`, `RotationUnit.suffix`, `RotationUnit.isOfForm`.
Key statements: `RotationUnit.suffix_ends`.
-/
import SteeredConv.Decimal.Fixed
import SteeredConv.Fault

namespace SteeredConv

/-- What a clock on the wall shows, and whether it is put forward. -/
structure WallTime where
  year : Nat
  month : Nat
  day : Nat
  hour : Nat
  minute : Nat
  second : Nat
  /-- The days since Monday. -/
  weekday : Nat
  summer : Bool

/-- A site to run at: what the clocks show there, and the directory that paths lead from. -/
structure Site where
  shows : Int → WallTime
  directory : String

/-- A moment, to the thousandth of a second. -/
structure Instant where
  seconds : Int
  thousandths : Nat

/-- A number with zeros in front. -/
def paddedText (width n : Nat) : String := String.ofList (Decimal.padded width n)

namespace WallTime

/-- The day in a name. -/
def dayText (t : WallTime) : String :=
  paddedText 4 t.year ++ "-" ++ paddedText 2 t.month ++ "-" ++ paddedText 2 t.day

def sinceMidnight (t : WallTime) : Nat := (t.hour * 60 + t.minute) * 60 + t.second

end WallTime

namespace Site

/-- The day of a moment in a name. -/
def today (site : Site) (now : Int) : String := (site.shows now).dayText

/-- The time in a line of a log. -/
def stamp (site : Site) (m : Instant) : String :=
  let t := site.shows m.seconds
  t.dayText ++ " " ++ paddedText 2 t.hour ++ ":" ++ paddedText 2 t.minute ++ ":" ++ paddedText 2 t.second ++
    "," ++ paddedText 3 m.thousandths

end Site

/-- What files are begun anew after, or at: midnight, or the end of a day of the week. -/
inductive RotationUnit where
  | second
  | minute
  | hour
  | day
  | midnight
  | week (weekday : Nat)
  deriving Repr, DecidableEq

namespace RotationUnit

/-- The unit of a text in capital letters. -/
def of? (unit : String) : Except Fault RotationUnit :=
  match unit with
  | "S" => .ok second
  | "M" => .ok minute
  | "H" => .ok hour
  | "D" => .ok day
  | "MIDNIGHT" => .ok midnight
  | unit =>
    match unit.toList with
    | ['W', weekday] =>
      if '0' ≤ weekday ∧ weekday ≤ '6' then .ok (week (weekday.toNat - '0'.toNat))
      else .error (.badValue ("Invalid day specified for weekly rollover: " ++ unit))
    | 'W' :: _ => .error (.badValue
        ("You must specify a day for weekly rollover from 0 to 6 (0 is Monday): " ++ unit))
    | _ => .error (.badValue ("Invalid rollover interval specified: " ++ unit))

/-- The text of a unit. -/
def text : RotationUnit → String
  | second => "S"
  | minute => "M"
  | hour => "H"
  | day => "D"
  | midnight => "MIDNIGHT"
  | week weekday => s!"W{weekday}"

/-- The seconds of a unit. -/
def seconds : RotationUnit → Int
  | second => 1
  | minute => 60
  | hour => 3600
  | day | midnight => 86400
  | week _ => 604800

/-- A coming midnight, corrected where the clocks are changed before it. -/
def corrected (site : Site) (now midnight : Int) : Int :=
  if (site.shows now).summer = (site.shows midnight).summer then midnight
  else if (site.shows now).summer then midnight + 3600
  else if (site.shows (midnight - 3600)).summer then midnight - 3600
  else midnight

/-- The moment at which a file that is written to is to be begun anew. -/
def next (site : Site) (now : Int) (u : RotationUnit) : Int :=
  let t := site.shows now
  let left : Int := 86400 - t.sinceMidnight
  -- A leap second at the end of the day belongs to the day after it.
  let (left, weekday) := if 0 < left then (left, t.weekday) else (left + 86400, (t.weekday + 1) % 7)
  match u with
  | midnight => corrected site now (now + left)
  | week last =>
    let days := if weekday ≤ last then last - weekday else 6 - weekday + last + 1
    corrected site now (now + left + days * 86400)
  | u => now + u.seconds

/-- What the clock showed when the unit of time began that ends at a moment, by the clock of today. -/
def begun (site : Site) (now due : Int) (u : RotationUnit) : WallTime :=
  let start := due - u.seconds
  if (site.shows now).summer = (site.shows start).summer then site.shows start
  else if (site.shows now).summer then site.shows (start + 3600)
  else site.shows (start - 3600)

/-- What is added to the name of a file that was begun at some time when a new one takes its place. -/
def suffix (u : RotationUnit) (t : WallTime) : String :=
  match u with
  | second => t.dayText ++ "_" ++ paddedText 2 t.hour ++ "-" ++ paddedText 2 t.minute ++ "-" ++ paddedText 2 t.second
  | minute => t.dayText ++ "_" ++ paddedText 2 t.hour ++ "-" ++ paddedText 2 t.minute
  | hour => t.dayText ++ "_" ++ paddedText 2 t.hour
  | day | midnight | week _ => t.dayText

/-- Whether a text is of the form of a pattern, in which `d` stands for a digit. -/
def isOfForm : List Char → List Char → Bool
  | [], [] => true
  | f :: pattern, c :: text => (if f = 'd' then c.isDigit else c = f) && isOfForm pattern text
  | _, _ => false

/-- The form of what is added to names. -/
def form : RotationUnit → String
  | second => "dddd-dd-dd_dd-dd-dd"
  | minute => "dddd-dd-dd_dd-dd"
  | hour => "dddd-dd-dd_dd"
  | day | midnight | week _ => "dddd-dd-dd"

/-- What is added to a name ends in a digit. -/
theorem suffix_ends (u : RotationUnit) (t : WallTime) :
    ∃ c, c.isDigit = true ∧ (u.suffix t).toList.getLast? = some c := by
  have hpadded (width n : Nat) : ∃ c, c.isDigit = true ∧ (paddedText width n).toList.getLast? = some c := by
    have hne : Nat.toDigits 10 n ≠ [] := Nat.toDigits_ne_nil
    refine ⟨(Nat.toDigits 10 n).getLast hne,
      Nat.isDigit_of_mem_toDigits (by decide) (by decide) (List.getLast_mem hne), ?_⟩
    rw [paddedText, String.toList_ofList, Decimal.padded, List.getLast?_append, List.getLast?_eq_some_getLast hne,
      Option.some_or]
  have happend (s : String) (width n : Nat) :
      ∃ c, c.isDigit = true ∧ (s ++ paddedText width n).toList.getLast? = some c := by
    obtain ⟨c, hdigit, hlast⟩ := hpadded width n
    exact ⟨c, hdigit, by rw [String.toList_append, List.getLast?_append, hlast, Option.some_or]⟩
  cases u <;> exact happend _ _ _

end RotationUnit
end SteeredConv
