/-
# What scalars stand for

A bare scalar is read by its form: truth values have twenty-two spellings, whole
numbers may be binary, octal, hexadecimal or in base sixty, decimal numbers need a
point and a signed exponent, and dates and times have their usual forms. `implicitTag`
finds the form and `scalarValue` reads a scalar of a given form, which may have been
asked for by name.

Key definitions: `implicitTag`, `scalarValue`.
-/
import SteeredConv.Yaml.Token
import SteeredConv.Value.Number

namespace SteeredConv
namespace Yaml

/-- The common beginning of the names of the basic types. -/
def tagRoot : String := "tag:yaml.org,2002:"

/-- The name of a basic type. -/
def tagOf (name : String) : String := tagRoot ++ name

namespace Scalar

/-- Digits and underscores. -/
def isDigitOrGroup (c : Char) : Bool := c.isDigit || c == '_'

/-- A list of characters without a leading sign. -/
def unsigned : List Char → List Char
  | '-' :: rest => rest
  | '+' :: rest => rest
  | cs => cs

/-- Whether a text is one of the spellings of a truth value. -/
def isBool (s : String) : Bool :=
  s ∈ ["yes", "Yes", "YES", "no", "No", "NO", "true", "True", "TRUE", "false", "False", "FALSE",
    "on", "On", "ON", "off", "Off", "OFF"]

/-- Whether a text is one of the spellings of nothing. -/
def isNull (s : String) : Bool := s ∈ ["~", "null", "Null", "NULL", ""]

/-- A signed exponent, or nothing. -/
def isExponent : List Char → Bool
  | [] => true
  | e :: sign :: digits =>
    (e == 'e' || e == 'E') && (sign == '-' || sign == '+') && !digits.isEmpty &&
      digits.all Char.isDigit
  | _ => false

/-- A digit run with a point behind it and perhaps an exponent. -/
def isPointed (cs : List Char) : Bool :=
  match cs with
  | c :: _ =>
    c.isDigit &&
      match cs.dropWhile isDigitOrGroup with
      | '.' :: rest => isExponent (rest.dropWhile isDigitOrGroup)
      | _ => false
  | [] => false

/-- Whether parts are numbers below sixty of at most two digits. -/
def areSixties (parts : List (List Char)) : Bool :=
  parts.all fun p =>
    match p with
    | [d] => d.isDigit
    | [t, d] => '0' ≤ t && t ≤ '5' && d.isDigit
    | _ => false

/-- The parts of a text between colons. -/
def parts (cs : List Char) : List (List Char) :=
  cs.foldr (fun c acc =>
    match c, acc with
    | ':', acc => [] :: acc
    | c, p :: ps => (c :: p) :: ps
    | c, [] => [[c]]) [[]]

/-- Whether a text has the form of a decimal number. -/
def isFloat (cs : List Char) : Bool :=
  let body := unsigned cs
  let signless := cs.length == body.length
  isPointed body ||
    (match cs with
      | '.' :: d :: rest => d.isDigit && isExponent (rest.dropWhile isDigitOrGroup)
      | _ => false) ||
    (match parts (body.takeWhile (· != '.')), body.dropWhile (· != '.') with
      | (d :: first) :: rest@(_ :: _), '.' :: fraction =>
        d.isDigit && first.all isDigitOrGroup && areSixties rest && fraction.all isDigitOrGroup
      | _, _ => false) ||
    String.ofList body ∈ [".inf", ".Inf", ".INF"] ||
    (signless && String.ofList cs ∈ [".nan", ".NaN", ".NAN"])

/-- Whether a text has the form of a whole number. -/
def isInt (cs : List Char) : Bool :=
  match unsigned cs with
  | '0' :: 'b' :: rest => !rest.isEmpty && rest.all fun c => c == '0' || c == '1' || c == '_'
  | '0' :: 'x' :: rest =>
    !rest.isEmpty &&
      rest.all fun c => c.isDigit || c == '_' || ('a' ≤ c && c ≤ 'f') || ('A' ≤ c && c ≤ 'F')
  | ['0'] => true
  | '0' :: rest => rest.all fun c => ('0' ≤ c && c ≤ '7') || c == '_'
  | d :: rest =>
    '1' ≤ d && d ≤ '9' &&
      (rest.all isDigitOrGroup ||
        match parts rest with
        | first :: others@(_ :: _) => first.all isDigitOrGroup && areSixties others
        | _ => false)
  | [] => false

/-! ### Dates and times -/

/-- The number of a run of digits whose length lies between two bounds, and the rest. -/
def digits? (least most : Nat) (cs : List Char) : Option (Nat × List Char) :=
  let run := (cs.takeWhile Char.isDigit).take most
  if run.length < least then none
  else some (run.foldl (fun n c => n * 10 + (c.toNat - 48)) 0, cs.drop run.length)

/-- The rest behind a given character. -/
def expect? (x : Char) : List Char → Option (List Char)
  | c :: rest => if c = x then some rest else none
  | [] => none

/-- What a time ends with: the offset in minutes, if one is given. -/
def zone? (cs : List Char) : Option (Option Int) :=
  match cs, cs.dropWhile (fun c => c == ' ' || c == '\t') with
  | [], _ => some none
  | _, ['Z'] => some (some 0)
  | _, sign :: rest =>
    if sign == '+' || sign == '-' then do
      let (hours, rest) ← digits? 1 2 rest
      let (minutes, rest) ← match rest with
        | [] => some (0, [])
        | ':' :: more => digits? 2 2 more
        | _ => none
      if rest.isEmpty then
        let total : Int := hours * 60 + minutes
        some (some (if sign == '-' then -total else total))
      else none
    else none
  | _, [] => none

/-- The six digits of a fraction of a second. -/
def microseconds (cs : List Char) : Nat :=
  let six := cs.take 6
  (six ++ List.replicate (6 - six.length) '0').foldl (fun n c => n * 10 + (c.toNat - 48)) 0

/-- A date by itself, or a moment. -/
inductive Timestamp where
  | day (year month day : Nat)
  | moment (m : Moment)

/-- A date with a four-digit year, perhaps with a time behind it. -/
def timestamp? (cs : List Char) : Option Timestamp := do
  let (year, rest) ← digits? 4 4 cs
  let rest ← expect? '-' rest
  let (month, rest) ← digits? 1 2 rest
  let rest ← expect? '-' rest
  let (day, rest) ← digits? 1 2 rest
  if rest.isEmpty then
    return .day year month day
  let rest ← match rest with
    | 'T' :: more | 't' :: more => some more
    | c :: _ =>
      if c == ' ' || c == '\t' then some (rest.dropWhile fun c => c == ' ' || c == '\t') else none
    | [] => none
  let (hour, rest) ← digits? 1 2 rest
  let rest ← expect? ':' rest
  let (minute, rest) ← digits? 2 2 rest
  let rest ← expect? ':' rest
  let (second, rest) ← digits? 2 2 rest
  let (fraction, rest) := match rest with
    | '.' :: more => (more.takeWhile Char.isDigit, more.dropWhile Char.isDigit)
    | other => ([], other)
  let offset ← zone? rest
  return .moment ⟨year, month, day, hour, minute, second, microseconds fraction, offset⟩

/-- Whether a bare text has the form of a date or a moment; a date by itself has two digits for
the month and for the day. -/
def isTimestamp (cs : List Char) : Bool :=
  match timestamp? cs with
  | some (.day ..) => cs.length == 10
  | some (.moment _) => true
  | none => false

/-- The number of days of a month. -/
def monthLength (year month : Nat) : Nat :=
  if month = 2 then
    if year % 4 = 0 ∧ (year % 100 ≠ 0 ∨ year % 400 = 0) then 29 else 28
  else if month ∈ [4, 6, 9, 11] then 30 else 31

/-- Whether a date exists. -/
def isDate (year month day : Nat) : Bool :=
  1 ≤ year && 1 ≤ month && month ≤ 12 && 1 ≤ day && day ≤ monthLength year month

/-- Whether a time exists. -/
def isTime (m : Moment) : Bool :=
  m.hour < 24 && m.minute < 60 && m.second < 60 &&
    match m.offset with
    | some minutes => minutes.natAbs < 1440
    | none => true

end Scalar

/-- The type that a bare scalar has by its form. -/
def implicitTag (s : String) : String :=
  let cs := s.toList
  if Scalar.isBool s then tagOf "bool"
  else if Scalar.isFloat cs then tagOf "float"
  else if Scalar.isInt cs then tagOf "int"
  else if s = "<<" then tagOf "merge"
  else if Scalar.isNull s then tagOf "null"
  else if Scalar.isTimestamp cs then tagOf "timestamp"
  else if s = "=" then tagOf "value"
  else tagOf "str"

namespace Scalar

/-- A scalar that has not the form of its type. -/
def misfit : Fault := .badValue ""

/-- The digits of a number in a base up to sixteen; at least one. -/
def inBase (base : Nat) (cs : List Char) : Except Fault Nat :=
  let value (c : Char) : Nat :=
    if c.isDigit then c.toNat - 48
    else if 'a' ≤ c ∧ c ≤ 'f' then c.toNat - 87
    else if 'A' ≤ c ∧ c ≤ 'F' then c.toNat - 55
    else 99
  if cs.isEmpty || cs.any fun c => base ≤ value c then .error misfit
  else .ok (cs.foldl (fun n c => n * base + value c) 0)

/-- A whole number without underscores and sign. -/
def magnitude : List Char → Except Fault Nat
  | ['0'] => .ok 0
  | '0' :: 'b' :: rest => inBase 2 rest
  | '0' :: 'x' :: rest => inBase 16 rest
  | '0' :: rest => inBase 8 ('0' :: rest)
  | cs =>
    if ':' ∈ cs then do
      let digits ← (parts cs).mapM (inBase 10)
      return digits.foldl (fun n d => n * 60 + d) 0
    else inBase 10 cs

/-- A whole number. -/
def wholeValue (cs : List Char) : Except Fault Value :=
  let cs := cs.filter (· != '_')
  match cs with
  | [] => .error .outOfRange
  | _ => do
    let body := unsigned cs
    if body.isEmpty then throw .outOfRange
    let n ← magnitude body
    return .int (if cs.head? = some '-' then -(n : Int) else n)

/-- A decimal number by its text. -/
def decimal (cs : List Char) : Except Fault Float :=
  match Value.realOfText? (String.ofList cs) with
  | some x => .ok x
  | none => .error misfit

/-- A decimal number. -/
def realValue (cs : List Char) : Except Fault Value := do
  let cs := (cs.filter (· != '_')).map Char.toLower
  if cs.isEmpty then throw .outOfRange
  let body := unsigned cs
  let sign : Float := if cs.head? = some '-' then -1 else 1
  if body = ".inf".toList then return .float (sign * (1 / 0))
  if body = ".nan".toList then return .float (0 / 0)
  if ':' ∈ body then
    let digits ← (parts body).mapM decimal
    return .float (sign * (digits.reverse.foldl (fun (acc, base) d => (acc + d * base, base * 60))
      ((0 : Float), (1 : Float))).1)
  return .float (sign * (← decimal body))

/-- A truth value. -/
def boolValue (s : String) : Except Fault Value :=
  let lower := String.ofList (s.toList.map Char.toLower)
  if lower ∈ ["yes", "true", "on"] then .ok (.bool true)
  else if lower ∈ ["no", "false", "off"] then .ok (.bool false)
  else .error (.missingKey lower)

/-- A date or a moment. -/
def timeValue (cs : List Char) : Except Fault Value :=
  match timestamp? cs with
  | some (.day y m d) => if isDate y m d then .ok (.date y m d) else .error misfit
  | some (.moment t) =>
    if isDate t.year t.month t.day && isTime t then .ok (.moment t) else .error misfit
  | none => .error (.noAttribute "'NoneType' object has no attribute 'groupdict'")

/-- The number of a digit in base sixty-four. -/
def base64Value? (c : Char) : Option Nat :=
  if 'A' ≤ c ∧ c ≤ 'Z' then some (c.toNat - 65)
  else if 'a' ≤ c ∧ c ≤ 'z' then some (c.toNat - 71)
  else if c.isDigit then some (c.toNat + 4)
  else if c = '+' then some 62
  else if c = '/' then some 63
  else none

/-- The bytes of groups of four digits in base sixty-four. -/
def base64Bytes : List Nat → List Nat
  | a :: b :: c :: d :: rest =>
    (a * 4 + b / 16) :: (b % 16 * 16 + c / 4) :: (c % 4 * 64 + d) :: base64Bytes rest
  | [a, b, c] => [a * 4 + b / 16, b % 16 * 16 + c / 4]
  | [a, b] => [a * 4 + b / 16]
  | _ => []

/-- Bytes written in base sixty-four. -/
def bytesValue (cs : List Char) : Except Fault Value :=
  let digits := cs.filterMap base64Value?
  let padding := (cs.filter (· == '=')).length
  if cs.any (fun c => 127 < c.toNat) || digits.length % 4 == 1 ||
      (digits.length % 4 != 0 && (digits.length + padding) % 4 != 0) then
    .error (.document .values)
  else .ok (.bytes (base64Bytes digits))

end Scalar

/-- The value of a scalar of a named type. -/
def scalarValue (tag s : String) : Except Fault Value :=
  if tag = tagOf "str" then .ok (.text s)
  else if tag = tagOf "null" then .ok .null
  else if tag = tagOf "bool" then Scalar.boolValue s
  else if tag = tagOf "int" then Scalar.wholeValue s.toList
  else if tag = tagOf "float" then Scalar.realValue s.toList
  else if tag = tagOf "timestamp" then Scalar.timeValue s.toList
  else if tag = tagOf "binary" then Scalar.bytesValue s.toList
  else .error (.document .values)

end Yaml
end SteeredConv
