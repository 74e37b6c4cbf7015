/-
# Numbers among the values of options

Truth values, whole numbers and floating-point numbers form one number system:
`Value.number?` reads them as a `Number`, comparisons between whole and
floating-point numbers are exact, and arithmetic is whole as long as both sides are.
`Value.whole` is the conversion to a whole number: floating-point numbers lose their
fraction and text is read as a signed decimal whose digits may be grouped by single
underscores.

Key definitions: `Number`, `Number.compare?`, `Value.less`, `Value.same`,
`Value.whole`, `Value.real`.
Key statements: `Number.lt_whole`, `Number.le_whole`.
-/
import SteeredConv.Fault
import SteeredConv.Scalar
import SteeredConv.Text.Digits

namespace SteeredConv

/-- A number as options hold it. -/
inductive Number where
  | whole (n : Int)
  | real (x : Float)
  deriving Inhabited

namespace Number

/-- Exact comparison of a whole number with a floating-point one; `none` beside no number. -/
def compareWhole? (n : Int) (x : Float) : Option Ordering :=
  match Binary.ofFloat x with
  | .nan => none
  | .infinite negative => some (if negative then .gt else .lt)
  | .finite negative m q =>
    let m : Int := if negative then -(m : Int) else m
    if 0 ≤ q then some (compare n (m * Int.pow 2 q.toNat)) else some (compare (n * Int.pow 2 (-q).toNat) m)

/-- The order of two numbers; `none` if one of them is no number. -/
def compare? : Number → Number → Option Ordering
  | whole a, whole b => some (compare a b)
  | whole a, real y => compareWhole? a y
  | real x, whole b => (compareWhole? b x).map Ordering.swap
  | real x, real y =>
    if x < y then some .lt else if y < x then some .gt else if x == y then some .eq else none

/-- `a < b`. -/
def lt (a b : Number) : Bool := a.compare? b == some .lt

/-- `a ≤ b`. -/
def le (a b : Number) : Bool :=
  match a.compare? b with
  | some .lt | some .eq => true
  | _ => false

@[simp] theorem lt_whole (a b : Int) : (whole a).lt (whole b) = decide (a < b) := by
  show (some (compareOfLessAndEq a b) == some Ordering.lt) = decide (a < b)
  unfold compareOfLessAndEq
  by_cases h : a < b
  · simp [h]
  · by_cases he : a = b
    · simp [he]
    · simp [h, he]

@[simp] theorem le_whole (a b : Int) : (whole a).le (whole b) = decide (a ≤ b) := by
  unfold le compare?
  show (match some (compareOfLessAndEq a b) with
    | some .lt | some .eq => true
    | _ => false) = decide (a ≤ b)
  unfold compareOfLessAndEq
  by_cases h : a < b
  · simp [h, Int.le_of_lt h]
  · by_cases he : a = b
    · simp [he]
    · have : ¬a ≤ b := by omega
      simp [h, he, this]

/-- The least natural number that rounds to no finite floating-point number. It is
`2 ^ 1024 - 2 ^ 970`, half a step above the greatest one that is finite. -/
def floatBound : Nat := (Nat.pow 2 54 - 1) * Nat.pow (Nat.pow 2 194) 5

/-- The floating-point number nearest to a number; whole numbers beyond its range have none. -/
def toFloat : Number → Except Fault Float
  | real x => .ok x
  | whole n => if n.natAbs < floatBound then .ok (Float.ofInt n) else .error (.overflow .float)

/-- Refuses whole numbers that arrays cannot be combined with: those below `-2 ^ 63` and those from
`2 ^ 64` on. -/
def checkWord : Number → Except Fault Unit
  | real _ => .ok ()
  | whole n => if -Int.pow 2 63 ≤ n ∧ n < Int.pow 2 64 then .ok () else .error (.overflow (.word n))

/-- The number in another number system. -/
def toScalar {α : Type} [Scalar α] : Number → α
  | real x => Scalar.ofFloat x
  | whole n => if n < 0 then -((n.natAbs : Nat) : α) else ((n.natAbs : Nat) : α)

/-- Applies the whole-number operation if both sides are whole, the other one else. -/
def combine (onWhole : Int → Int → Int) (onReal : Float → Float → Float) :
    Number → Number → Except Fault Number
  | whole a, whole b => .ok (.whole (onWhole a b))
  | a, b => do return .real (onReal (← a.toFloat) (← b.toFloat))

/-- The number as a quotient of a whole number and a natural, if it is finite. -/
def quotient? : Number → Option (Int × Nat)
  | whole n => some (n, 1)
  | real x =>
    match Binary.ofFloat x with
    | .finite negative m q =>
      let r := Ratio.scaled m q
      some (if negative then -(r.num : Int) else r.num, r.den)
    | _ => none

/-- The quotient rounded down. -/
def floorDiv (a b : Number) : Except Fault Number :=
  match a, b with
  | whole a, whole b => if b = 0 then .error .divisionByZero else .ok (.whole (Int.fdiv a b))
  | a, b => do
    let x ← a.toFloat
    let y ← b.toFloat
    if y == 0 then throw .divisionByZero
    match quotient? (.real x), quotient? (.real y) with
    | some (n, d), some (n', d') => return .real (Float.ofInt (Int.fdiv (n * d') (n' * d)))
    | _, _ =>
      if x.isFinite && !y.isNaN then return .real (if (x < 0) != (y < 0) && x != 0 then -1 else 0)
      else return .real (0 / 0)

/-- Whether `b` divides `a`, for positive numbers. Beside a floating-point number a whole one counts as
the nearest one of its kind. -/
def dividedBy (a b : Number) : Except Fault Bool :=
  match a, b with
  | whole a, whole b => .ok (a % b == 0)
  | a, b => do
    let x ← a.toFloat
    let y ← b.toFloat
    match (real x).quotient?, (real y).quotient? with
    | some (n, d), some (n', d') => return n * d' % (n' * d) == 0
    | _, _ => return false

def toValue : Number → Value
  | whole n => .int n
  | real x => .float x

end Number

namespace Value

def number? : Value → Option Number
  | bool b => some (.whole (if b then 1 else 0))
  | int n => some (.whole n)
  | float x => some (.real x)
  | _ => none

/-- The lexicographic order of two lists of characters. -/
def lessText : List Char → List Char → Bool
  | [], [] => false
  | [], _ :: _ => true
  | _ :: _, [] => false
  | a :: as, b :: bs => a < b || (a == b && lessText as bs)

/-- `a < b`; numbers, texts, bytes and dates are ordered, and moments of which both or none have an
offset. -/
def less (a b : Value) : Except Fault Bool :=
  match a.number?, b.number? with
  | some x, some y => .ok (x.lt y)
  | _, _ =>
    match a, b with
    | text s, text t => .ok (lessText s.toList t.toList)
    | date y m d, date y' m' d' =>
      .ok (y < y' || (y == y' && (m < m' || (m == m' && d < d'))))
    | bytes s, bytes t => .ok (lessText (s.map Char.ofNat) (t.map Char.ofNat))
    | moment m, moment n =>
      if m.offset.isSome = n.offset.isSome then .ok (decide (m.instant < n.instant))
      else .error (.unordered "<" a b)
    | _, _ => .error (.unordered "<" a b)

/-- `a ≤ b`; only numbers and texts are ordered. -/
def atMost (a b : Value) : Except Fault Bool :=
  match a.number?, b.number? with
  | some x, some y => .ok (x.le y)
  | _, _ =>
    match a, b with
    | text s, text t => .ok (!lessText t.toList s.toList)
    | _, _ => .error (.unordered "<=" a b)

/-- `a > b`; only what `less` orders is ordered. -/
def exceeds (a b : Value) : Except Fault Bool :=
  match b.less a with
  | .ok r => .ok r
  | .error _ => .error (.unordered ">" a b)

mutual

/-- Equality of values: numbers by what they are, collections by their members. -/
def same : Value → Value → Bool
  | null, null => true
  | text s, text t => s == t
  | date y m d, date y' m' d' => y == y' && m == m' && d == d'
  | moment m, moment n => m.offset.isSome == n.offset.isSome && m.instant == n.instant
  | bytes a, bytes b => a == b
  | list a, list b => sameAll a b
  | tuple a, tuple b => sameAll a b
  | set a, set b => a.length == b.length && subset a b
  | map a, map b => a.length == b.length && submap a b
  | a, b =>
    match a.number?, b.number? with
    | some x, some y => x.compare? y == some .eq
    | _, _ => false

/-- Equality of two lists, member by member. -/
def sameAll : List Value → List Value → Bool
  | [], [] => true
  | a :: as, b :: bs => a.same b && sameAll as bs
  | _, _ => false

/-- Whether every member of the first list is in the second. -/
def subset : List Value → List Value → Bool
  | [], _ => true
  | a :: as, bs => bs.any (fun b => a.same b) && subset as bs

/-- Whether every entry of the first mapping is in the second. -/
def submap : List (Value × Value) → List (Value × Value) → Bool
  | [], _ => true
  | (k, v) :: rest, bs => bs.any (fun (k', v') => k.same k' && v.same v') && submap rest bs

end

/-- The value stored under a text key. -/
def lookup? (entries : List (Value × Value)) (key : String) : Option Value :=
  entries.findSome? fun
    | (.text k, v) => if k = key then some v else none
    | _ => none

/-- The blanks around a number. -/
def isBlank (c : Char) : Bool :=
  c == ' ' || (0x9 ≤ c.toNat && c.toNat ≤ 0xd) || (0x1c ≤ c.toNat && c.toNat ≤ 0x1f) ||
    c.toNat == 0x85 || c.toNat == 0xa0 || c.toNat == 0x1680 ||
    (0x2000 ≤ c.toNat && c.toNat ≤ 0x200a) || c.toNat == 0x2028 || c.toNat == 0x2029 ||
    c.toNat == 0x202f || c.toNat == 0x205f || c.toNat == 0x3000

/-- A text without the blanks at its ends. -/
def trimmed (cs : List Char) : List Char :=
  ((cs.dropWhile isBlank).reverse.dropWhile isBlank).reverse

/-- The value of a run of digits in which single underscores may stand between digits. -/
def groupedDigits? (cs : List Char) : Option Nat :=
  go cs 0 false
where
  /-- Reads on after `acc`; `afterDigit` tells whether the last character was a digit. -/
  go : List Char → Nat → Bool → Option Nat
    | [], acc, afterDigit => if afterDigit then some acc else none
    | c :: rest, acc, afterDigit =>
      match digitValue? c with
      | some d => go rest (acc * 10 + d) true
      | none => if c == '_' && afterDigit then go rest acc false else none

/-- The sign in front of a number and what follows it. -/
def signed : List Char → Bool × List Char
  | '-' :: rest => (true, rest)
  | '+' :: rest => (false, rest)
  | cs => (false, cs)

/-- A signed decimal whole number. -/
def wholeOfText? (s : String) : Option Int :=
  let (negative, digits) := signed (trimmed s.toList)
  (groupedDigits? digits).map fun n => if negative then -(n : Int) else n

/-- The whole part of a floating-point number. -/
def wholeOfFloat (x : Float) : Except Fault Int :=
  match Binary.ofFloat x with
  | .nan => .error (.badValue "cannot convert float NaN to integer")
  | .infinite _ => .error (.overflow .whole)
  | .finite negative m q =>
    let n := (Ratio.scaled m q).floor
    .ok (if negative then -(n : Int) else n)

/-- A value as a whole number. -/
def whole (v : Value) : Except Fault Int :=
  match v with
  | bool b => .ok (if b then 1 else 0)
  | int n => .ok n
  | float x => wholeOfFloat x
  | text s =>
    match wholeOfText? s with
    | some n => .ok n
    | none => .error (.badValue ("invalid literal for int() with base 10: " ++ quoted s))
  | v => .error (.wrongType
      ("int() argument must be a string, a bytes-like object or a real number, not " ++
        quoted v.kind))

/-- A value that has to be a whole number as it stands. -/
def count (v : Value) : Except Fault Int :=
  match v with
  | int n => .ok n
  | _ => .error (.wrongType "")

/-- A value that has to be a number as it stands. -/
def measure (v : Value) : Except Fault Float :=
  match v.number? with
  | some n => n.toFloat
  | none => .error (.wrongType "")

/-- A value that has to be a number that arrays can be combined with, in their number system. -/
def measureIn (α : Type) [Scalar α] (v : Value) : Except Fault α :=
  match v.number? with
  | some n => do
    n.checkWord
    return n.toScalar
  | none => .error (.wrongType "")

/-- A run of digits, with the number of digits, in which single underscores may stand. -/
def digitRun : List Char → List Char × List Char
  | c :: rest =>
    if isDecimalDigit c then
      let (run, tail) := digitRun rest
      (c :: run, tail)
    else if c == '_' then
      match rest with
      | d :: _ =>
        if isDecimalDigit d then
          let (run, tail) := digitRun rest
          ('_' :: run, tail)
        else ([], c :: rest)
      | [] => ([], c :: rest)
    else ([], c :: rest)
  | [] => ([], [])

/-- The digits of a run without its underscores. -/
def digitsOnly (cs : List Char) : List Char := cs.filter isDecimalDigit

/-- The number written by decimal digits. -/
def ofDigits (cs : List Char) : Nat := cs.foldl (fun n c => n * 10 + (digitValue? c).getD 0) 0

/-- The exponent after a decimal, zero if there is none; `none` if it is malformed. -/
def exponentOf? : List Char → Option Int
  | [] => some 0
  | c :: rest =>
    if c == 'e' || c == 'E' then
      let (negative, cs) := signed rest
      let (run, tail) := digitRun cs
      if run.isEmpty || !tail.isEmpty || run.head? == some '_' then none
      else
        let n := ofDigits (digitsOnly run)
        some (if negative then -(n : Int) else n)
    else none

/-- The double nearest to `n · 10 ^ e`. -/
def nearestDecimal (n : Nat) (e : Int) : Float :=
  if n = 0 then 0
  else if e > 400 then 1 / 0
  else if 0 ≤ e then Float.ofScientific (n * Nat.pow 10 e.toNat) false 0
  else Float.ofScientific n true (-e).toNat

/-- A decimal number with an optional fraction and exponent, or one of the names of the
infinities and of no number. -/
def realOfText? (s : String) : Option Float :=
  let (negative, cs) := signed (trimmed s.toList)
  let apply (x : Float) : Float := if negative then -x else x
  let lower := String.ofList (cs.map Char.toLower)
  if lower = "inf" ∨ lower = "infinity" then some (apply (1 / 0))
  else if lower = "nan" then some (0 / 0)
  else
    let (front, rest) := digitRun cs
    let (back, rest) := match rest with
      | '.' :: more => digitRun more
      | other => ([], other)
    if front.head? = some '_' ∨ back.head? = some '_' ∨ (front.isEmpty ∧ back.isEmpty) then none
    else
      match exponentOf? rest with
      | none => none
      | some e =>
        let digits := digitsOnly front ++ digitsOnly back
        some (apply (nearestDecimal (ofDigits digits) (e - (digitsOnly back).length)))

/-- A value as a floating-point number. -/
def real (v : Value) : Except Fault Float :=
  match v with
  | text s =>
    match realOfText? s with
    | some x => .ok x
    | none => .error (.badValue ("could not convert string to float: " ++ quoted s))
  | v =>
    match v.number? with
    | some n => n.toFloat
    | none => .error (.wrongType
        ("float() argument must be a string or a real number, not " ++ quoted v.kind))

end Value
end SteeredConv
