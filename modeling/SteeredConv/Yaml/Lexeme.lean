/-
# The texts of single tokens

How each kind of token is read once its first character is known: directives, anchors
and tags, block scalars with their indentation, quoted scalars with their escapes, and
bare scalars that end before a mark.

Key definitions: `Reading.directive`, `Reading.name`, `Reading.tagName`,
`Reading.blockScalar`, `Reading.quotedScalar`, `Reading.bareScalar`.
-/
import SteeredConv.Yaml.Token

namespace SteeredConv
namespace Yaml
namespace Reading

/-- Letters, digits, the hyphen and the underscore. -/
def isNameChar (c : Char) : Bool := c.isAlphanum || c == '-' || c == '_'

/-- The characters of a type name beside letters and digits. -/
def isUriChar (c : Char) : Bool := c.isAlphanum || c ∈ "-;/?:@&=+$,_.!~*'()[]%".toList

/-- The value of a hexadecimal digit. -/
def hexValue? (c : Char) : Option Nat :=
  if c.isDigit then some (c.toNat - 48)
  else if 'a' ≤ c ∧ c ≤ 'f' then some (c.toNat - 87)
  else if 'A' ≤ c ∧ c ≤ 'F' then some (c.toNat - 55)
  else none

/-- The number of exactly `n` hexadecimal digits. -/
def hexNumber (n : Nat) : Reading Nat := do
  let digits := (← get).rest.take n
  require (digits.length == n && digits.all fun c => (hexValue? c).isSome)
  advance n
  return digits.foldl (fun acc c => acc * 16 + (hexValue? c).getD 0) 0

/-- A comment, if one stands here, and the end of the line. -/
def endOfLine : Reading Unit := do
  skipWhile (· == ' ')
  if (← peek 0) == '#' then skipWhile fun c => !endsLine c
  require (endsLine (← peek 0))
  let _ ← takeLineBreak

/-! ### Names and tags -/

/-- The name behind the mark of an anchor or an alias. -/
def name : Reading String := do
  advance 1
  let cs ← takeWhile isNameChar
  require (!cs.isEmpty)
  let next ← peek 0
  require (isSpace next || next ∈ "?:,]\x7d%@`".toList)
  return String.ofList cs

/-- The bytes behind percent signs, as characters. -/
def escapedBytes : Reading (List Char) := do
  let mut bytes : ByteArray := .empty
  for _ in [0 : ← budget] do
    if (← peek 0) == '%' then
      advance 1
      bytes := bytes.push (← hexNumber 2).toUInt8
    else break
  match String.fromUTF8? bytes with
  | some s => return s.toList
  | none => refuse

/-- The part of a type name behind its handle. -/
def uri : Reading String := do
  let mut chars : List Char := []
  for _ in [0 : ← budget] do
    let c ← peek 0
    if c == '%' then chars := chars ++ (← escapedBytes)
    else if isUriChar c then
      advance 1
      chars := chars ++ [c]
    else break
  require (!chars.isEmpty)
  return String.ofList chars

/-- A handle: an exclamation mark, or a name between two of them. -/
def handle : Reading String := do
  require ((← peek 0) == '!')
  if (← peek 1) == ' ' then
    advance 1
    return "!"
  advance 1
  let cs ← takeWhile isNameChar
  require ((← peek 0) == '!')
  advance 1
  return String.ofList ('!' :: cs ++ ['!'])

/-- The type name behind an exclamation mark. -/
def tagName : Reading TagName := do
  let next ← peek 1
  let result ←
    if next == '<' then do
      advance 2
      let suffix ← uri
      require ((← peek 0) == '>')
      advance 1
      pure (⟨none, suffix⟩ : TagName)
    else if isSpace next then do
      advance 1
      pure ⟨none, "!"⟩
    else do
      let word := ((← get).rest.drop 1).takeWhile fun c => !endsWord c
      let prefixed := '!' ∈ word
      let handle ← if prefixed then handle else do
        advance 1
        pure "!"
      pure ⟨some handle, ← uri⟩
  require (endsWord (← peek 0))
  return result

/-! ### Directives -/

/-- A decimal number. -/
def number : Reading Nat := do
  let digits ← takeWhile Char.isDigit
  require (!digits.isEmpty)
  return digits.foldl (fun n c => n * 10 + (c.toNat - 48)) 0

/-- The directive behind a percent sign. -/
def directive : Reading Token := do
  advance 1
  let cs ← takeWhile isNameChar
  require (!cs.isEmpty && endsWord (← peek 0))
  let token ←
    match String.ofList cs with
    | "YAML" => do
      skipWhile (· == ' ')
      let major ← number
      require ((← peek 0) == '.')
      advance 1
      let _ ← number
      require (endsWord (← peek 0))
      pure (Token.version major)
    | "TAG" => do
      skipWhile (· == ' ')
      let h ← handle
      require ((← peek 0) == ' ')
      skipWhile (· == ' ')
      let target ← uri
      require (endsWord (← peek 0))
      pure (Token.tagHandle h target)
    | _ => do
      skipWhile fun c => !endsLine c
      pure Token.directive
  endOfLine
  return token

/-! ### Block scalars -/

/-- What happens to the line breaks at the end of a block scalar. -/
inductive Chomping where
  | clip
  | strip
  | keep
  deriving DecidableEq

/-- The indentation that a header asks for; zero is refused. -/
def blockIncrement : Reading (Option Nat) := do
  let c ← peek 0
  if c.isDigit then
    require (c != '0')
    advance 1
    return some (c.toNat - 48)
  else return none

/-- The chomping that a header asks for. -/
def blockChomping : Reading (Option Chomping) := do
  let c ← peek 0
  if c == '+' || c == '-' then
    advance 1
    return some (if c == '+' then .keep else .strip)
  else return none

/-- The header of a block scalar: chomping and indentation in either order. -/
def blockHeader : Reading (Chomping × Option Nat) := do
  let result ←
    match ← blockChomping with
    | some chomping => do pure (chomping, ← blockIncrement)
    | none => do
      match ← blockIncrement with
      | some n => do pure ((← blockChomping).getD .clip, some n)
      | none => pure (Chomping.clip, none)
  require (endsWord (← peek 0))
  return result

/-- Empty lines before a block scalar, and the widest indentation among them. -/
def leadingBreaks : Reading (List Char × Nat) := do
  let mut breaks : List Char := []
  let mut widest := 0
  for _ in [0 : ← budget] do
    let c ← peek 0
    if c == ' ' then
      advance 1
      widest := max widest (← get).column
    else if isBreak c then breaks := breaks ++ (← takeLineBreak)
    else break
  return (breaks, widest)

/-- Moves over spaces up to a column. -/
def indentTo (indent : Nat) : Reading Unit := do
  let c ← get
  let spaces := (c.span (· == ' ')).length
  advance (min spaces (indent - c.column))

/-- Empty lines inside a block scalar. -/
def innerBreaks (indent : Nat) : Reading (List Char) := do
  let mut breaks : List Char := []
  indentTo indent
  for _ in [0 : ← budget] do
    if isBreak (← peek 0) then
      breaks := breaks ++ (← takeLineBreak)
      indentTo indent
    else break
  return breaks

/-- What stands between two lines of a block scalar. -/
def blockJoin (folded startsBare nextBare : Bool) (lineBreak breaks : List Char) : List Char :=
  if folded && lineBreak == ['\n'] && startsBare && nextBare then
    if breaks.isEmpty then [' '] else []
  else lineBreak

/-- The scalar behind the mark of a block scalar, inside a block indented by `parent`. -/
def blockScalar (parent : Int) (folded : Bool) : Reading String := do
  advance 1
  let (chomping, increment) ← blockHeader
  endOfLine
  let least := (max (parent + 1) 1).toNat
  let (firstBreaks, indent) ←
    match increment with
    | none => do
      let (breaks, widest) ← leadingBreaks
      pure (breaks, max least widest)
    | some n => do
      let indent := least + n - 1
      pure (← innerBreaks indent, indent)
  let mut chunks : List Char := []
  let mut breaks := firstBreaks
  let mut lineBreak : List Char := []
  for _ in [0 : ← budget] do
    if (← get).column != indent || (← peek 0) == endMark then break
    chunks := chunks ++ breaks
    let startsBare := !((← peek 0) == ' ' || (← peek 0) == '\t')
    chunks := chunks ++ (← takeWhile fun c => !endsLine c)
    lineBreak ← takeLineBreak
    breaks ← innerBreaks indent
    if (← get).column == indent && (← peek 0) != endMark then
      let next ← peek 0
      chunks := chunks ++
        blockJoin folded startsBare (!(next == ' ' || next == '\t')) lineBreak breaks
    else break
  let ending :=
    match chomping with
    | .strip => []
    | .clip => lineBreak
    | .keep => lineBreak ++ breaks
  return String.ofList (chunks ++ ending)

/-! ### Quoted scalars -/

/-- The character that a letter behind a backslash stands for. -/
def escape? : Char → Option Char
  | '0' => some '\x00'
  | 'a' => some '\x07'
  | 'b' => some '\x08'
  | 't' | '\t' => some '\t'
  | 'n' => some '\n'
  | 'v' => some '\x0b'
  | 'f' => some '\x0c'
  | 'r' => some '\r'
  | 'e' => some '\x1b'
  | ' ' => some ' '
  | '"' => some '"'
  | '\\' => some '\\'
  | '/' => some '/'
  | 'N' => some '\u0085'
  | '_' => some '\u00a0'
  | 'L' => some '\u2028'
  | 'P' => some '\u2029'
  | _ => none

/-- The number of hexadecimal digits behind a letter behind a backslash. -/
def escapeWidth? : Char → Option Nat
  | 'x' => some 2
  | 'u' => some 4
  | 'U' => some 8
  | _ => none

/-- Empty lines inside a quoted scalar; a line that separates documents is refused. -/
def quotedBreaks : Reading (List Char) := do
  let mut breaks : List Char := []
  for _ in [0 : ← budget] do
    require (!(← get).atSeparator)
    skipWhile fun c => c == ' ' || c == '\t'
    if isBreak (← peek 0) then breaks := breaks ++ (← takeLineBreak)
    else break
  return breaks

/-- Line breaks that are folded into one space, or into the empty lines between them. -/
def foldBreaks (lineBreak breaks : List Char) : List Char :=
  (if lineBreak != ['\n'] then lineBreak else if breaks.isEmpty then [' '] else []) ++ breaks

/-- The characters of one escape sequence. -/
def escapeSequence : Reading (List Char) := do
  advance 1
  let c ← peek 0
  match escape? c, escapeWidth? c with
  | some x, _ =>
    advance 1
    return [x]
  | none, some width =>
    advance 1
    let code ← hexNumber width
    if 0x10ffff < code then throw (.badValue "chr() arg not in range(0x110000)")
    return [Char.ofNat code]
  | none, none =>
    require (isBreak c)
    let _ ← takeLineBreak
    quotedBreaks

/-- The scalar between single or double quotes. -/
def quotedScalar (double : Bool) : Reading String := do
  let quote := if double then '"' else '\''
  advance 1
  let mut chunks : List Char := []
  for _ in [0 : ← budget] do
    let c ← peek 0
    if c == '\'' && !double && (← peek 1) == '\'' then
      advance 2
      chunks := chunks ++ ['\'']
    else if c == quote then break
    else if c == '\\' && double then chunks := chunks ++ (← escapeSequence)
    else if c == ' ' || c == '\t' then
      let blanks ← takeWhile fun c => c == ' ' || c == '\t'
      let next ← peek 0
      require (next != endMark)
      if isBreak next then
        let lineBreak ← takeLineBreak
        chunks := chunks ++ foldBreaks lineBreak (← quotedBreaks)
      else chunks := chunks ++ blanks
    else if endsLine c then
      require (c != endMark)
      let lineBreak ← takeLineBreak
      chunks := chunks ++ foldBreaks lineBreak (← quotedBreaks)
    else
      advance 1
      chunks := chunks ++ [c]
  require ((← peek 0) == quote)
  advance 1
  return String.ofList chunks

/-! ### Bare scalars -/

/-- Whether a bare scalar ends before character `c`, which `next` follows. -/
def endsBare (inFlow : Bool) (c next : Char) : Bool :=
  isSpace c || (c == ':' && (isSpace next || (inFlow && next ∈ ",[]{}".toList))) ||
    (inFlow && c ∈ ",?[]{}".toList)

/-- The characters up to the end of a bare scalar on this line. -/
def bareSpan (inFlow : Bool) : List Char → List Char
  | [] => []
  | c :: rest => if endsBare inFlow c (rest.headD endMark) then [] else c :: bareSpan inFlow rest

/-- The blanks and line breaks behind a part of a bare scalar, folded, and whether a line
ended; nothing at a line that separates documents. -/
def bareBlanks : Reading (List Char × Bool) := do
  let blanks ← takeWhile (· == ' ')
  if isBreak (← peek 0) then
    let lineBreak ← takeLineBreak
    if (← get).atSeparator then return ([], true)
    let mut breaks : List Char := []
    for _ in [0 : ← budget] do
      let c ← peek 0
      if c == ' ' then advance 1
      else if isBreak c then
        breaks := breaks ++ (← takeLineBreak)
        if (← get).atSeparator then return ([], true)
      else break
    return (foldBreaks lineBreak breaks, true)
  else return (blanks, false)

/-- A bare scalar inside a block indented by `parent`, and whether a line ended behind its
last part. -/
def bareScalar (parent : Int) (inFlow : Bool) : Reading (String × Bool) := do
  let mut chunks : List Char := []
  let mut blanks : List Char := []
  let mut broken := false
  for _ in [0 : ← budget] do
    if (← peek 0) == '#' then break
    let part := bareSpan inFlow (← get).rest
    if part.isEmpty then break
    chunks := chunks ++ blanks ++ part
    advance part.length
    let (more, ended) ← bareBlanks
    blanks := more
    broken := ended
    if blanks.isEmpty || (← peek 0) == '#' then break
    if !inFlow && ((← get).column : Int) < parent + 1 then break
  return (String.ofList chunks, broken)

end Reading
end Yaml
end SteeredConv
