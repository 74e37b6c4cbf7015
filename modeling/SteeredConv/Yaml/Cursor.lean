/-
# Reading a document character by character

A `Cursor` is the rest of a text together with the place reached. Lines end with a
line feed, a carriage return, both, or one of the three further line separators; the
byte-order mark takes no column. Past the end the text continues with the null
character, which no document may hold.

Key definitions: `Cursor`, `Cursor.peek`, `Cursor.advance`, `Cursor.takeLineBreak`.
-/
import SteeredConv.Fault

namespace SteeredConv
namespace Yaml

/-- What follows the end of a text. -/
def endMark : Char := '\x00'

/-- The characters that end a line, beside the end of the text. -/
def isBreak (c : Char) : Bool :=
  c == '\n' || c == '\r' || c == '\u0085' || c == '\u2028' || c == '\u2029'

/-- Whether a line ends before this character. -/
def endsLine (c : Char) : Bool := c == endMark || isBreak c

/-- Whether a line or a word ends before this character, a tab not counting. -/
def endsWord (c : Char) : Bool := c == ' ' || endsLine c

/-- Whether a line or a word ends before this character. -/
def isSpace (c : Char) : Bool := c == '\t' || endsWord c

/-- The characters that documents may hold. -/
def isAllowed (c : Char) : Bool :=
  let n := c.toNat
  n == 0x9 || n == 0xa || n == 0xd || (0x20 ≤ n && n ≤ 0x7e) || n == 0x85 ||
    (0xa0 ≤ n && n ≤ 0xd7ff) || (0xe000 ≤ n && n ≤ 0xfffd) || 0x10000 ≤ n

/-- A place in a text. -/
structure Cursor where
  rest : List Char
  index : Nat
  line : Nat
  column : Nat
  deriving Inhabited

namespace Cursor

/-- The beginning of a text. -/
def ofText (s : String) : Cursor := ⟨s.toList, 0, 0, 0⟩

/-- The character `n` places ahead. -/
def peek (c : Cursor) (n : Nat) : Char := c.rest.getD n endMark

/-- Moves over one character. -/
def advance (c : Cursor) : Cursor :=
  match c.rest with
  | [] => c
  | x :: rest =>
    if x == '\n' || x == '\u0085' || x == '\u2028' || x == '\u2029' ||
        (x == '\r' && rest.head? != some '\n') then
      ⟨rest, c.index + 1, c.line + 1, 0⟩
    else ⟨rest, c.index + 1, c.line, if x == '\ufeff' then c.column else c.column + 1⟩

/-- Moves over `n` characters. -/
def advanceBy (c : Cursor) : Nat → Cursor
  | 0 => c
  | n + 1 => c.advance.advanceBy n

/-- The characters up to the first that fails a test. -/
def span (c : Cursor) (p : Char → Bool) : List Char := c.rest.takeWhile p

/-- Moves over the characters that pass a test. -/
def skipWhile (c : Cursor) (p : Char → Bool) : Cursor := c.advanceBy (c.span p).length

/-- Whether a document marker of three equal characters stands here. -/
def atMarker (c : Cursor) (x : Char) : Bool :=
  c.peek 0 == x && c.peek 1 == x && c.peek 2 == x && isSpace (c.peek 3)

/-- Whether a line that begins here separates documents. -/
def atSeparator (c : Cursor) : Bool := c.atMarker '-' || c.atMarker '.'

end Cursor

/-- A computation that reads a text from its cursor. -/
abbrev Reading := StateT Cursor (Except Fault)

namespace Reading

/-- The character `n` places ahead. -/
def peek (n : Nat) : Reading Char := return (← get).peek n

/-- Moves over `n` characters. -/
def advance (n : Nat) : Reading Unit := modify fun c => c.advanceBy n

/-- Takes the characters up to the first that fails a test. -/
def takeWhile (p : Char → Bool) : Reading (List Char) := do
  let taken := (← get).span p
  advance taken.length
  return taken

/-- Moves over the characters that pass a test. -/
def skipWhile (p : Char → Bool) : Reading Unit := modify fun c => c.skipWhile p

/-- Takes a line break, which stands for a line feed unless it is one of the separators of
lines and paragraphs; nothing if no line ends here. -/
def takeLineBreak : Reading (List Char) := do
  let c ← get
  let x := c.peek 0
  if x == '\r' && c.peek 1 == '\n' then
    advance 2
    return ['\n']
  else if x == '\r' || x == '\n' || x == '\u0085' then
    advance 1
    return ['\n']
  else if x == '\u2028' || x == '\u2029' then
    advance 1
    return [x]
  else return []

/-- The document cannot be split into tokens here. -/
def refuse {β : Type} : Reading β := throw (.document .tokens)

/-- Refuses the text unless a condition holds. -/
def require (condition : Bool) : Reading Unit := if condition then pure () else refuse

/-- Repeats a step while it asks for more, at most as often as `fuel` says. -/
def repeatWhile (step : Reading Bool) : Nat → Reading Unit
  | 0 => pure ()
  | fuel + 1 => do
    if ← step then repeatWhile step fuel

/-- More steps than there are characters left. -/
def budget : Reading Nat := return (← get).rest.length + 1

end Reading
end Yaml
end SteeredConv
