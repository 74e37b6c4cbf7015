/-
# From characters to tokens

Block structure is indentation: a token at a smaller column closes the blocks that
were opened further right, and one at a larger column opens a block. A key need not be
marked: whatever precedes a colon on the same line, within a thousand characters, is a
key, so the places where a key may begin are remembered and marked afterwards.

The tokens of a text are all tokens up to the first place where it cannot be split,
and what is wrong there.

Key definitions: `Layout`, `Layout.fetch`, `tokensOf`.
-/
import SteeredConv.Yaml.Lexeme

namespace SteeredConv
namespace Yaml

/-- A place where a key may begin. -/
structure KeyPlace where
  flowLevel : Int
  tokenNumber : Nat
  required : Bool
  index : Nat
  line : Nat
  column : Nat
  deriving Inhabited

/-- The tokens found and the structure around the cursor. -/
structure Layout where
  cursor : Cursor
  tokens : Array Token
  indent : Int
  indents : List Int
  flowLevel : Int
  allowKey : Bool
  keyPlaces : List KeyPlace
  finished : Bool

/-- A computation on the layout; the layout survives a failure. -/
abbrev Scan := ExceptT Fault (StateM Layout)

namespace Scan

/-- Before the first character. -/
def initial (s : String) : Layout :=
  { cursor := Cursor.ofText s, tokens := #[], indent := -1, indents := [], flowLevel := 0
    allowKey := true, keyPlaces := [], finished := false }

/-- Reads characters at the cursor. -/
def reading {β : Type} (r : Reading β) : Scan β := do
  match r.run (← get).cursor with
  | .ok (b, cursor) =>
    modify fun l => { l with cursor := cursor }
    return b
  | .error e => throw e

/-- The text cannot be split here. -/
def refuse {β : Type} : Scan β := throw (.document .tokens)

/-- Adds a token. -/
def emit (t : Token) : Scan Unit := modify fun l => { l with tokens := l.tokens.push t }

/-- Says whether a key may begin at the next token. -/
def setAllowKey (b : Bool) : Scan Unit := modify fun l => { l with allowKey := b }

/-- The character `n` places ahead. -/
def peek (n : Nat) : Scan Char := return (← get).cursor.peek n

/-- Moves over `n` characters. -/
def advance (n : Nat) : Scan Unit := modify fun l => { l with cursor := l.cursor.advanceBy n }

/-- Whether the cursor is inside brackets. -/
def inFlow : Scan Bool := return (← get).flowLevel != 0

/-- Moves over blanks, comments and line breaks. -/
def skipBlanks : Scan Unit := do
  if (← get).cursor.index == 0 && (← peek 0) == '\ufeff' then advance 1
  for _ in [0 : (← get).cursor.rest.length + 1] do
    reading (Reading.skipWhile (· == ' '))
    if (← peek 0) == '#' then reading (Reading.skipWhile fun c => !endsLine c)
    let lineBreak ← reading Reading.takeLineBreak
    if lineBreak.isEmpty then break
    if !(← inFlow) then setAllowKey true

/-- Forgets the places of keys that lie on an earlier line or too far back. -/
def forgetStale : Scan Unit := do
  let l ← get
  let stale (k : KeyPlace) : Bool := k.line != l.cursor.line || 1024 < l.cursor.index - k.index
  if l.keyPlaces.any fun k => stale k && k.required then refuse
  set { l with keyPlaces := l.keyPlaces.filter fun k => !stale k }

/-- Forgets the place of a key at the present depth. -/
def forgetKey : Scan Unit := do
  let l ← get
  if l.keyPlaces.any fun k => k.flowLevel == l.flowLevel && k.required then refuse
  set { l with keyPlaces := l.keyPlaces.filter fun k => k.flowLevel != l.flowLevel }

/-- Remembers that a key may begin here. -/
def rememberKey : Scan Unit := do
  let l ← get
  if l.allowKey then
    forgetKey
    modify fun l => { l with keyPlaces := l.keyPlaces ++ [
      { flowLevel := l.flowLevel, tokenNumber := l.tokens.size
        required := l.flowLevel == 0 && l.indent == l.cursor.column
        index := l.cursor.index, line := l.cursor.line, column := l.cursor.column }] }

/-- Closes the blocks indented further than a column. -/
def unwind (column : Int) : Scan Unit := do
  if !(← inFlow) then
    for _ in [0 : (← get).indents.length + 1] do
      let l ← get
      if column < l.indent then
        set { l with
          indent := l.indents.headD (-1), indents := l.indents.tail
          tokens := l.tokens.push .blockEnd }
      else break

/-- Opens a block at a column that is further right. -/
def openBlock (column : Int) : Scan Bool := do
  let l ← get
  if l.indent < column then
    set { l with indent := column, indents := l.indent :: l.indents }
    return true
  else return false

/-- The end of the text. -/
def fetchEnd : Scan Unit := do
  unwind (-1)
  forgetKey
  modify fun l => { l with allowKey := false, keyPlaces := [], finished := true }
  emit .streamEnd

/-- A mark that begins or ends a document. -/
def fetchMarker (t : Token) : Scan Unit := do
  unwind (-1)
  forgetKey
  setAllowKey false
  advance 3
  emit t

/-- An opening bracket. -/
def fetchOpening (t : Token) : Scan Unit := do
  rememberKey
  modify fun l => { l with flowLevel := l.flowLevel + 1, allowKey := true }
  advance 1
  emit t

/-- A closing bracket. -/
def fetchClosing (t : Token) : Scan Unit := do
  forgetKey
  modify fun l => { l with flowLevel := l.flowLevel - 1, allowKey := false }
  advance 1
  emit t

/-- The mark of an entry of a block sequence. -/
def fetchEntry : Scan Unit := do
  if !(← inFlow) then
    if !(← get).allowKey then refuse
    if ← openBlock (← get).cursor.column then emit .blockSequenceStart
  setAllowKey true
  forgetKey
  advance 1
  emit .blockEntry

/-- The mark of a key. -/
def fetchKey : Scan Unit := do
  if !(← inFlow) then
    if !(← get).allowKey then refuse
    if ← openBlock (← get).cursor.column then emit .blockMappingStart
  setAllowKey (!(← inFlow))
  forgetKey
  advance 1
  emit .key

/-- The colon in front of a value; it may turn an earlier place into a key. -/
def fetchValue : Scan Unit := do
  let l ← get
  match l.keyPlaces.find? fun k => k.flowLevel == l.flowLevel with
  | some k =>
    modify fun l => { l with
      keyPlaces := l.keyPlaces.filter fun k => k.flowLevel != l.flowLevel
      tokens := l.tokens.insertIdxIfInBounds k.tokenNumber .key }
    if !(← inFlow) then
      if ← openBlock k.column then
        modify fun l =>
          { l with tokens := l.tokens.insertIdxIfInBounds k.tokenNumber .blockMappingStart }
    setAllowKey false
  | none =>
    if !(← inFlow) then
      if !(← get).allowKey then refuse
      if ← openBlock (← get).cursor.column then emit .blockMappingStart
    setAllowKey (!(← inFlow))
    forgetKey
  advance 1
  emit .value

/-- A token that may be a key and that is read by `r`. -/
def fetchLexeme (r : Reading Token) : Scan Unit := do
  rememberKey
  setAllowKey false
  emit (← reading r)

/-- Whether a bare scalar may begin here. -/
def atBare : Scan Bool := do
  let c ← peek 0
  let next ← peek 1
  if !(isSpace c || c ∈ "-?:,[]{}#&*!|>'\"%@`".toList) then return true
  return !isSpace next && (c == '-' || (!(← inFlow) && (c == '?' || c == ':')))

/-- Adds the token that begins at the cursor, and the ends of blocks before it. -/
def fetch : Scan Unit := do
  skipBlanks
  forgetStale
  unwind (← get).cursor.column
  let l ← get
  let c := l.cursor.peek 0
  let next := l.cursor.peek 1
  let flow := l.flowLevel != 0
  let lineStart := l.cursor.column == 0
  if c == endMark then fetchEnd
  else if c == '%' && lineStart then
    unwind (-1)
    forgetKey
    setAllowKey false
    emit (← reading Reading.directive)
  else if lineStart && l.cursor.atMarker '-' then fetchMarker .documentStart
  else if lineStart && l.cursor.atMarker '.' then fetchMarker .documentEnd
  else if c == '[' then fetchOpening .flowSequenceStart
  else if c == '\x7b' then fetchOpening .flowMappingStart
  else if c == ']' then fetchClosing .flowSequenceEnd
  else if c == '\x7d' then fetchClosing .flowMappingEnd
  else if c == ',' then
    setAllowKey true
    forgetKey
    advance 1
    emit .flowEntry
  else if c == '-' && isSpace next then fetchEntry
  else if c == '?' && (flow || isSpace next) then fetchKey
  else if c == ':' && (flow || isSpace next) then fetchValue
  else if c == '*' then fetchLexeme (return .alias (← Reading.name))
  else if c == '&' then fetchLexeme (return .anchor (← Reading.name))
  else if c == '!' then fetchLexeme (return .tag (← Reading.tagName))
  else if (c == '|' || c == '>') && !flow then
    setAllowKey true
    forgetKey
    emit (.scalar (← reading (Reading.blockScalar l.indent (c == '>'))) false)
  else if c == '\'' || c == '"' then
    fetchLexeme (return .scalar (← Reading.quotedScalar (c == '"')) false)
  else if ← atBare then
    rememberKey
    let (text, broken) ← reading (Reading.bareScalar l.indent flow)
    setAllowKey broken
    emit (.scalar text true)
  else refuse

/-- Adds tokens until the text ends or cannot be split. -/
def fetchAll : Nat → Scan Unit
  | 0 => pure ()
  | fuel + 1 => do
    if !(← get).finished then
      fetch
      fetchAll fuel

end Scan

/-- The tokens of a text, and the fault that ended them if there is one. -/
def tokensOf (s : String) : List Token × Option Fault :=
  let (result, layout) := (Scan.fetchAll (s.length + 2)).run.run (Scan.initial s)
  let fault := match result with
    | .ok _ => none
    | .error e => some e
  (layout.tokens.toList, fault)

end Yaml
end SteeredConv
