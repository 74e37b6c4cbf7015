/-
# From tokens to the tree of a document

A document is one node: a scalar, a sequence or a mapping, each with the name of its
type. An alias stands for the node that its anchor names; inside that node itself it
stands for an empty collection of the same sort. A text holds at most one document.

Key definitions: `Node`, `nodeOf`.
-/
import SteeredConv.Yaml.Scalar
import SteeredConv.Yaml.Layout

namespace SteeredConv
namespace Yaml

/-- A node of a document with the name of its type. -/
inductive Node where
  | scalar (tag text : String)
  | sequence (tag : String) (items : List Node)
  | mapping (tag : String) (entries : List (Node × Node))
  deriving Inhabited

/-- What is left of the tokens, and the names defined so far. -/
structure Parse where
  tokens : List Token
  fault : Option Fault
  handles : List (String × String)
  anchors : List (String × Node)

/-- A computation that takes tokens. -/
abbrev Parsing := StateT Parse (Except Fault)

namespace Parsing

/-- The tokens do not form a document. -/
def refuse {β : Type} : Parsing β := throw (.document .grammar)

/-- The next token. Where there is none, what ended the tokens is reported. -/
def peek : Parsing Token := do
  match (← get).tokens with
  | t :: _ => return t
  | [] => throw ((← get).fault.getD (.document .grammar))

/-- Takes the next token. -/
def skip : Parsing Unit := modify fun p => { p with tokens := p.tokens.tail }

/-- Whether the next token is one of some. -/
def at? (ts : List Token) : Parsing Bool := return (← peek) ∈ ts

/-- Takes the next token if it is the given one. -/
def accept (t : Token) : Parsing Bool := do
  if (← peek) == t then
    skip
    return true
  else return false

/-- The node of a place where nothing stands. -/
def empty : Node := .scalar (tagOf "null") ""

/-- The full name of a type as written. -/
def resolveTag (t : TagName) : Parsing String := do
  match t.handle with
  | none => return t.suffix
  | some h =>
    match (← get).handles.find? fun p => p.1 = h with
    | some (_, target) => return target ++ t.suffix
    | none => refuse

/-- An anchor and a type name in either order. -/
def properties : Parsing (Option String × Option String) := do
  match ← peek with
  | .anchor a =>
    skip
    match ← peek with
    | .tag t =>
      skip
      return (some a, some (← resolveTag t))
    | _ => return (some a, none)
  | .tag t =>
    skip
    match ← peek with
    | .anchor a =>
      skip
      return (some a, some (← resolveTag t))
    | _ => return (none, some (← resolveTag t))
  | _ => return (none, none)

/-- Refuses an anchor that is already taken. -/
def checkAnchor (a : Option String) : Parsing Unit := do
  match a with
  | some a => if (← get).anchors.any fun p => p.1 = a then throw (.document .composition)
  | none => pure ()

/-- Lets an anchor name a node. -/
def define (a : Option String) (n : Node) : Parsing Unit := do
  match a with
  | some a => modify fun p => { p with anchors := (a, n) :: p.anchors }
  | none => pure ()

/-- The name of the type of a collection. -/
def collectionTag (given : Option String) (usual : String) : String :=
  match given with
  | none | some "!" => tagOf usual
  | some t => t

/-- The name of the type of a scalar. -/
def scalarTag (given : Option String) (bare : Bool) (text : String) : String :=
  match given with
  | none => if bare then implicitTag text else tagOf "str"
  | some "!" => implicitTag text
  | some t => t

mutual

/-- A node. Sequences whose entries are not indented are accepted where `indentless` says so,
and block collections where `block` does. -/
def node : Nat → Bool → Bool → Parsing Node
  | 0, _, _ => refuse
  | fuel + 1, block, indentless => do
    match ← peek with
    | .alias a =>
      skip
      match (← get).anchors.find? fun p => p.1 = a with
      | some (_, n) => return n
      | none => throw (.document .composition)
    | _ =>
      let (anchor, tag) ← properties
      match ← peek with
      | .blockEntry =>
        if indentless then collect fuel anchor (collectionTag tag "seq") .blockEntry
        else bareProperties anchor tag
      | .scalar text bare =>
        checkAnchor anchor
        skip
        let n := Node.scalar (scalarTag tag bare text) text
        define anchor n
        return n
      | .flowSequenceStart => collect fuel anchor (collectionTag tag "seq") .flowSequenceStart
      | .flowMappingStart => collect fuel anchor (collectionTag tag "map") .flowMappingStart
      | .blockSequenceStart =>
        if block then collect fuel anchor (collectionTag tag "seq") .blockSequenceStart
        else bareProperties anchor tag
      | .blockMappingStart =>
        if block then collect fuel anchor (collectionTag tag "map") .blockMappingStart
        else bareProperties anchor tag
      | _ => bareProperties anchor tag

/-- A place that holds nothing but an anchor or a type name. -/
def bareProperties (anchor tag : Option String) : Parsing Node := do
  if anchor.isNone && tag.isNone then refuse
  checkAnchor anchor
  let n := Node.scalar (scalarTag tag (tag.isNone || tag == some "!") "") ""
  define anchor n
  return n

/-- The collection that a token begins. -/
def collect : Nat → Option String → String → Token → Parsing Node
  | 0, _, _, _ => refuse
  | fuel + 1, anchor, tag, start => do
    checkAnchor anchor
    match start with
    | .flowMappingStart | .blockMappingStart =>
      define anchor (.mapping tag [])
      skip
      let entries ← if start == .flowMappingStart then flowEntries fuel true else blockEntries fuel
      let n := Node.mapping tag entries
      define anchor n
      return n
    | _ =>
      define anchor (.sequence tag [])
      let items ←
        if start == .blockEntry then indentlessItems fuel
        else do
          skip
          if start == .flowSequenceStart then flowItems fuel true else blockItems fuel
      let n := Node.sequence tag items
      define anchor n
      return n

/-- A node, or nothing before one of some tokens. -/
def nodeUnless : Nat → List Token → Bool → Bool → Parsing Node
  | 0, _, _, _ => refuse
  | fuel + 1, ends, block, indentless => do
    if ← at? ends then return empty else node fuel block indentless

/-- The entries of a block sequence. -/
def blockItems : Nat → Parsing (List Node)
  | 0 => refuse
  | fuel + 1 => do
    if ← accept .blockEntry then
      let n ← nodeUnless fuel [.blockEntry, .blockEnd] true false
      return n :: (← blockItems fuel)
    else if ← accept .blockEnd then return []
    else refuse

/-- The entries of a sequence that has no indentation of its own. -/
def indentlessItems : Nat → Parsing (List Node)
  | 0 => refuse
  | fuel + 1 => do
    if ← accept .blockEntry then
      let n ← nodeUnless fuel [.blockEntry, .key, .value, .blockEnd] true false
      return n :: (← indentlessItems fuel)
    else return []

/-- The entries of a block mapping. -/
def blockEntries : Nat → Parsing (List (Node × Node))
  | 0 => refuse
  | fuel + 1 => do
    if ← accept .key then
      let k ← nodeUnless fuel [.key, .value, .blockEnd] true true
      let v ← if ← accept .value then nodeUnless fuel [.key, .value, .blockEnd] true true
        else pure empty
      return (k, v) :: (← blockEntries fuel)
    else if ← accept .blockEnd then return []
    else refuse

/-- The entries of a flow sequence; an entry with a key is a mapping of one entry. -/
def flowItems : Nat → Bool → Parsing (List Node)
  | 0, _ => refuse
  | fuel + 1, first => do
    if ← accept .flowSequenceEnd then return []
    if !first then
      if !(← accept .flowEntry) then refuse
    if ← accept .key then
      let k ← nodeUnless fuel [.value, .flowEntry, .flowSequenceEnd] false false
      let v ←
        if ← accept .value then nodeUnless fuel [.flowEntry, .flowSequenceEnd] false false
        else pure empty
      return .mapping (tagOf "map") [(k, v)] :: (← flowItems fuel false)
    else if ← accept .flowSequenceEnd then return []
    else
      let n ← node fuel false false
      return n :: (← flowItems fuel false)

/-- The entries of a flow mapping; an entry without a key is a key without a value. -/
def flowEntries : Nat → Bool → Parsing (List (Node × Node))
  | 0, _ => refuse
  | fuel + 1, first => do
    if ← accept .flowMappingEnd then return []
    if !first then
      if !(← accept .flowEntry) then refuse
    if ← accept .key then
      let k ← nodeUnless fuel [.value, .flowEntry, .flowMappingEnd] false false
      let v ←
        if ← accept .value then nodeUnless fuel [.flowEntry, .flowMappingEnd] false false
        else pure empty
      return (k, v) :: (← flowEntries fuel false)
    else if ← accept .flowMappingEnd then return []
    else
      let k ← node fuel false false
      return (k, empty) :: (← flowEntries fuel false)

end

/-- The handles that every document knows. -/
def usualHandles : List (String × String) := [("!", "!"), ("!!", tagRoot)]

/-- The directives in front of a document, each handle and the version at most once. -/
def directives : Nat → Bool → List (String × String) → Parsing (List (String × String))
  | 0, _, _ => refuse
  | fuel + 1, versioned, found => do
    match ← peek with
    | .version major =>
      skip
      if versioned || major != 1 then refuse
      directives fuel true found
    | .tagHandle h target =>
      skip
      if found.any fun p => p.1 = h then refuse
      directives fuel versioned ((h, target) :: found)
    | .directive =>
      skip
      directives fuel versioned found
    | _ => return found

/-- Moves over the marks that end documents. -/
def skipEnds : Nat → Parsing Unit
  | 0 => pure ()
  | fuel + 1 => do
    if ← accept .documentEnd then skipEnds fuel

/-- Whether a directive comes next. -/
def atDirective : Parsing Bool := do
  match ← peek with
  | .version _ | .tagHandle .. | .directive => return true
  | _ => return false

/-- The beginning of a document that is marked: directives and the mark. -/
def opening (fuel : Nat) : Parsing Unit := do
  let found ← directives fuel false []
  modify fun p => { p with handles := found ++ usualHandles }
  if !(← accept .documentStart) then refuse

/-- The only document of a text, if there is one. -/
def single (fuel : Nat) : Parsing (Option Node) := do
  let marked ← if ← atDirective then pure true else at? [.documentStart, .streamEnd]
  if marked then
    if ← at? [.streamEnd] then return none
    opening fuel
  let n ←
    if marked then
      if (← atDirective) || (← at? [.documentStart, .documentEnd, .streamEnd]) then pure empty
      else node fuel true false
    else node fuel true false
  let _ ← accept .documentEnd
  skipEnds fuel
  if ← at? [.streamEnd] then return some n
  opening fuel
  throw (.document .composition)

end Parsing

/-- The tree of the only document of a text, if it holds one. -/
def nodeOf (s : String) : Except Fault (Option Node) := do
  let (tokens, fault) := tokensOf s
  let start : Parse := { tokens, fault, handles := Parsing.usualHandles, anchors := [] }
  return (← (Parsing.single (3 * tokens.length + 10)).run start).1

end Yaml
end SteeredConv
