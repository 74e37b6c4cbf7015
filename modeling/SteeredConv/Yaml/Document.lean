/-
# The value of a document

The tree of a document becomes a value: scalars by their types, mappings with the
entries of merged mappings behind their own, a repeated key keeping its place and
taking the last value. What cannot be a key, and what has an unknown type, is refused.

Key definitions: `Node.merged`, `Node.value`, `documentOf`.
-/
import SteeredConv.Yaml.Node

namespace SteeredConv
namespace Yaml
namespace Node

/-- The name of the type of a node. -/
def tag : Node → String
  | scalar t _ | sequence t _ | mapping t _ => t

/-- The entries of mappings merged from a node, nearest last. -/
def sources : Node → Except Fault (List (Node × Node))
  | mapping _ entries => .ok entries
  | sequence _ items => do
    let lists ← items.mapM fun
      | mapping _ entries => .ok entries
      | _ => .error (.document .values)
    return lists.reverse.flatten
  | scalar .. => .error (.document .values)

mutual

/-- A node in which every mapping holds the entries that it merges. -/
def merged : Node → Except Fault Node
  | scalar t s => .ok (scalar t s)
  | sequence t items => return sequence t (← mergedAll items)
  | mapping t entries => do
    let (inherited, own) ← mergedEntries entries
    return mapping t (inherited ++ own)

/-- Each node of a list. -/
def mergedAll : List Node → Except Fault (List Node)
  | [] => .ok []
  | n :: rest => return (← n.merged) :: (← mergedAll rest)

/-- The entries that a mapping inherits, and its own. -/
def mergedEntries : List (Node × Node) → Except Fault (List (Node × Node) × List (Node × Node))
  | [] => .ok ([], [])
  | (k, v) :: rest => do
    let v ← v.merged
    if k.tag = tagOf "merge" then
      let here ← sources v
      let (inherited, own) ← mergedEntries rest
      return (here ++ inherited, own)
    else
      let k ← k.merged
      let k := if k.tag = tagOf "value" then
          match k with
          | scalar _ s => scalar (tagOf "str") s
          | k => k
        else k
      let (inherited, own) ← mergedEntries rest
      return (inherited, (k, v) :: own)

end

/-- Whether a value can be a key. -/
def isKey : Value → Bool
  | .list _ | .map _ | .set _ => false
  | _ => true

/-- A mapping with one more entry; a key that is there keeps its place. -/
def insert (entries : List (Value × Value)) (k v : Value) : List (Value × Value) :=
  if entries.any fun e => e.1.same k then
    entries.map fun e => if e.1.same k then (e.1, v) else e
  else entries ++ [(k, v)]

/-- A mapping from its entries in order. -/
def assemble (entries : List (Value × Value)) : List (Value × Value) :=
  entries.foldl (fun acc (k, v) => insert acc k v) []

mutual

/-- The value of a node whose mappings are merged. -/
def value : Node → Except Fault Value
  | scalar t s => scalarValue t s
  | sequence t items =>
    if t = tagOf "seq" then return .list (← valueAll items)
    else if t = tagOf "omap" ∨ t = tagOf "pairs" then return .list (← valuePairs items)
    else .error (.document .values)
  | mapping t entries =>
    if t = tagOf "map" then return .map (assemble (← valueEntries entries))
    else if t = tagOf "set" then return .set ((assemble (← valueEntries entries)).map (·.1))
    else .error (.document .values)

def valueAll : List Node → Except Fault (List Value)
  | [] => .ok []
  | n :: rest => return (← n.value) :: (← valueAll rest)

/-- The values of the entries of a mapping. -/
def valueEntries : List (Node × Node) → Except Fault (List (Value × Value))
  | [] => .ok []
  | (k, v) :: rest => do
    let k ← k.value
    if !isKey k then throw (.document .values)
    let v ← v.value
    return (k, v) :: (← valueEntries rest)

/-- Mappings of one entry as pairs. -/
def valuePairs : List Node → Except Fault (List Value)
  | [] => .ok []
  | mapping _ [(k, v)] :: rest => do
    let k ← k.value
    let v ← v.value
    return .tuple [k, v] :: (← valuePairs rest)
  | _ :: _ => .error (.document .values)

end
end Node

/-- The value of the only document of a text; nothing if it holds none. -/
def documentOf (s : String) : Except Fault Value := do
  if !s.toList.all isAllowed then throw (.document .characters)
  match ← nodeOf s with
  | none => return .null
  | some n => (← n.merged).value

end Yaml
end SteeredConv
