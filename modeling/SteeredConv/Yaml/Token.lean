/-
# Tokens of a document

The marks of block and flow collections, scalars and their properties. A scalar that
is quoted or laid out as a block is never read as anything but text.

Key definitions: `Token`, `TagName`.
-/
import SteeredConv.Yaml.Cursor

namespace SteeredConv
namespace Yaml

/-- The name of a type as written: behind a handle, or whole. -/
structure TagName where
  handle : Option String
  suffix : String
  deriving Repr, DecidableEq, Inhabited

/-- A token of a document. -/
inductive Token where
  | streamEnd
  | version (major : Nat)
  | tagHandle (handle target : String)
  | directive
  | documentStart
  | documentEnd
  | blockSequenceStart
  | blockMappingStart
  | blockEnd
  | flowSequenceStart
  | flowSequenceEnd
  | flowMappingStart
  | flowMappingEnd
  | blockEntry
  | flowEntry
  | key
  | value
  | alias (name : String)
  | anchor (name : String)
  | tag (name : TagName)
  | scalar (text : String) (bare : Bool)
  deriving Repr, DecidableEq, Inhabited

end Yaml
end SteeredConv
