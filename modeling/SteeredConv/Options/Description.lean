/-
# Descriptions of layers

A description is a mapping with a list of layers; each entry names its type and gives
options of that type, and an entry may have a name that is ignored. Decoding keeps the
order, takes every given option and leaves the others at their defaults.

A description comes as text or as the name of a file: a text on a single line that ends
like a file name is one.

Key definitions: `LayerOptions`, `LayerOptions.ofEntry`, `layersOf`, `Source`,
`Source.document`, `Source.layers`.
-/
import SteeredConv.Options.Similarity
import SteeredConv.Yaml.Document

namespace SteeredConv

/-- Options of one layer of a description. -/
inductive LayerOptions where
  | orientedConv (o : OrientedConvOptions)
  | similarity (o : SimilarityOptions)

namespace LayerOptions

def insertOrdered (v : Value) : List Value → Except Fault (List Value)
  | [] => .ok [v]
  | w :: rest => do
    if ← v.less w then return v :: w :: rest
    else return w :: (← insertOrdered v rest)

/-- Values in ascending order, if they have one. -/
def ordered : List Value → Except Fault (List Value)
  | [] => .ok []
  | v :: rest => do insertOrdered v (← ordered rest)

/-- The text of a key, if it is text. -/
def textKey? : Value → Option String
  | .text s => some s
  | _ => none

/-- A filler from the entries of a mapping. -/
def fillerOf (key : String) (entries : List (Value × Value)) : Except Fault Setting :=
  let refuse (reason : String) : Except Fault Setting := .error (.option (.badFiller key reason))
  match entries.mapM fun (k, v) => (textKey? k).map (·, v) with
  | none => refuse "keywords must be strings"
  | some named =>
    if named.any fun e => e.1 = "self" then
      refuse "FillerConfig.__init__() got multiple values for argument 'self'"
    else
      match FillerOptions.ofEntries {} named with
      | .ok f => .ok (.filler f)
      | .error unknown => refuse (HasOptions.unexpected .filler unknown)

/-- The setting of a layer option; a mapping for a filler is decoded. -/
def settingOf (key : String) (v : Value) : Except Fault Setting :=
  match v with
  | .map entries =>
    if key = "weight_filler" ∨ key = "bias_filler" then fillerOf key entries else .ok (.value v)
  | _ => .ok (.value v)

/-- The options of a layer type from the entries of its description. Of two bad fillers the one
of the weight is reported. -/
def decode (τ : Type) [HasOptions τ] (layer : String) (entries : List (Value × Value)) :
    Except Fault τ := do
  let known := (HasOptions.fields (HasOptions.default : τ)).map (·.1)
  let unknown := (entries.map (·.1)).filter fun k =>
    match textKey? k with
    | some s => s ∉ known
    | none => true
  if !unknown.isEmpty then
    throw (.option (.unknownLayerKeys layer (← ordered unknown)))
  let weightFirst := ["weight_filler", "bias_filler"].filterMap fun key =>
    (Value.lookup? entries key).map (key, ·)
  let _ ← weightFirst.mapM fun (key, v) => settingOf key v
  let settings ← entries.mapM fun (k, v) => do
    let key := (textKey? k).getD ""
    return (key, ← settingOf key v)
  HasOptions.build settings

/-- The options that remain when an entry's type and name are taken out. -/
def remaining (entries : List (Value × Value)) : List (Value × Value) :=
  entries.filter fun e => textKey? e.1 ≠ some "type" ∧ textKey? e.1 ≠ some "name"

/-- The options of one entry of a description. -/
def ofEntry (entry : Value) : Except Fault LayerOptions :=
  match entry with
  | .map entries =>
    match Value.lookup? entries "type" with
    | none => .error (.option .noLayerType)
    | some (.text "GradOrientConvolution") =>
      (decode OrientedConvOptions "GradOrientConvolution" (remaining entries)).map .orientedConv
    | some (.text "SSIMLoss") =>
      (decode SimilarityOptions "SSIMLoss" (remaining entries)).map .similarity
    | some v =>
      if Yaml.Node.isKey v then .error (.option (.unknownLayerType v))
      else .error (.wrongType ("unhashable type: " ++ quoted v.kind))
  | _ => .error (.option .noLayerType)

end LayerOptions

/-- The options of every layer of a description, in order. -/
def layersOf (document : Value) : Except Fault (List LayerOptions) :=
  match document with
  | .map entries =>
    match Value.lookup? entries "layers" with
    | some (.list items) => items.mapM LayerOptions.ofEntry
    | _ => .error (.option .noLayerList)
  | _ => .error (.option .noLayerList)

/-- Where a description comes from. -/
inductive Source where
  | text (s : String)
  | file (name : String)

namespace Source

/-- Text stands for itself unless it is one line that ends like the name of a file. -/
def ofText (s : String) : Source :=
  if '\n' ∉ s.toList ∧ (s.endsWith ".yaml" ∨ s.endsWith ".yml") then .file s else .text s

/-- The value of a description; files are looked up by name. -/
def document (files : String → Option String) : Source → Except Fault Value
  | text s => Yaml.documentOf s
  | file name =>
    match files name with
    | some s => Yaml.documentOf s
    | none => .error (.noSuchFile name)

/-- The layers of a description. -/
def layers (files : String → Option String) (s : Source) : Except Fault (List LayerOptions) := do
  layersOf (← s.document files)

end Source
end SteeredConv
