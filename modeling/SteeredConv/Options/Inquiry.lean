/-
# Questions to a set of options

A record of options is asked for its state, for single settings and for what its
operations answer. A setting that hides an operation is answered in its place, and an
operation that needs a hidden one fails.

Key definitions: `AnyOptions`, `Answer`, `Inquirable`, `OptionRecord.ask`,
`OptionRecord.change`.
-/
import SteeredConv.Options.Global
import SteeredConv.Options.Similarity

namespace SteeredConv

/-- One of the five sets of options. -/
inductive AnyOptions where
  | globals (o : GlobalOptions)
  | filler (o : FillerOptions)
  | gaussian (o : GaussianOptions)
  | orientedConv (o : OrientedConvOptions)
  | similarity (o : SimilarityOptions)

namespace AnyOptions

/-- The name of the set. -/
def title : AnyOptions → String
  | globals _ => OptionSet.globals.title
  | filler _ => OptionSet.filler.title
  | gaussian _ => OptionSet.gaussian.title
  | orientedConv _ => OptionSet.orientedConv.title
  | similarity _ => OptionSet.similarity.title

/-- The options and their settings. -/
def fields : AnyOptions → List (String × Setting)
  | globals o => o.fields
  | filler o => HasOptions.fields o
  | gaussian o => o.fields
  | orientedConv o => o.fields
  | similarity o => o.fields

end AnyOptions

/-- What a record of options answers. -/
inductive Answer where
  | setting (s : Setting)
  | pair (p : Value × Value)
  | geometry (g : Geometry)
  | options (o : AnyOptions)
  | flag (b : Bool)
  | listing (entries : List (String × Setting))
  | changed (o : AnyOptions)

/-- A set of options that can be asked. -/
class Inquirable (τ : Type) extends HasOptions τ where
  pack : τ → AnyOptions
  /-- What an operation or view of the set answers, if there is one of that name. -/
  consult : OptionRecord τ → String → Option (Action Fault Answer)
  /-- The geometry that the options resolve to. -/
  resolve : τ → Action Fault Geometry

instance : Inquirable GlobalOptions where
  pack := .globals
  consult _ _ := none
  resolve _ := throw (.noAttribute "")

instance : Inquirable FillerOptions where
  pack := .filler
  consult _ _ := none
  resolve _ := throw (.noAttribute "")

instance : Inquirable GaussianOptions where
  pack := .gaussian
  consult r
    | "kernel" => some (return .pair r.options.kernel)
    | "stride" => some (return .pair r.options.stride)
    | "pad" => some (return .pair r.options.pad)
    | "resolved_sigma" => some do
      return .setting (.value (← liftM r.options.resolvedSigma))
    | _ => none
  resolve _ := throw (.noAttribute "")

instance : Inquirable OrientedConvOptions where
  pack := .orientedConv
  consult r
    | "resolve" => some do return .geometry (← r.options.resolve)
    | "gaussian_cfg" => some do
      liftM (r.answers "resolve")
      return .options (.gaussian (← r.options.gaussian))
    | _ => none
  resolve o := o.resolve

instance : Inquirable SimilarityOptions where
  pack := .similarity
  consult r
    | "resolve" => some do return .geometry (← r.options.resolve)
    | "gaussian_cfg" => some do
      liftM (r.answers "resolve")
      return .options (.gaussian (← r.options.gaussian))
    | _ => none
  resolve o := o.resolve

/-- A question to a record of options. -/
inductive Inquiry where
  | state
  | outputSize (height width : Value)
  | geometryGaussian (sigma : Value)
  | summary (printout : Bool)
  | equals (settings : List (String × Setting))
  | member (name : String)

namespace OptionRecord

variable {τ : Type} [Inquirable τ] (r : OptionRecord τ)

/-- The geometry of a record whose resolving operation is not hidden. -/
def geometry : Action Fault Geometry := do
  liftM (r.answers "resolve")
  Inquirable.resolve r.options

/-- The member of a record of a given name: a hiding setting, an option, or what an operation
answers. -/
def member (name : String) : Action Fault Answer :=
  match r.hidden.find? fun h => h.1 = name with
  | some (_, s) => return .setting s
  | none =>
    match HasOptions.get? r.options name with
    | some s => return .setting s
    | none =>
      match Inquirable.consult r name with
      | some answer => answer
      | none =>
        if name = "update_config" then return .options (Inquirable.pack r.options)
        else throw (.noAttribute (
          quoted (HasOptions.owner τ).title ++ " object has no attribute " ++
          quoted name))

/-- What a record answers to a question. -/
def ask : Inquiry → Action Fault Answer
  | .state => return .options (Inquirable.pack r.options)
  | .outputSize h w => do return .pair (← liftM ((← r.geometry).outputSizeOf h w))
  | .geometryGaussian sigma => do return .options (.gaussian ((← r.geometry).gaussian sigma))
  | .summary printout => do
    liftM (r.answers "summary")
    match Inquirable.pack r.options with
    | .globals o => return .listing (← o.summary printout)
    | _ => throw (.noAttribute "")
  | .equals settings => do
    let other : τ ← liftM (HasOptions.build settings)
    return .flag (HasOptions.same r.options other)
  | .member name => r.member name

/-- Changes a record. What was changed before a refusal stays changed. The record itself has a
name in this operation, and a setting of that name is refused before any other is looked at. -/
def change (settings : List (String × Setting)) : OptionRecord τ × Except Fault Answer :=
  match r.answers "update_config" with
  | .error e => (r, .error e)
  | .ok () =>
    if settings.any fun e => e.1 = "self" then
      (r, .error (.wrongType ((HasOptions.owner τ).title ++
        ".update_config() got multiple values for argument 'self'")))
    else
      let (r, outcome) := r.update settings
      (r, outcome.map fun () => .changed (Inquirable.pack r.options))

end OptionRecord
end SteeredConv
