/-
# Stopping early

A stopper is told the loss of one epoch after another. It keeps the best loss, which
only a loss that is lower by more than a least improvement replaces, and counts the
epochs since; from its patience on it says to stop. When the loss improves and a model
is given, a checkpoint of that model replaces the one saved before.

Key definitions: `Loss`, `EarlyStopping`, `Checkpoint`, `EarlyStopping.improves`,
`EarlyStopping.observe`.
Key statements: `EarlyStopping.record_of_improved`, `EarlyStopping.record_of_not_improved`.
-/
import SteeredConv.Scalar
import SteeredConv.Update
import SteeredConv.Value.Named
import SteeredConv.Value.Number

namespace SteeredConv

/-- Losses that can be compared and written. -/
class Loss (l : Type) where
  /-- Whether a loss is below another one by more than a least improvement. -/
  improves : (loss best least : l) → Except Fault Bool
  /-- The loss with four places. -/
  written : l → Except Fault String
  ofFloat : Float → l

instance {ω : Type} [Scalar ω] : Loss ω where
  improves loss best least := .ok (decide (loss < best - least))
  written loss := .ok (Scalar.fixed 4 loss)
  ofFloat := Scalar.ofFloat

namespace Value

/-- The difference of two numbers. -/
def minus (a b : Value) : Except Fault Value :=
  match a.number?, b.number? with
  | some x, some y => do return (← Number.combine (· - ·) (· - ·) x y).toValue
  | _, _ => .error (.operands "-" a b)

def fourPlaces (v : Value) : Except Fault String :=
  match v.number?, v with
  | some n, _ => do return Decimal.fixed 4 (← n.toFloat)
  | none, .text _ => .error (.badValue "Unknown format code 'f' for object of type 'str'")
  | none, v =>
    .error (.wrongType ("unsupported format string passed to " ++ v.kind ++ ".__format__"))

end Value

instance : Loss Value where
  improves loss best least := do
    let bound ← best.minus least
    loss.less bound
  written := Value.fourPlaces
  ofFloat := .float

/-- What is saved of a model. -/
structure Checkpoint (l m : Type) where
  epoch : Value
  loss : Option l
  model : m
  /-- Whether the state of an optimizer is saved as well. -/
  withOptimizer : Bool
  params : Option Value

/-- The parts of a checkpoint by name, in order. -/
def Checkpoint.keys {l m : Type} (c : Checkpoint l m) : List String :=
  ["best_val_loss", "epoch", "model_state"] ++
    (if c.withOptimizer then ["optimizer_state"] else []) ++
    (if c.params.isSome then ["params"] else [])

/-- A stopper. -/
structure EarlyStopping (l : Type) where
  patience : Nat
  /-- The patience as it was given. -/
  givenPatience : Value
  leastImprovement : l
  savesModel : Bool
  /-- What is saved beside a model. -/
  params : Option Value
  /-- The epochs since the best loss. -/
  counter : Nat := 0
  best : Option l := none
  /-- The epoch of the best loss; minus one before any. -/
  bestEpoch : Value := .int (-1)

namespace EarlyStopping

variable {l m : Type}

/-- Whether a loss improves on the best one; any loss improves on none. -/
def improves [Loss l] (s : EarlyStopping l) (loss : Option l) : Except Fault Bool :=
  match s.best, loss with
  | none, _ => .ok true
  | some best, some loss => Loss.improves loss best s.leastImprovement
  | some _, none =>
    .error (.wrongType "'<' not supported between instances of 'NoneType' and 'float'")

/-- The stopper after a loss. -/
def record (s : EarlyStopping l) (improved : Bool) (loss : Option l) (epoch : Value) :
    EarlyStopping l :=
  if improved then { s with best := loss, bestEpoch := epoch, counter := 0 }
  else { s with counter := s.counter + 1 }

theorem record_of_improved (s : EarlyStopping l) (loss : Option l) (epoch : Value) :
    s.record true loss epoch = { s with best := loss, bestEpoch := epoch, counter := 0 } := rfl

theorem record_of_not_improved (s : EarlyStopping l) (loss : Option l) (epoch : Value) :
    s.record false loss epoch = { s with counter := s.counter + 1 } := rfl

/-- Whether the stopper has waited long enough. -/
def waited (s : EarlyStopping l) : Bool := s.patience ≤ s.counter

/-- A loss that is not given has no text. -/
def writtenLoss [Loss l] : Option l → Except Fault String
  | some loss => Loss.written loss
  | none => .error (.wrongType "unsupported format string passed to NoneType.__format__")

/-- Saves a model and logs that. -/
def save [Loss l] (s : EarlyStopping l) (epoch : Value) (model : m) (withOptimizer : Bool) :
    Update (EarlyStopping l × Option (Checkpoint l m)) Fault Unit := do
  modify fun (t, _) => (t, some ⟨epoch, s.best, model, withOptimizer, s.params⟩)
  let text ← liftM (writtenLoss s.best)
  Update.act (Action.info (s!"Best model saved at epoch {epoch.plain} with val_loss = " ++ text))

/-- Takes note of a loss and says whether to stop. The state holds the checkpoint that was saved
last. -/
def observe [Loss l] (loss : Option l) (model : Option m) (epoch : Value) (withOptimizer : Bool) :
    Update (EarlyStopping l × Option (Checkpoint l m)) Fault Bool := do
  let (s, _) ← get
  let improved ← liftM (s.improves loss)
  let s := s.record improved loss epoch
  modify fun (_, saved) => (s, saved)
  if improved then
    match model with
    | some model => if s.savesModel then s.save epoch model withOptimizer
    | none => pure ()
    return false
  else
    Update.act (Action.info s!"No improvement detected ({s.counter}/{s.givenPatience.plain})")
    if s.waited then
      Update.act (Action.info s!"Early stopping triggered at epoch {epoch.plain}.")
    return s.waited

section Create

/-- The number of epochs to wait for. -/
def patienceOf (v : Value) : Except Fault Nat :=
  let refusal : Except Fault Nat := .error (.request .patience)
  match v with
  | .int n => if 0 < n then .ok n.toNat else refusal
  | .bool true => .ok 1
  | _ => refusal

/-- The least improvement. -/
def leastOf (v : Value) : Except Fault Number :=
  match v.number? with
  | some n => if (Number.real 0).le n then .ok n else .error (.request .leastDelta)
  | none => .error (.request .leastDelta)

/-- An entry of a mapping that is given as a pair. -/
def entryOf (v : Value) : Except Fault (Value × Value) :=
  match v with
  | .list [k, w] | .tuple [k, w] => .ok (k, w)
  | .text s =>
    match s.toList with
    | [a, b] => .ok (.text (String.singleton a), .text (String.singleton b))
    | _ => .error (.badValue "")
  | .list _ | .tuple _ | .map _ | .set _ => .error (.badValue "")
  | _ => .error (.wrongType "")

/-- A mapping with one more entry; the last of several values of a key counts. -/
def addEntry (entries : List (Value × Value)) (e : Value × Value) : List (Value × Value) :=
  if entries.any fun f => f.1.same e.1 then
    entries.map fun f => if f.1.same e.1 then (f.1, e.2) else f
  else entries ++ [e]

/-- A mapping, or a list of pairs as one. -/
def mappingOf (v : Value) : Except Fault Value :=
  match v with
  | .map _ => .ok v
  | .list items | .tuple items => do
    let entries ← items.mapM entryOf
    if entries.any fun e => e.1.kind ∈ ["list", "dict"] then throw (.wrongType "")
    return .map (entries.foldl addEntry [])
  | .text "" => .ok (.map [])
  | .text _ => .error (.badValue "")
  | _ => .error (.wrongType "")

/-- A stopper whose settings are given by name. -/
def create [Loss l] (settings : List (String × Value)) : Except Fault (EarlyStopping l) := do
  Named.only ["save_path", "patience", "min_delta", "save_model", "params"] settings
  let path ← Named.required settings "save_path"
  let givenPatience := Named.get settings "patience" (.int 5)
  let patience ← patienceOf givenPatience
  let least ← leastOf (Named.get settings "min_delta" (.float 0.001))
  match path with
  | .text "" => throw (.request .savePath)
  | .text _ => pure ()
  | _ => throw (.request .savePath)
  let least ← least.toFloat
  let given := Named.get settings "params" .null
  let params ← if given.isNull then pure none else some <$> mappingOf given
  return {
    patience := patience, givenPatience := givenPatience
    leastImprovement := Loss.ofFloat least
    savesModel := (Named.get settings "save_model" (.bool true)).isTrue
    params := params }

end Create

end EarlyStopping
end SteeredConv
