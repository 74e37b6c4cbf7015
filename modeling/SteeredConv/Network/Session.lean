/-
# Working with one network

A session holds a network and the checkpoint that was saved last. Its requests name
parameters and carry arrays of any content; a target is converted to the numbers of the
network, an image is not.

Key definitions: `NetworkStep`, `NetworkReply`, `NetworkSession`, `NetworkSession.build`,
`NetworkSession.step`.
-/
import SteeredConv.Network.Training

namespace SteeredConv

abbrev OperandBatch := Operand × Operand

/-- A request to a network. -/
inductive NetworkStep where
  | describe
  | assign (name : String) (source : AnyTensor)
  | parameters
  | forward (image : Operand)
  | train (batch : OperandBatch) (loss : Option (List (String × Setting)))
  | evaluate (batches : List OperandBatch)
  | fit (training validation : List OperandBatch) (epochs : Value)
      (stopping : Option (List (String × Value)))

/-- A network in words. -/
structure NetworkDescription where
  layers : List String
  inChannels : Value
  outChannels : Value
  loss : String
  slope : Float

/-- How a network was fitted: what each epoch is remembered by, the stopper that was asked, and the
checkpoint. -/
structure FittingReport where
  history : List (EpochRecord Float)
  stopper : Option (EarlyStopping Float)
  saved : Option (Checkpoint Float (List String))

/-- What a network answers. -/
inductive NetworkReply where
  | done
  | description (d : NetworkDescription)
  | parameters (entries : List (String × AnyTensor))
  | outputs (output sinCos gradientMap : AnyTensor)
  | loss (x : Float)
  | scores (s : Scores Float)
  | fitted (r : FittingReport)

/-- The number of epochs that is meant; nothing stands for ten. -/
def epochsOf (v : Value) : Except Fault Nat :=
  match v with
  | .null => .ok 10
  | .int n => .ok n.toNat
  | .bool b => .ok (if b then 1 else 0)
  | v => .error (.wrongType (quoted v.kind ++ " object cannot be interpreted as an integer"))

/-- A network at work, with the rate of its training steps and the checkpoint saved last. -/
structure WorkingNetwork (α : Type) where
  network : Network α Float
  rate : Float
  saved : Option (Checkpoint Float (List (String × Tensor α)))

namespace WorkingNetwork

variable {α : Type} [Scalar α] [Stored α Float] [Directed α α] [Element α]

def inNetwork {β : Type} (u : Update (Network α Float) Fault β) :
    Update (WorkingNetwork α) Fault β :=
  Update.within WorkingNetwork.network (fun w n => { w with network := n }) u

/-- An update of the network in training; the optimizer of a session remembers nothing. -/
def inTraining {β : Type} (u : Update (Trained Unit α Float) Fault β) : Update (WorkingNetwork α) Fault β :=
  Update.within (fun w => ⟨w.network, ()⟩) (fun w t => { w with network := t.network }) u

/-- A target in the numbers of the network. -/
def targetOf (x : Operand) : Given α :=
  match x with
  | .array ⟨.tensor, t⟩ => .own (Element.convert t)
  | x => .other x

/-- A batch in the numbers of the network. -/
def batchOf (b : OperandBatch) : Batch α := ⟨.ofOperand b.1, targetOf b.2⟩

/-- The network in words. -/
def describe (n : Network α Float) : NetworkDescription where
  layers := n.layers.map ConvLayer.describe
  inChannels := n.inChannels
  outChannels := n.outChannels
  loss := n.loss.describe
  slope := n.slope

/-- Fits the network. -/
def fit (training validation : List OperandBatch) (epochs : Nat)
    (stopper : Option (EarlyStopping Float)) : Update (WorkingNetwork α) Fault FittingReport := do
  let w ← get
  let (history, stopper) ← Update.within
    (fun w => { network := w.network, memory := (), stopper := stopper, saved := w.saved : Fitting Unit α Float })
    (fun w f => { w with network := f.network, saved := f.saved })
    (do
      let history ← Fitting.run (.plain w.rate) (training.map batchOf) (validation.map batchOf) epochs
      return (history, (← get).stopper))
  let w ← get
  let names (c : Checkpoint Float (List (String × Tensor α))) : Checkpoint Float (List String) :=
    ⟨c.epoch, c.loss, c.model.map Prod.fst, c.withOptimizer, c.params⟩
  return ⟨history, stopper, if stopper.isSome then w.saved.map names else none⟩

/-- Answers a request. -/
def step (request : NetworkStep) : Update (WorkingNetwork α) Fault NetworkReply := do
  let w ← get
  match request with
  | .describe => return .description (describe w.network)
  | .assign name source =>
    let network ← liftM (w.network.assign name source)
    set { w with network := network }
    return .done
  | .parameters =>
    return .parameters (w.network.snapshot.map fun (name, t) => (name, Element.pack t))
  | .forward image =>
    let trace ← inNetwork (Network.forward (.ofOperand image))
    return .outputs (Element.pack trace.output) (Element.pack trace.sinCos)
      (Element.pack trace.gradientMap)
  | .train batch settings =>
    let loss ← match settings with
      | none => pure none
      | some settings => do
        let options : SimilarityOptions ← liftM (HasOptions.build settings)
        some <$> Update.act (SimilarityLoss.build options w.network.first.globals)
    return .loss (← inTraining (Network.trainStep (.plain w.rate) loss (batchOf batch)))
  | .evaluate batches => return .scores (← inNetwork (Network.evaluate (batches.map batchOf)))
  | .fit training validation epochs stopping =>
    let stopper ← match stopping with
      | none => pure none
      | some settings => some <$> liftM (EarlyStopping.create settings)
    let epochs ← liftM (epochsOf epochs)
    return .fitted (← fit training validation epochs stopper)

end WorkingNetwork

/-- A network at work in one of the element types. -/
inductive NetworkSession where
  | float64 (w : WorkingNetwork Float)
  | float32 (w : WorkingNetwork Float32)

namespace NetworkSession

/-- Builds a network from a description that is kept under a name. -/
def build [Draws Float Float] [Draws Float32 Float] (source : String) (description : Value)
    (globals : GlobalOptions) (rate : Float) :
    Action Fault NetworkSession :=
  match globals.elementType with
  | .float32 => do return .float32 ⟨← Network.build source description globals, rate, none⟩
  | _ => do return .float64 ⟨← Network.build source description globals, rate, none⟩

/-- Answers a request. -/
def step (s : NetworkSession) (request : NetworkStep) :
    Action Fault (NetworkSession × Except Fault NetworkReply) :=
  match s with
  | float64 w => do
    let (reply, w) ← Update.start (WorkingNetwork.step request) w
    return (float64 w, reply)
  | float32 w => do
    let (reply, w) ← Update.start (WorkingNetwork.step request) w
    return (float32 w, reply)

end NetworkSession
end SteeredConv
