/-
# Training

A training step takes the gradients of the loss of one batch and lets an optimizer move
the parameters of the network by them. An evaluation averages losses and signal-to-noise
ratios over batches. Fitting alternates between the two, epoch by epoch, and may stop
early.

Key definitions: `Batch`, `Trained`, `Network.trainStep`, `Scores`, `Network.evaluate`,
`Fitting`, `Fitting.epoch`, `Fitting.run`.
-/
import SteeredConv.Guard
import SteeredConv.Metric.Difference
import SteeredConv.Network.Gradient
import SteeredConv.Network.Optimizer
import SteeredConv.Training.EarlyStopping

namespace SteeredConv

/-- Images and what a network should make of them. -/
structure Batch (α : Type) where
  image : Given α
  target : Given α

/-- The sum of a list, from the left. -/
def total {ω : Type} [Zero ω] [Add ω] (xs : List ω) : ω := xs.foldl (· + ·) 0

/-- The sum of a list over a number. -/
def averageOver {ω : Type} [Scalar ω] (count : Nat) (xs : List ω) : ω :=
  total xs / ((count : Nat) : ω)

/-- A network with what an optimizer remembers of its steps. -/
structure Trained (σ α ω : Type) where
  network : Network α ω
  memory : σ

def Trained.inNetwork {σ α ω β : Type} (u : Update (Network α ω) Fault β) : Update (Trained σ α ω) Fault β :=
  Update.within Trained.network (fun t n => { t with network := n }) u

namespace Network

variable {σ α ω : Type} [Scalar α] [Scalar ω] [Stored α ω] [Directed α α]

/-- The comparison of an output with its target. -/
def compare (loss : SimilarityLoss ω) (output : Tensor α) (target : Given α) :
    Action Fault (SimilarityPass α ω) :=
  match target with
  | .own t => loss.forward output t
  | .other x => do
    let _ ← SimilarityLoss.logged "reshape" do
      let shape ← liftM x.shape
      loss.settle output.shape shape
    let _ ← liftM x.asTensor
    throw .incompatible

/-- How training steps are watched. -/
def stepGuard : Guard where
  label := "train_step"
  raises := true

/-- The loss of a batch, whose gradients are left with the parameters. -/
def lossOn (loss : Option (SimilarityLoss ω)) (b : Batch α) : Update (Network α ω) Fault ω := do
  modify clear
  let trace ← forward b.image
  let n ← get
  let comparison ← Update.act (compare (loss.getD n.loss) trace.output b.target)
  let cotangent ← liftM (comparison.firstGradient 1)
  let gradients ← liftM (trace.gradients (Stored.narrow n.slope) cotangent)
  set (n.accumulate gradients)
  return Stored.widen comparison.loss

/-- The loss of a batch, by whose gradients an optimizer has moved the parameters. -/
def stepOn (o : Optimizer σ α) (loss : Option (SimilarityLoss ω)) (b : Batch α) :
    Update (Trained σ α ω) Fault ω := do
  let value ← Trained.inNetwork (lossOn loss b)
  let t ← get
  let (entries, memory) ← liftM (o.step t.memory t.network.parameter?)
  set (⟨t.network.withEntries entries, memory⟩ : Trained σ α ω)
  return value

/-- A training step on a batch, with the comparator of the network or another one. -/
def trainStep (o : Optimizer σ α) (loss : Option (SimilarityLoss ω)) (b : Batch α) :
    Update (Trained σ α ω) Fault ω :=
  stepGuard.report Fault.text 0 (stepOn o loss b)

/-- A training step on each of several batches; gives their losses. -/
def trainAll (o : Optimizer σ α) : List (Batch α) → Update (Trained σ α ω) Fault (List ω)
  | [] => return []
  | b :: rest => do
    let loss ← trainStep o none b
    let losses ← trainAll o rest
    return loss :: losses

end Network

/-- How good the output of a network is. -/
structure Scores (ω : Type) where
  loss : ω
  /-- The signal-to-noise ratio in decibels. -/
  ratio : ω

/-- The bound of differences in a signal-to-noise ratio. -/
def differenceLimit {ω : Type} [Scalar ω] : ω := ((100000 : Nat) : ω)

namespace Network

variable {α ω : Type} [Scalar α] [Scalar ω] [Stored α ω] [Directed α α]

/-- The signal-to-noise ratio of an output whose peak is one. -/
def ratioOf (target output : Tensor α) : Decibels ω :=
  signalToNoise 1 (Stored.widen (clippedMeanSquare (Stored.narrow differenceLimit)
    (Tensor.zipWith (· - ·) target output)))

/-- The scores of the output for a batch. -/
def score (b : Batch α) : Update (Network α ω) Fault (Scores ω) := do
  let trace ← forward b.image
  let n ← get
  let comparison ← Update.act (compare n.loss trace.output b.target)
  return ⟨Stored.widen comparison.loss, (ratioOf comparison.second comparison.first).toNumber⟩

/-- The scores of each of several batches. -/
def scoreAll : List (Batch α) → Update (Network α ω) Fault (List (Scores ω))
  | [] => return []
  | b :: rest => do
    let s ← score b
    let scores ← scoreAll rest
    return s :: scores

/-- The mean scores over batches, of which there has to be one. -/
def evaluate (batches : List (Batch α)) : Update (Network α ω) Fault (Scores ω) := do
  let scores ← scoreAll batches
  if scores.isEmpty then throw (.request .noValidation)
  return ⟨averageOver scores.length (scores.map Scores.loss),
    averageOver scores.length (scores.map Scores.ratio)⟩

end Network

/-- What an epoch is remembered by. -/
structure EpochRecord (ω : Type) where
  trainingLoss : ω
  validation : Scores ω

/-- A network that is fitted, with a stopper if there is one and the checkpoint saved last. -/
structure Fitting (σ α ω : Type) extends Trained σ α ω where
  stopper : Option (EarlyStopping ω)
  saved : Option (Checkpoint ω (List (String × Tensor α)))

namespace Fitting

variable {σ α ω : Type} [Scalar α] [Scalar ω] [Stored α ω] [Directed α α]

/-- An update of the network and of what the optimizer remembers. -/
def inTraining {β : Type} (u : Update (Trained σ α ω) Fault β) : Update (Fitting σ α ω) Fault β :=
  Update.within Fitting.toTrained (fun f t => { f with toTrained := t }) u

/-- Tells the stopper the loss of an epoch; says whether to stop. -/
def consult (loss : ω) (epoch : Nat) : Update (Fitting σ α ω) Fault Bool := do
  let f ← get
  match f.stopper with
  | none => return false
  | some s =>
    Update.within (fun f => (s, f.saved))
      (fun f (s, saved) => { f with stopper := some s, saved := saved })
      (EarlyStopping.observe (some loss) (some f.network.snapshot) (.int epoch) true)

/-- One epoch of several: training, then evaluation; says whether to stop. -/
def epoch (o : Optimizer σ α) (training validation : List (Batch α)) (epochs index : Nat) :
    Update (Fitting σ α ω) Fault (EpochRecord ω × Bool) := do
  let losses ← inTraining (Network.trainAll o training)
  let trainingLoss := averageOver (max losses.length 1) losses
  let scores ← inTraining (Trained.inNetwork (Network.evaluate validation))
  Update.act (Action.info (s!"Epoch {index + 1}/{epochs} - " ++
    s!"train_loss {Scalar.fixed 4 trainingLoss} - " ++
    s!"val_loss {Scalar.fixed 4 scores.loss} - val_psnr {Scalar.fixed 2 scores.ratio} dB"))
  let stop ← consult scores.loss index
  return (⟨trainingLoss, scores⟩, stop)

/-- The last `remaining` of several epochs, unless the stopper says to stop. -/
def runLast (o : Optimizer σ α) (training validation : List (Batch α)) (epochs : Nat) :
    Nat → Update (Fitting σ α ω) Fault (List (EpochRecord ω))
  | 0 => return []
  | remaining + 1 => do
    let (entry, stop) ← epoch o training validation epochs (epochs - (remaining + 1))
    if stop then return [entry]
    let later ← runLast o training validation epochs remaining
    return entry :: later

/-- Fits the network for a number of epochs, unless the stopper says to stop. -/
def run (o : Optimizer σ α) (training validation : List (Batch α)) (epochs : Nat) :
    Update (Fitting σ α ω) Fault (List (EpochRecord ω)) :=
  runLast o training validation epochs epochs

end Fitting
end SteeredConv
