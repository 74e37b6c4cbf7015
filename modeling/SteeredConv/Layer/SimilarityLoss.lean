/-
# The similarity loss layer

A comparator of two batches of one shape: one minus their mean structural similarity.

Key definitions: `SimilarityLoss`, `SimilarityLoss.build`, `SimilarityLoss.reshape`,
`SimilarityLoss.pass`, `SimilarityLoss.forward`.
-/
import SteeredConv.Options.Similarity
import SteeredConv.Similarity
import SteeredConv.Tensor.Operand

namespace SteeredConv

/-- A comparator of batches. -/
structure SimilarityLoss (ω : Type) where
  options : SimilarityOptions
  globals : GlobalOptions
  geometry : Geometry
  smoother : Smoother ω

namespace SimilarityLoss

/-- A failure is logged under the name of the step. -/
def logged {β : Type} (step : String) (a : Action Fault β) : Action Fault β :=
  Action.reporting Fault.text (Component.similarityLoss.title ++ "." ++ step) a

/-- Builds a comparator. -/
def build {ω : Type} [Scalar ω] (o : SimilarityOptions) (globals : GlobalOptions) :
    Action Fault (SimilarityLoss ω) := logged "setup" do
  let g ← o.resolve
  let gaussian ← o.gaussian
  let smoother ← Smoother.create gaussian globals
  Action.info (s!"Setting up SSIMLoss: window {spellInts (Geometry.ints g.kernel)}, " ++
    s!"stride {spellInts (Geometry.ints g.stride)}, pad {spellInts (Geometry.ints g.pad)}, " ++
    s!"c1 {o.c1.plain}, c2 {o.c2.plain}")
  return ⟨o, globals, g, smoother⟩

variable {α ω : Type} (l : SimilarityLoss ω)

/-- The size of the similarity map of batches of given shapes, if the comparator accepts them. -/
def sizeFor (a b : List Nat) : Except Fault (Nat × Nat) :=
  if a ≠ b then .error (.shape (.unequal Component.similarityLoss.title a b))
  else
    match a with
    | [_, _, h, w] =>
      let size := l.geometry.outputSize h w
      if size.1 ≤ 0 ∨ size.2 ≤ 0 then
        .error (.shape (.lossFit (Geometry.ints l.geometry.kernel) [h, w]))
      else .ok (size.1.toNat, size.2.toNat)
    | _ => .error (.shape (.lossRank a))

/-- Checks the shapes of two batches and logs them. -/
def settle (a b : List Nat) : Action Fault (Nat × Nat) := do
  let size ← liftM (l.sizeFor a b)
  Action.debug (s!"SSIMLoss reshape: input {spellShape a} -> map " ++ spellShape [size.1, size.2])
  return size

/-- Checks two batches. -/
def reshape (a b : Operand) : Action Fault (Nat × Nat) := logged "reshape" do
  let first ← liftM a.shape
  let second ← liftM b.shape
  l.settle first second

/-- The comparison of two batches, with what its gradients need. -/
def pass [Scalar α] [Stored α ω] [Directed α α] (a b : Tensor α) :
    Except Fault (SimilarityPass α ω) := do
  let c1 ← l.options.c1.measureIn α
  let c2 ← l.options.c2.measureIn α
  similarityPass l.smoother c1 c2 a b

/-- Checks and compares. -/
def forward [Scalar α] [Stored α ω] [Directed α α] (a b : Tensor α) :
    Action Fault (SimilarityPass α ω) := do
  let _ ← logged "reshape" (l.settle a.shape b.shape)
  liftM (l.pass a b)

/-- The comparator in one line. -/
def describe : String :=
  s!"window={spellInts (Geometry.ints l.geometry.kernel)}, " ++
    s!"stride={spellInts (Geometry.ints l.geometry.stride)}, " ++
    s!"pad={spellInts (Geometry.ints l.geometry.pad)}"

end SimilarityLoss
end SteeredConv
