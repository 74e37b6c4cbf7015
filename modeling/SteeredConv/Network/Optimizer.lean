/-
# Optimizers

An optimizer moves all parameters of a network at once, by their entries, their gradients
and what it remembers of the steps before. It changes neither their shapes nor anything
else of the network. Plain descent remembers nothing.

Key definitions: `Role`, `Place`, `Network.parameter?`, `Network.withEntries`, `Optimizer`,
`Optimizer.plain`.
-/
import SteeredConv.Network.Basic

namespace SteeredConv

/-- The parameters of a layer. -/
inductive Role where
  | kernel
  | bias
  deriving DecidableEq

/-- Where an entry stands: the position of its layer, its parameter and its flat position. -/
abbrev Place := Nat × Role × Nat

section Entries

variable {α ω : Type}

namespace Parameter

/-- The parameter with other entries. -/
def refill (p : Parameter α) (f : Nat → α) : Parameter α :=
  { p with value := Tensor.ofFlat p.value.shape f }

/-- The entry at a flat position after a move against the gradient, if there is one. -/
def descended [Zero α] [Sub α] [Mul α] (rate : α) (p : Parameter α) (i : Nat) : α :=
  match p.gradient with
  | none => p.value.flat i
  | some g => p.value.flat i - rate * g.flat i

end Parameter

namespace ConvLayer

variable (l : ConvLayer α ω)

def parameter? : Role → Option (Parameter α)
  | .kernel => some l.weight
  | .bias => l.bias

def withEntries (f : Role → Nat → α) : ConvLayer α ω :=
  { l with weight := l.weight.refill (f .kernel), bias := l.bias.map fun b => b.refill (f .bias) }

end ConvLayer

namespace Network

variable (n : Network α ω)

def parameter? (k : Nat) (r : Role) : Option (Parameter α) := n.layers[k]?.bind fun l => l.parameter? r

def withEntries (f : Place → α) : Network α ω :=
  { n with
    first := n.first.withEntries fun r i => f (0, r, i)
    rest := n.rest.mapIdx fun k l => l.withEntries fun r i => f (k + 1, r, i) }

end Network

end Entries

/-- An optimizer of all parameters of a network, which remembers a `σ` from step to step. -/
structure Optimizer (σ α : Type) where
  /-- From what is remembered and from the parameters by position and role, the entries after a step and
  what is remembered from then on, unless the step is refused. -/
  step : σ → (Nat → Role → Option (Parameter α)) → Except Fault ((Place → α) × σ)

/-- Every entry moves against its gradient at a rate. -/
def Optimizer.plain {α ω : Type} [Scalar α] [Stored α ω] (rate : ω) : Optimizer Unit α where
  step _ parameters :=
    .ok (fun e => (parameters e.1 e.2.1).elim 0 fun p => p.descended (Stored.narrow rate) e.2.2, ())

end SteeredConv
