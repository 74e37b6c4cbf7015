/-
# Arrays of different shapes side by side

Two shapes fit if, from the last axis on, the extents are equal or one of them is one
or missing. The result takes the larger extent along each axis, and an entry of an
array whose extent is one is used throughout.

Key definitions: `broadcastShape?`, `Tensor.expand?`.
-/
import SteeredConv.Tensor.Basic

namespace SteeredConv

/-- The common extents of two lists of extents, last axis first. -/
def broadcastReversed? : List Nat → List Nat → Option (List Nat)
  | [], bs => some bs
  | as, [] => some as
  | a :: as, b :: bs =>
    if a = b ∨ b = 1 then (broadcastReversed? as bs).map (a :: ·)
    else if a = 1 then (broadcastReversed? as bs).map (b :: ·)
    else none

/-- The common shape of two shapes, if they fit. -/
def broadcastShape? (a b : List Nat) : Option (List Nat) :=
  (broadcastReversed? a.reverse b.reverse).map List.reverse

/-- The flat position, in an array with extents `dims`, of the entry used at flat position `i`
of a result with extents `out`; both lists of extents begin with the last axis. -/
def sourceIndex : List Nat → List Nat → Nat → Nat
  | o :: out, d :: dims, i => (if d = 1 then 0 else i % o) + d * sourceIndex out dims (i / o)
  | _, _, _ => 0

namespace Tensor

variable {α : Type} [Zero α]

/-- The array spread over a larger shape that it fits. -/
def spread (t : Tensor α) (shape : List Nat) : Tensor α :=
  let out := shape.reverse
  let dims := t.shape.reverse
  ofFlat shape fun i => t.flat (sourceIndex out dims i)

/-- The array spread over a shape, if the common shape is that shape. -/
def expand? (t : Tensor α) (shape : List Nat) : Option (Tensor α) :=
  if broadcastShape? t.shape shape = some shape then some (t.spread shape) else none

end Tensor
end SteeredConv
