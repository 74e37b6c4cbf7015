/-
# Operands that have to be arrays

An operand that is no array fails when it is asked for what only arrays have.

Key definitions: `Operand.asArray`, `Operand.asTensor`, `Operand.detached`.
-/
import SteeredConv.Fault
import SteeredConv.Tensor.Any

namespace SteeredConv
namespace Operand

/-- The array, of which something is wanted that other values lack. -/
def asArray (x : Operand) (wanted : String) : Except Fault AnyArray :=
  match x with
  | array a => .ok a
  | other v => .error (.lacks v wanted)

/-- The shape of an array. -/
def shape (x : Operand) : Except Fault (List Nat) := do
  return (← x.asArray "shape").data.shape

/-- The number of extents of an array. -/
def rank (x : Operand) : Except Fault Nat := do
  return (← x.asArray "ndim").data.shape.length

/-- A tensor; plain arrays are refused where gradients are computed. -/
def asTensor (x : Operand) : Except Fault AnyTensor :=
  match x with
  | array ⟨.tensor, t⟩ => .ok t
  | array ⟨.plain, _⟩ => .error (.wrongType "")
  | other v => .error (.lacks v "ndim")

/-- A tensor cut off from gradients; plain arrays cannot be cut off. -/
def detached (x : Operand) : Except Fault AnyTensor :=
  match x with
  | array ⟨.plain, _⟩ => .error (.noAttribute "'numpy.ndarray' object has no attribute 'detach'")
  | x => x.asTensor

theorem shape_operand (t : AnyTensor) : t.operand.shape = .ok t.shape := rfl

end Operand
end SteeredConv
