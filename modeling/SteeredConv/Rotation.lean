/-
# Rotated kernels

A square kernel is turned by quarter turns counter-clockwise: after one turn the entry
at row `h` and column `w` is the one that was at row `w` and column `k - 1 - h`. The
four rotations of a kernel form its bank, and `foldBank` turns the parts of a bank
back and adds them up. The number of turns is a whole number of 64 bits.

Key definitions: `quarterSource`, `turnedSource`, `turned`, `bank`, `foldBank`, `TurnCount`.
Key statement: `turnedSource_lt`.
-/
import SteeredConv.Interpolation
import SteeredConv.Value.Number

namespace SteeredConv

/-- Where the entry at a row and column of a kernel of size `k` was before a quarter turn. -/
def quarterSource (k : Nat) (p : Nat × Nat) : Nat × Nat := (p.2, k - 1 - p.1)

/-- Where the entry at a row and column was before `r` quarter turns. -/
def turnedSource (k : Nat) : Nat → Nat × Nat → Nat × Nat
  | 0, p => p
  | r + 1, p => turnedSource k r (quarterSource k p)

/-- The source of an entry lies in the kernel. -/
theorem turnedSource_lt {k : Nat} (r : Nat) {p : Nat × Nat} (h : p.1 < k ∧ p.2 < k) :
    (turnedSource k r p).1 < k ∧ (turnedSource k r p).2 < k := by
  induction r generalizing p with
  | zero => exact h
  | succ r ih =>
    apply ih
    unfold quarterSource
    omega

/-- The quarter turns counter-clockwise that a whole number of quarter turns amounts to. -/
def turnsOf (r : Int) : Nat := (r % rotations).toNat

/-- A number of turns that arrays can be turned by: one of 64 bits. -/
def TurnCount (r : Int) : Prop := -Int.pow 2 63 ≤ r ∧ r < Int.pow 2 63

instance (r : Int) : Decidable (TurnCount r) := by
  unfold TurnCount
  infer_instance

/-- Refuses numbers of turns beyond 64 bits. -/
def requireTurnCount (r : Int) : Except Fault Unit :=
  if TurnCount r then .ok () else .error (.badValue "")

section Turn

variable {α : Type} [Zero α]

/-- Every kernel of an array turned by `r` quarter turns; the last two axes are rows and columns. -/
def turned (r : Nat) (t : Tensor α) : Tensor α :=
  let k := t.shape.getLastD 0
  Tensor.ofFlat t.shape fun i =>
    let (h, w) := turnedSource k r (i / k % k, i % k)
    t.flat ((i / k / k * k + h) * k + w)

/-- Whether the last two extents are equal. -/
def IsSquare (shape : List Nat) : Prop :=
  match shape.reverse with
  | w :: h :: _ => h = w
  | _ => False

instance (shape : List Nat) : Decidable (IsSquare shape) := by
  unfold IsSquare
  split <;> infer_instance

/-- Refuses kernels that are not square. -/
def requireSquare (shape : List Nat) : Except Fault Unit :=
  if IsSquare shape then .ok () else .error (.option (.kernelNotSquare shape))

/-- Square kernels turned by a number of quarter turns. -/
def rotate (t : Tensor α) (r : Int) : Except Fault (Tensor α) := do
  requireSquare t.shape
  requireTurnCount r
  return turned (turnsOf r) t

/-- The four rotations of a kernel, one behind the other. -/
def bank (t : Tensor α) : Tensor α :=
  Tensor.stack t.shape ((List.range rotations).map fun r => turned r t)

/-- The four rotations of square kernels. -/
def bank? (t : Tensor α) : Except Fault (Tensor α) := do
  requireSquare t.shape
  return bank t

/-- The sum of the parts of a bank, each turned back. -/
def foldBank [Add α] (g : Tensor α) : Tensor α :=
  let back (r : Nat) : Tensor α := turned (turnsOf (-r)) (g.slice r)
  let p := back 0
  let q := back 1
  let u := back 2
  let v := back 3
  Tensor.ofFlat g.shape.tail fun i => p.flat i + q.flat i + u.flat i + v.flat i

/-- The folded parts of an array that is a bank. -/
def foldBank? [Add α] (g : Tensor α) : Except Fault (Tensor α) :=
  match g.shape with
  | [] => .error .outOfRange
  | n :: rest =>
    if n ≠ rotations then .error (.option (.bankSize n))
    else do
      requireSquare rest
      return foldBank g

end Turn

namespace AnyTensor

/-- Square kernels turned by a number of quarter turns that is given as a value. -/
def rotate (t : AnyTensor) (turns : Value) : Except Fault AnyTensor := do
  requireSquare t.shape
  let r ← turns.count
  match t with
  | float64 t => return float64 (← SteeredConv.rotate t r)
  | float32 t => return float32 (← SteeredConv.rotate t r)
  | int64 t => return int64 (← SteeredConv.rotate t r)
  | uint8 t => return uint8 (← SteeredConv.rotate t r)

/-- The four rotations of square kernels. -/
def bank? : AnyTensor → Except Fault AnyTensor
  | float64 t => return float64 (← SteeredConv.bank? t)
  | float32 t => return float32 (← SteeredConv.bank? t)
  | int64 t => return int64 (← SteeredConv.bank? t)
  | uint8 t => return uint8 (← SteeredConv.bank? t)

def foldBank? : AnyTensor → Except Fault AnyTensor
  | float64 t => return float64 (← SteeredConv.foldBank? t)
  | float32 t => return float32 (← SteeredConv.foldBank? t)
  | int64 t => return int64 (← SteeredConv.foldBank? t)
  | uint8 t => return uint8 (← SteeredConv.foldBank? t)

end AnyTensor
end SteeredConv
