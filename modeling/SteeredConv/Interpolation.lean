/-
# Weights of the four rotations

An angle lies in one of four sectors of a quarter turn. Its sector blends two
neighbouring rotations, the lower with weight `1 - t` and the upper with weight `t`,
where `t` is the position of the angle inside the sector; the other two have weight
zero.

Key definitions: `sectorOf`, `lowerSlot`, `upperSlot`, `slotWeight`,
`interpolationWeights`, `sectorPairs`.
Key statements: `upperSlot_eq`, `blendWeight_singleton`.
-/
import SteeredConv.Fault
import SteeredConv.Tensor.Any
import SteeredConv.Tensor.Image

namespace SteeredConv

/-- The number of rotations of a kernel. -/
def rotations : Nat := 4

/-- The rotation that a sector begins with. -/
def lowerSlot (sector : Nat) : Nat := (sector + 2) % rotations

/-- The rotation that a sector ends with. -/
def upperSlot (sector : Nat) : Nat := (lowerSlot sector + 1) % rotations

theorem upperSlot_eq (sector : Nat) : upperSlot sector = (sector + 3) % rotations := by
  unfold upperSlot lowerSlot rotations
  omega

/-- The two rotations of each sector. -/
def sectorPairs : List (Nat × Nat) :=
  (List.range rotations).map fun sector => (lowerSlot sector, upperSlot sector)

section Weights

variable {α : Type} [Scalar α]

/-- An angle in quarter turns from a half turn backwards. -/
def quarterTurns (angle : α) : α :=
  let degrees := angle * (((180 : Nat) : α) / Scalar.pi)
  (degrees + ((180 : Nat) : α)) / ((90 : Nat) : α)

/-- The sector of a position; what lies outside belongs to the first or last sector. -/
def sectorOf (position : α) : Nat :=
  if position < 1 then 0
  else if position < two then 1
  else if position < ((3 : Nat) : α) then 2
  else 3

/-- How far a position lies inside its sector, between zero and one. -/
def shareOf (position : α) : α := clamp 0 1 (position - ((sectorOf position : Nat) : α))

/-- The weight of rotation `r` at an angle. -/
def slotWeight (angle : α) (r : Nat) : α :=
  let position := quarterTurns angle
  let sector := sectorOf position
  if upperSlot sector = r then shareOf position
  else if lowerSlot sector = r then 1 - shareOf position
  else 0

/-- The weight of rotation `r` where several angles are given: upper rotations count before lower
ones, and later angles before earlier ones. -/
def blendWeight (angles : List α) (r : Nat) : α :=
  let lower := angles.foldl (fun weight angle =>
    let position := quarterTurns angle
    if lowerSlot (sectorOf position) = r then 1 - shareOf position else weight) 0
  angles.foldl (fun weight angle =>
    let position := quarterTurns angle
    if upperSlot (sectorOf position) = r then shareOf position else weight) lower

/-- A single angle has the weights of its sector. -/
theorem blendWeight_singleton (angle : α) (r : Nat) :
    blendWeight [angle] r = slotWeight angle r := rfl

/-- The weights of the rotations at every angle. -/
def interpolationWeights (angle : Tensor α) : Tensor α :=
  let tail := angle.shape.drop 2
  let inner := volume tail
  let count := angle.extent 1
  Tensor.ofFlat (angle.extent 0 :: rotations :: tail) fun i =>
    let sample := i / inner / rotations
    blendWeight
      ((List.range count).map fun c => angle.flat ((sample * count + c) * inner + i % inner))
      (i / inner % rotations)

/-- The weights, unless some angle is no number or the angles have no axis for the rotations. -/
def interpolationWeights? (angle : Tensor α) : Except Fault (Tensor α) :=
  if angle.rank = 0 ∨ angle.entries.any fun a => !(quarterTurns a == quarterTurns a) then
    .error .outOfRange
  else if angle.rank = 1 then
    if angle.size = 0 then .ok (Tensor.fill [0, rotations] 0) else .error .incompatible
  else .ok (interpolationWeights angle)

end Weights

/-- The weights at angles whose element type is found at run time; whole numbers have none. -/
def interpolationAny : AnyTensor → Except Fault AnyTensor
  | .float64 t => return .float64 (← interpolationWeights? t)
  | .float32 t => return .float32 (← interpolationWeights? t)
  | .int64 t => if t.rank = 0 then .error .outOfRange else .error .incompatible
  | .uint8 t => if t.rank = 0 then .error .outOfRange else .error .incompatible

end SteeredConv
