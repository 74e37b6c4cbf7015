/-
# Parameters

A parameter is an array that is learned, with the gradient that has been accumulated
for it, if any.

Key definitions: `Parameter`, `Parameter.assign?`, `Parameter.accumulate`,
`Parameter.clear`.
Key statements: `shape_assign?`.
-/
import SteeredConv.Tensor.Any

namespace SteeredConv

/-- An array that is learned. -/
structure Parameter (α : Type) where
  value : Tensor α
  gradient : Option (Tensor α)

namespace Parameter

variable {α : Type}

/-- A parameter without a gradient. -/
def fresh (value : Tensor α) : Parameter α := ⟨value, none⟩

/-- The parameter with the entries of an array that is spread over its shape, if it fits. -/
def assign? [Zero α] (p : Parameter α) (source : Tensor α) : Option (Parameter α) :=
  (source.expand? p.value.shape).map fun value => { p with value := value }

/-- Assigning keeps the shape. -/
theorem shape_assign? [Zero α] {p q : Parameter α} {source : Tensor α}
    (h : p.assign? source = some q) : q.value.shape = p.value.shape := by
  unfold assign? Tensor.expand? at h
  split at h
  · simp only [Option.map_some, Option.some.injEq] at h
    rw [← h]
    rfl
  · simp at h

/-- Adds to the gradient. -/
def accumulate [Zero α] [Add α] (p : Parameter α) (g : Tensor α) : Parameter α :=
  { p with gradient := some (match p.gradient with
      | none => g
      | some old => Tensor.zipWith (· + ·) old g) }

/-- Forgets the gradient. -/
def clear (p : Parameter α) : Parameter α := { p with gradient := none }

end Parameter
end SteeredConv
