/-
# Arrays with a shape

A `Tensor` is a row-major array together with its extents, and it always holds as
many entries as the extents say. `Tensor.ofFlat` builds one from its flat positions
and `Tensor.flat` reads one entry, zero where there is none.

Key definitions: `volume`, `Tensor`, `Tensor.ofFlat`, `Tensor.flat`, `Tensor.map`,
`Tensor.zipWith`, `Tensor.stack`, `Tensor.slice`.
Key statements: `flat_ofFlat`, `flat_map`, `flat_zipWith`.
-/
import SteeredConv.Scalar

namespace SteeredConv

/-- The number of positions in an array of the given extents. -/
def volume (shape : List Nat) : Nat := shape.foldr (· * ·) 1

@[simp] theorem volume_nil : volume [] = 1 := rfl

@[simp] theorem volume_cons (n : Nat) (rest : List Nat) : volume (n :: rest) = n * volume rest := rfl

/-- A row-major array of the given extents. -/
structure Tensor (α : Type) where
  shape : List Nat
  entries : Array α
  size_entries : entries.size = volume shape

namespace Tensor

variable {α β γ : Type}

/-- The number of entries. -/
def size (t : Tensor α) : Nat := volume t.shape

/-- The number of extents. -/
def rank (t : Tensor α) : Nat := t.shape.length

/-- The extent along an axis, zero beyond the last. -/
def extent (t : Tensor α) (axis : Nat) : Nat := t.shape.getD axis 0

/-- The array whose entry at flat position `i` is `f i`. -/
def ofFlat (shape : List Nat) (f : Nat → α) : Tensor α :=
  ⟨shape, Array.ofFn fun i : Fin (volume shape) => f i, Array.size_ofFn⟩

/-- The array with one entry throughout. -/
def fill (shape : List Nat) (x : α) : Tensor α := ofFlat shape fun _ => x

/-- The array with one entry and no extents. -/
def scalar (x : α) : Tensor α := fill [] x

/-- The entry at a flat position, zero where there is none. -/
def flat [Zero α] (t : Tensor α) (i : Nat) : α := t.entries.getD i 0

theorem flat_ofFlat [Zero α] {shape : List Nat} {f : Nat → α} {i : Nat} (h : i < volume shape) :
    (ofFlat shape f).flat i = f i := by
  simp [flat, ofFlat, Array.getD, h]

/-- Arrays of one shape with the same entries are equal. -/
theorem ext_flat [Zero α] {s t : Tensor α} (hs : s.shape = t.shape)
    (h : ∀ i < s.size, s.flat i = t.flat i) : s = t := by
  obtain ⟨shape, xs, hx⟩ := s
  obtain ⟨_, ys, hy⟩ := t
  dsimp only at hs
  subst hs
  have : xs = ys := by
    apply Array.ext (hx.trans hy.symm)
    intro i hi hi'
    have := h i (by simpa [size, ← hx] using hi)
    simpa [flat, Array.getD, hi, hi'] using this
  subst this
  rfl

/-- Applies a function to every entry. -/
def map (f : α → β) (t : Tensor α) : Tensor β :=
  ⟨t.shape, t.entries.map f, by simp [t.size_entries]⟩

theorem flat_map [Zero α] [Zero β] {f : α → β} {t : Tensor α} {i : Nat} (h : i < t.size) :
    (t.map f).flat i = f (t.flat i) := by
  have : i < t.entries.size := by rw [t.size_entries]; exact h
  simp [flat, map, Array.getD, this]

/-- The same entries under other extents, if they are as many. -/
def reshape? (t : Tensor α) (shape : List Nat) : Option (Tensor α) :=
  if h : volume shape = volume t.shape then some ⟨shape, t.entries, by rw [h]; exact t.size_entries⟩
  else none

/-- Combines two arrays of one shape entry by entry. -/
def zipWith [Zero α] [Zero β] (f : α → β → γ) (s : Tensor α) (t : Tensor β) : Tensor γ :=
  ofFlat s.shape fun i => f (s.flat i) (t.flat i)

theorem flat_zipWith [Zero α] [Zero β] [Zero γ] {f : α → β → γ} {s : Tensor α} {t : Tensor β}
    {i : Nat} (h : i < s.size) : (zipWith f s t).flat i = f (s.flat i) (t.flat i) := flat_ofFlat h

/-- The sum of all entries. -/
def sum [Zero α] [Add α] (t : Tensor α) : α := sumTo t.size t.flat

/-- The mean of all entries. -/
def mean [Zero α] [Add α] [Div α] [NatCast α] (t : Tensor α) : α := t.sum / ((t.size : Nat) : α)

/-- The sum of the products of corresponding entries. -/
def inner [Zero α] [Add α] [Mul α] (s t : Tensor α) : α := sumTo s.size fun i => s.flat i * t.flat i

/-- Arrays of one shape one behind the other along a new first axis. -/
def stack [Zero α] (shape : List Nat) (ts : List (Tensor α)) : Tensor α :=
  let parts := ts.toArray
  ofFlat (ts.length :: shape) fun i =>
    match parts[i / volume shape]? with
    | some t => t.flat (i % volume shape)
    | none => 0

/-- The part of an array at one position of its first axis. -/
def slice [Zero α] (t : Tensor α) (r : Nat) : Tensor α :=
  ofFlat t.shape.tail fun i => t.flat (r * volume t.shape.tail + i)

end Tensor
end SteeredConv
