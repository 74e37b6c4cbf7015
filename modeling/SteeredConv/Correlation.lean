/-
# Correlation of batches of images

A window moves over an image in steps and over the zeros around it. `correlate` is the
grouped cross-correlation of a batch with a bank of kernels; `correlateInput` and
`correlateKernel` are its adjoints in the batch and in the kernels, each written as
the sum over the windows and taps that meet in one entry.

Key definitions: `Sweep`, `windows`, `correlate`, `correlateInput`, `correlateKernel`,
`Correlates`.
Key statements: `windows_pos_iff`, `lt_windows_iff`.
-/
import SteeredConv.Options.Geometry
import SteeredConv.Tensor.Image

namespace SteeredConv

/-- How a window moves over an image: its steps, and the rows and columns of zeros on each side. -/
structure Sweep where
  stride : Nat × Nat
  pad : Nat × Nat
  deriving DecidableEq

def Geometry.sweep (g : Geometry) : Sweep := ⟨g.stride, g.pad⟩

/-- The number of positions of a window along an axis. -/
def windows (size kernel stride pad : Nat) : Nat :=
  if kernel ≤ size + 2 * pad then (size + 2 * pad - kernel) / stride + 1 else 0

theorem windows_pos_iff {size kernel stride pad : Nat} :
    0 < windows size kernel stride pad ↔ kernel ≤ size + 2 * pad := by
  unfold windows
  split
  · rename_i h
    exact ⟨fun _ => h, fun _ => Nat.succ_pos _⟩
  · rename_i h
    simp [h]

/-- Position `i` is counted exactly if its window ends inside the padded image. -/
theorem lt_windows_iff {size kernel stride pad i : Nat} (hs : 0 < stride) :
    i < windows size kernel stride pad ↔ i * stride + kernel ≤ size + 2 * pad := by
  unfold windows
  split
  · rename_i h
    rw [Nat.lt_succ_iff, Nat.le_div_iff_mul_le hs]
    omega
  · rename_i h
    simp only [Nat.not_lt_zero, false_iff]
    omega

/-- The number of windows along each axis of an image. -/
def Sweep.grid (s : Sweep) (kernel size : Nat × Nat) : Nat × Nat :=
  (windows size.1 kernel.1 s.stride.1 s.pad.1, windows size.2 kernel.2 s.stride.2 s.pad.2)

/-- The window that has tap `a` at row or column `r` of the padded image, if there is one. -/
def windowAt? (stride r a : Nat) : Option Nat :=
  if a ≤ r ∧ (r - a) % stride = 0 then some ((r - a) / stride) else none

section Sums

variable {α : Type} [Zero α] [Add α] [Mul α]

/-- The sum of `f a b` over the taps of a window. -/
def sumTaps (kernel : Nat × Nat) (f : Nat → Nat → α) : α :=
  sumTo kernel.1 fun a => sumTo kernel.2 fun b => f a b

/-- The rows and columns of an image or kernel. -/
def Tensor.area (t : Tensor α) : Nat × Nat := (t.extent 2, t.extent 3)

/-- The grouped cross-correlation of a batch with a bank of kernels. -/
def correlate (s : Sweep) (groups : Nat) (x w : Tensor α) : Tensor α :=
  let kernel := w.area
  let grid := s.grid kernel x.area
  let block := w.extent 1
  let perGroup := w.extent 0 / groups
  Tensor.ofImages (x.extent 0) (w.extent 0) grid.1 grid.2 fun n o i j =>
    sumTo block fun c => sumTaps kernel fun a b =>
      x.padded s.pad n (o / perGroup * block + c) (i * s.stride.1 + a) (j * s.stride.2 + b) *
        w.at4 o c a b

/-- The gradient in a batch of the given shape of a correlation with cotangent `g`. -/
def correlateInput (s : Sweep) (groups : Nat) (shape : List Nat) (w g : Tensor α) : Tensor α :=
  let block := w.extent 1
  let perGroup := w.extent 0 / groups
  Tensor.ofImages (shape.getD 0 0) (shape.getD 1 0) (shape.getD 2 0) (shape.getD 3 0) fun n c h v =>
    sumTo perGroup fun o => sumTaps w.area fun a b =>
      match windowAt? s.stride.1 (h + s.pad.1) a, windowAt? s.stride.2 (v + s.pad.2) b with
      | some i, some j =>
        g.at4 n (c / block * perGroup + o) i j * w.at4 (c / block * perGroup + o) (c % block) a b
      | _, _ => 0

/-- The gradient in a bank of kernels of the given shape of a correlation with cotangent `g`. -/
def correlateKernel (s : Sweep) (groups : Nat) (shape : List Nat) (x g : Tensor α) : Tensor α :=
  let block := shape.getD 1 0
  let perGroup := shape.getD 0 0 / groups
  Tensor.ofImages (shape.getD 0 0) block (shape.getD 2 0) (shape.getD 3 0) fun o c a b =>
    sumTo (x.extent 0) fun n => sumTaps g.area fun i j =>
      x.padded s.pad n (o / perGroup * block + c) (i * s.stride.1 + a) (j * s.stride.2 + b) *
        g.at4 n o i j

end Sums

/-- Shapes of a batch and a bank of kernels that can be correlated. Images without a pixel are
refused unless the batch is empty. -/
def Correlates (s : Sweep) (groups : Nat) (x w : List Nat) : Prop :=
  match x, w with
  | [n, c, h, v], [o, block, a, b] =>
    0 < groups ∧ 0 < s.stride.1 ∧ 0 < s.stride.2 ∧ 0 < a ∧ 0 < b ∧ c = block * groups ∧ 0 < o ∧
      o % groups = 0 ∧ 0 < c ∧ (n = 0 ∨ 0 < h ∧ 0 < v) ∧ a ≤ h + 2 * s.pad.1 ∧ b ≤ v + 2 * s.pad.2
  | _, _ => False

instance (s : Sweep) (groups : Nat) (x w : List Nat) : Decidable (Correlates s groups x w) := by
  unfold Correlates
  split <;> infer_instance

/-- The shape of the correlation of a batch with a bank of kernels. -/
def correlationShape (s : Sweep) (x w : List Nat) : List Nat :=
  let grid := s.grid (w.getD 2 0, w.getD 3 0) (x.getD 2 0, x.getD 3 0)
  [x.getD 0 0, w.getD 0 0, grid.1, grid.2]

section Checked

variable {α : Type} [Zero α] [Add α] [Mul α]

/-- The correlation of arrays whose shapes allow it. -/
def correlate? (s : Sweep) (groups : Nat) (x w : Tensor α) : Except Fault (Tensor α) :=
  if Correlates s groups x.shape w.shape then .ok (correlate s groups x w) else .error .incompatible

/-- The gradient in the batch, for shapes that belong to one correlation. -/
def correlateInput? (s : Sweep) (groups : Nat) (shape : List Nat) (w g : Tensor α) :
    Except Fault (Tensor α) :=
  if Correlates s groups shape w.shape ∧ g.shape = correlationShape s shape w.shape then
    .ok (correlateInput s groups shape w g)
  else .error .incompatible

/-- The gradient in the kernels, for shapes that belong to one correlation. -/
def correlateKernel? (s : Sweep) (groups : Nat) (shape : List Nat) (x g : Tensor α) :
    Except Fault (Tensor α) :=
  if Correlates s groups x.shape shape ∧ g.shape = correlationShape s x.shape shape then
    .ok (correlateKernel s groups shape x g)
  else .error .incompatible

end Checked
end SteeredConv
