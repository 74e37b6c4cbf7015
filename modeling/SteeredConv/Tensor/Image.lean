/-
# Batches of images

An array of four extents is a batch: samples, channels, rows, columns. `Tensor.padded`
reads a pixel by its row and column in the image with a border of zeros, so that zero
padding needs no copy of the image. Two batches are combined entry by entry where
their extents agree; one whose extent along an axis is one is used throughout it.

Key definitions: `Tensor.ofImages`, `Tensor.at4`, `Tensor.padded`, `Tensor.combine?`.
Key statements: `at4_ofImages`, `padded_inside`, `padded_zero`, `padded_of_outside`.
-/
import SteeredConv.Tensor.Basic

namespace SteeredConv
namespace Tensor

variable {α : Type}

/-- The batch of the given extents with entry `f n c h w`. -/
def ofImages (n c h w : Nat) (f : Nat → Nat → Nat → Nat → α) : Tensor α :=
  ofFlat [n, c, h, w] fun i => f (i / w / h / c) (i / w / h % c) (i / w % h) (i % w)

/-- The entry of a batch at given coordinates, zero outside its extents. -/
def at4 [Zero α] (t : Tensor α) (n c h w : Nat) : α :=
  if n < t.extent 0 ∧ c < t.extent 1 ∧ h < t.extent 2 ∧ w < t.extent 3 then
    t.flat (((n * t.extent 1 + c) * t.extent 2 + h) * t.extent 3 + w)
  else 0

/-- The entry at a row and column of the image with `pad` rows and columns of zeros around it. -/
def padded [Zero α] (t : Tensor α) (pad : Nat × Nat) (n c h w : Nat) : α :=
  if pad.1 ≤ h ∧ pad.2 ≤ w then t.at4 n c (h - pad.1) (w - pad.2) else 0

theorem shape_ofImages (n c h w : Nat) (f : Nat → Nat → Nat → Nat → α) :
    (ofImages n c h w f).shape = [n, c, h, w] := rfl

theorem at4_ofImages [Zero α] {N C H W : Nat} {f : Nat → Nat → Nat → Nat → α} {n c h w : Nat}
    (hn : n < N) (hc : c < C) (hh : h < H) (hw : w < W) :
    (ofImages N C H W f).at4 n c h w = f n c h w := by
  have hW : 0 < W := by omega
  have hH : 0 < H := by omega
  have hC : 0 < C := by omega
  have h1 : (n * C + c) * H + h < N * C * H := by
    have : n * C + c + 1 ≤ N * C := by
      calc n * C + c + 1 ≤ n * C + C := by omega
        _ = (n + 1) * C := (Nat.succ_mul n C).symm
        _ ≤ N * C := Nat.mul_le_mul_right _ hn
    calc (n * C + c) * H + h < (n * C + c) * H + H := by omega
      _ = (n * C + c + 1) * H := (Nat.succ_mul _ H).symm
      _ ≤ N * C * H := Nat.mul_le_mul_right _ this
  have h2 : ((n * C + c) * H + h) * W + w < N * C * H * W := by
    calc ((n * C + c) * H + h) * W + w < ((n * C + c) * H + h) * W + W := by omega
      _ = ((n * C + c) * H + h + 1) * W := (Nat.succ_mul _ W).symm
      _ ≤ N * C * H * W := Nat.mul_le_mul_right _ h1
  have hlt : ((n * C + c) * H + h) * W + w < volume [N, C, H, W] := by
    simpa [Nat.mul_assoc] using h2
  have row : (((n * C + c) * H + h) * W + w) / W = (n * C + c) * H + h := by
    rw [Nat.mul_comm _ W, Nat.mul_add_div hW, Nat.div_eq_of_lt hw, Nat.add_zero]
  have chan : ((n * C + c) * H + h) / H = n * C + c := by
    rw [Nat.mul_comm _ H, Nat.mul_add_div hH, Nat.div_eq_of_lt hh, Nat.add_zero]
  have samp : (n * C + c) / C = n := by
    rw [Nat.mul_comm _ C, Nat.mul_add_div hC, Nat.div_eq_of_lt hc, Nat.add_zero]
  have hext : (ofImages N C H W f).extent 0 = N ∧ (ofImages N C H W f).extent 1 = C ∧
      (ofImages N C H W f).extent 2 = H ∧ (ofImages N C H W f).extent 3 = W := ⟨rfl, rfl, rfl, rfl⟩
  obtain ⟨e0, e1, e2, e3⟩ := hext
  unfold at4
  rw [e0, e1, e2, e3, if_pos ⟨hn, hc, hh, hw⟩]
  unfold ofImages
  rw [flat_ofFlat hlt, row, chan, samp]
  congr 1
  · rw [Nat.mul_comm, Nat.mul_add_mod, Nat.mod_eq_of_lt hc]
  · rw [Nat.mul_comm, Nat.mul_add_mod, Nat.mod_eq_of_lt hh]
  · rw [Nat.mul_comm, Nat.mul_add_mod, Nat.mod_eq_of_lt hw]

theorem padded_inside [Zero α] (t : Tensor α) (pad : Nat × Nat) (n c h w : Nat) :
    t.padded pad n c (h + pad.1) (w + pad.2) = t.at4 n c h w := by
  simp [padded]

/-- Without a border the padded image is the image. -/
theorem padded_zero [Zero α] (t : Tensor α) (n c h w : Nat) :
    t.padded (0, 0) n c h w = t.at4 n c h w := by
  simp [padded]

/-- The border is zero. -/
theorem padded_of_outside [Zero α] {t : Tensor α} {pad : Nat × Nat} {n c h w : Nat}
    (hout : h < pad.1 ∨ w < pad.2 ∨ t.extent 2 + pad.1 ≤ h ∨ t.extent 3 + pad.2 ≤ w) :
    t.padded pad n c h w = 0 := by
  unfold padded at4
  split
  · rw [if_neg]
    omega
  · rfl

variable {β γ : Type}

/-- The common extent of two axes, if they fit. -/
def commonExtent? (a b : Nat) : Option Nat :=
  if a = b ∨ b = 1 then some a else if a = 1 then some b else none

/-- The position along an axis of the given extent that is used at position `i` of a common axis. -/
def sharedIndex (extent i : Nat) : Nat := if extent = 1 then 0 else i

/-- The entry of a batch used at given coordinates of a batch that it is combined to. -/
def shared [Zero α] (t : Tensor α) (n c h w : Nat) : α :=
  t.at4 (sharedIndex (t.extent 0) n) (sharedIndex (t.extent 1) c) (sharedIndex (t.extent 2) h)
    (sharedIndex (t.extent 3) w)

/-- Combines two batches entry by entry, if their extents fit. -/
def combine? [Zero α] [Zero β] (f : α → β → γ) (s : Tensor α) (t : Tensor β) :
    Option (Tensor γ) := do
  let n ← commonExtent? (s.extent 0) (t.extent 0)
  let c ← commonExtent? (s.extent 1) (t.extent 1)
  let h ← commonExtent? (s.extent 2) (t.extent 2)
  let w ← commonExtent? (s.extent 3) (t.extent 3)
  return ofImages n c h w fun n c h w => f (s.shared n c h w) (t.shared n c h w)

/-- An array of at most four extents as a batch; the missing extents are ones. -/
def toImages? (t : Tensor α) : Option (Tensor α) :=
  if t.rank ≤ 4 then t.reshape? (List.replicate (4 - t.rank) 1 ++ t.shape) else none

/-- One channel of every sample. -/
def channel [Zero α] (t : Tensor α) (c : Nat) : Tensor α :=
  ofImages (t.extent 0) 1 (t.extent 2) (t.extent 3) fun n _ h w => t.at4 n c h w

end Tensor
end SteeredConv
