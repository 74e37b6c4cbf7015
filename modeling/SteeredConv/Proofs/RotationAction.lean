/-
# Quarter turns as an action

The numbers of quarter turns act on the arrays whose last two extents are equal: turns one
after the other add up, four of them change nothing, and every plane keeps its entries in
another order, the same order in all planes. Numbers of turns have 64 bits, so two turns can be made one
after the other although their sum is refused.

Key definitions: `Tensor.Reordered`, `AnyTensor.Related`, `AnyTensor.turnedBy`, `AnyTensor.RotationActs`.
Key theorems: `Tensor.Reordered.sum_eq`, `AnyTensor.rotate_of_planes`, `AnyTensor.rotation_acts`,
`AnyTensor.sum_of_turns_refused`.
-/
import SteeredConv.Proofs.Outcome
import SteeredConv.Proofs.Turning

namespace SteeredConv

open Finset Tensor

/-! ### Reordered planes -/

/-- A quarter turn permutes the cells, and so do several. -/
theorem bijOn_turnedSource (k r : ℕ) : Set.BijOn (turnedSource k r) (cells (k, k)) (cells (k, k)) := by
  -- four times as many turns change nothing
  have hfour : ∀ p ∈ cells (k, k), turnedSource k (4 * r) p = p := fun p hp => by
    rw [← turnedSource_mod _ hp, Nat.mul_mod_right]
    rfl
  have hsplit : 4 * r = 3 * r + r := by ring
  have hsplit' : 4 * r = r + 3 * r := by ring
  have hinverse : Set.InvOn (turnedSource k (3 * r)) (turnedSource k r) (cells (k, k)) (cells (k, k)) := by
    refine ⟨fun p hp => ?_, fun p hp => ?_⟩
    · rw [← turnedSource_add, ← hsplit]
      exact hfour p hp
    · rw [← turnedSource_add, ← hsplit']
      exact hfour p hp
  exact hinverse.bijOn (fun p hp => turnedSource_mem hp) fun p hp => turnedSource_mem hp

section Reordered

variable {α : Type} [Zero α] {t u : Tensor α} {lead : List ℕ} {k : ℕ} {σ : ℕ × ℕ → ℕ × ℕ}

/-- One array holds the entries of another, every plane in the order of one permutation of the cells. -/
structure Tensor.Reordered (lead : List ℕ) (k : ℕ) (σ : ℕ × ℕ → ℕ × ℕ) (t u : Tensor α) : Prop where
  shape : u.shape = t.shape
  permutes : Set.BijOn σ (cells (k, k)) (cells (k, k))
  entry : ∀ b < volume lead, ∀ p ∈ cells (k, k), u.plane k b p = t.plane k b (σ p)

theorem reordered_turned (ht : t.shape = lead ++ [k, k]) (r : ℕ) :
    Reordered lead k (turnedSource k r) t (turned r t) where
  shape := rfl
  permutes := bijOn_turnedSource k r
  entry _ hb _ hp := plane_turned ht r hb hp

variable {M : Type} [AddCommMonoid M]

theorem sum_planes (ht : t.shape = lead ++ [k, k]) (f : α → M) :
    ∑ i ∈ range t.size, f (t.flat i) = ∑ b ∈ range (volume lead), ∑ p ∈ cells (k, k), f (t.plane k b p) := by
  rw [size, ht, volume_planes, sum_rows, sum_rows]
  simp only [cells, sum_product]
  rfl

theorem Tensor.Reordered.sum_plane_eq (h : Reordered lead k σ t u) (f : α → M) {b : ℕ} (hb : b < volume lead) :
    ∑ p ∈ cells (k, k), f (u.plane k b p) = ∑ p ∈ cells (k, k), f (t.plane k b p) :=
  sum_nbij σ h.permutes.mapsTo h.permutes.injOn h.permutes.surjOn fun p hp => congrArg f (h.entry b hb p hp)

theorem Tensor.Reordered.sum_eq (h : Reordered lead k σ t u) (ht : t.shape = lead ++ [k, k]) (f : α → M) :
    ∑ i ∈ range u.size, f (u.flat i) = ∑ i ∈ range t.size, f (t.flat i) := by
  rw [sum_planes ht, sum_planes (h.shape.trans ht)]
  exact sum_congr rfl fun b hb => h.sum_plane_eq f (mem_range.mp hb)

/-- Every sum over a plane, and so every sum over the array, is the same for two arrays. -/
def Tensor.SameSums (lead : List ℕ) (k : ℕ) (t u : Tensor α) : Prop :=
  ∀ (M : Type) [AddCommMonoid M] (f : α → M),
    (∀ b < volume lead, ∑ p ∈ cells (k, k), f (u.plane k b p) = ∑ p ∈ cells (k, k), f (t.plane k b p)) ∧
    ∑ i ∈ range u.size, f (u.flat i) = ∑ i ∈ range t.size, f (t.flat i)

/-- In one array the entry at row `h` and column `w` of a plane is the one that is at row `w` and column
`k - 1 - h` in another. -/
def Tensor.QuarterTurned (lead : List ℕ) (k : ℕ) (t u : Tensor α) : Prop :=
  ∀ b < volume lead, ∀ h < k, ∀ w < k, u.plane k b (h, w) = t.plane k b (w, k - 1 - h)

end Reordered

/-! ### Arrays whose element type is found at run time -/

namespace AnyTensor

variable {t : AnyTensor} {lead : List ℕ} {k : ℕ} {r s : ℤ}

/-- A relation between arrays of some numbers, for two arrays of one element type. -/
def Related (R : {α : Type} → [Zero α] → Tensor α → Tensor α → Prop) : AnyTensor → AnyTensor → Prop
  | float64 t, float64 u => R t u
  | float32 t, float32 u => R t u
  | int64 t, int64 u => R t u
  | uint8 t, uint8 u => R t u
  | _, _ => False

/-- Every kernel turned by a whole number of quarter turns. -/
def turnedBy (r : ℤ) (t : AnyTensor) : AnyTensor := t.mapRing fun u => turned (turnsOf r) u

theorem shape_turnedBy (r : ℤ) (t : AnyTensor) : (t.turnedBy r).shape = t.shape := by cases t <;> rfl

theorem related_turnedBy {R : {α : Type} → [Zero α] → Tensor α → Tensor α → Prop} (t : AnyTensor) (r : ℤ)
    (h : ∀ {α : Type} [Zero α] (u : Tensor α), u.shape = t.shape → R u (turned (turnsOf r) u)) :
    Related R t (t.turnedBy r) := by
  cases t <;> exact h _ rfl

theorem turnedBy_congr (h : r % 4 = s % 4) : t.turnedBy r = t.turnedBy s := by
  have : turnsOf r = turnsOf s := congrArg Int.toNat h
  unfold turnedBy
  rw [this]

theorem turnsOf_add (r s : ℤ) : (turnsOf r + turnsOf s) % 4 = turnsOf (r + s) := by
  unfold turnsOf rotations
  omega

theorem turnedBy_add (ht : t.shape = lead ++ [k, k]) (r s : ℤ) : (t.turnedBy r).turnedBy s = t.turnedBy (r + s) := by
  have hadd {α : Type} [Zero α] (u : Tensor α) (hu : u.shape = lead ++ [k, k]) :
      turned (turnsOf s) (turned (turnsOf r) u) = turned (turnsOf (r + s)) u := by
    rw [turned_turned_of_square hu, ← turned_mod_of_square hu, turnsOf_add]
  cases t with
  | float64 u => exact congrArg float64 (hadd u ht)
  | float32 u => exact congrArg float32 (hadd u ht)
  | int64 u => exact congrArg int64 (hadd u ht)
  | uint8 u => exact congrArg uint8 (hadd u ht)

theorem turnedBy_zero (ht : t.shape = lead ++ [k, k]) : t.turnedBy 0 = t := by
  cases t with
  | float64 u => exact congrArg float64 (turned_zero_of_square (t := u) ht)
  | float32 u => exact congrArg float32 (turned_zero_of_square (t := u) ht)
  | int64 u => exact congrArg int64 (turned_zero_of_square (t := u) ht)
  | uint8 u => exact congrArg uint8 (turned_zero_of_square (t := u) ht)

theorem rotate_of_planes (ht : t.shape = lead ++ [k, k]) (r : ℤ) :
    t.rotate (.int r) = if TurnCount r then .ok (t.turnedBy r) else .error (.badValue "") := by
  have hsquare : requireSquare t.shape = .ok () := if_pos (isSquare_iff.mpr ⟨lead, k, ht⟩)
  have hcount : (Value.int r).count = .ok r := rfl
  have hturned {α : Type} [Zero α] (u : Tensor α) (hu : u.shape = lead ++ [k, k]) (pack : Tensor α → AnyTensor) :
      (SteeredConv.rotate u r >>= fun v => .ok (pack v)) =
        if TurnCount r then .ok (pack (turned (turnsOf r) u)) else .error (.badValue "") := by
    rw [rotate_of_square hu]
    split_ifs <;> rfl
  unfold rotate
  rw [hsquare, ok_bind, hcount, ok_bind]
  cases t with
  | float64 u => exact hturned u ht float64
  | float32 u => exact hturned u ht float32
  | int64 u => exact hturned u ht int64
  | uint8 u => exact hturned u ht uint8

theorem rotate_of_not_square (ht : ¬∃ lead k, t.shape = lead ++ [k, k]) (turns : Value) :
    t.rotate turns = .error (.option (.kernelNotSquare t.shape)) := by
  have hsquare : requireSquare t.shape = .error (.option (.kernelNotSquare t.shape)) :=
    if_neg fun h => ht (isSquare_iff.mp h)
  unfold rotate
  rw [hsquare]
  rfl

/-- Rotation acts on an array of planes of `k` rows and columns. Turns one after the other add up, only
their number modulo four matters and no turn is the identity; the entries of every plane are permuted, the
same way in all planes, and after one turn the entry at row `h` and column `w` is the one that was at row
`w` and column `k - 1 - h`. All this for numbers of turns of 64 bits; others are refused. -/
structure RotationActs (t : AnyTensor) (lead : List ℕ) (k : ℕ) : Prop where
  add : ∀ r s : ℤ, TurnCount r → TurnCount s → TurnCount (r + s) →
    (t.rotate (.int r) >>= fun u => u.rotate (.int s)) = t.rotate (.int (r + s))
  congr : ∀ r s : ℤ, TurnCount r → TurnCount s → r % 4 = s % 4 → t.rotate (.int r) = t.rotate (.int s)
  zero : t.rotate (.int 0) = .ok t
  quarter : ∃ u, t.rotate (.int 1) = .ok u ∧ t.Related (QuarterTurned lead k) u
  permuted : ∀ r : ℤ, TurnCount r → ∃ u σ, t.rotate (.int r) = .ok u ∧ t.Related (Reordered lead k σ) u ∧
    t.Related (SameSums lead k) u
  refused : ∀ r : ℤ, ¬TurnCount r → t.rotate (.int r) = .error (.badValue "")

/-- Rotating is an action of the numbers of turns of 64 bits on the arrays whose last two extents are equal,
and refused for all other arrays. -/
theorem rotation_acts (t : AnyTensor) :
    (∀ lead k, t.shape = lead ++ [k, k] → t.RotationActs lead k) ∧
    ((¬∃ lead k, t.shape = lead ++ [k, k]) → ∀ r : ℤ,
      t.rotate (.int r) = .error (.option (.kernelNotSquare t.shape))) := by
  refine ⟨fun lead k ht => ?_, fun ht r => rotate_of_not_square ht (.int r)⟩
  have hrotate : ∀ r : ℤ, TurnCount r → t.rotate (.int r) = .ok (t.turnedBy r) := fun r hr =>
    (rotate_of_planes ht r).trans (if_pos hr)
  have hzero : TurnCount 0 := by decide
  have hone : TurnCount 1 := by decide
  refine ⟨fun r s hr hs hsum => ?_, fun r s hr hs h => ?_, ?_, ⟨_, hrotate 1 hone, ?_⟩, fun r hr => ?_, fun r hr => ?_⟩
  · rw [hrotate r hr, ok_bind, rotate_of_planes ((shape_turnedBy r t).trans ht), if_pos hs, turnedBy_add ht,
      hrotate (r + s) hsum]
  · rw [hrotate r hr, hrotate s hs, turnedBy_congr h]
  · rw [hrotate 0 hzero, turnedBy_zero ht]
  · exact related_turnedBy t 1 fun u hu b hb h hh w hw =>
      plane_turned (hu.trans ht) 1 hb (mem_cells.mpr ⟨hh, hw⟩)
  · have hreordered {α : Type} [Zero α] (u : Tensor α) (hu : u.shape = t.shape) :
        Reordered lead k (turnedSource k (turnsOf r)) u (turned (turnsOf r) u) :=
      reordered_turned (hu.trans ht) (turnsOf r)
    refine ⟨_, _, hrotate r hr, related_turnedBy t r fun u hu => hreordered u hu, related_turnedBy t r ?_⟩
    exact fun u hu M _ f => ⟨fun b hb => (hreordered u hu).sum_plane_eq f hb, (hreordered u hu).sum_eq (hu.trans ht) f⟩
  · rw [rotate_of_planes ht, if_neg hr]

/-- A kernel of two rows and columns. -/
def smallKernel : AnyTensor := .float64 (ofFlat [2, 2] fun i => Float.ofNat (i + 1))

/-- Turns in both directions, and an array without columns. -/
theorem rotation_acts_sample :
    (smallKernel.rotate (.int (-5)) >>= fun u => u.rotate (.int 1000003)) = smallKernel.rotate (.int 999998) ∧
    (AnyTensor.uint8 (fill [3] 1)).rotate (.int 1) = .error (.option (.kernelNotSquare [3])) := by
  refine ⟨((rotation_acts smallKernel).1 [] 2 rfl).add (-5) 1000003 (by decide) (by decide) (by decide),
    (rotation_acts (.uint8 (fill [3] 1))).2 ?_ 1⟩
  rw [← isSquare_iff]
  decide

/-- Half of the range twice is no turn at all, but as one number of turns it is refused. -/
theorem sum_of_turns_refused :
    (smallKernel.rotate (.int 4611686018427387904) >>= fun u => u.rotate (.int 4611686018427387904)) =
      .ok smallKernel ∧
    smallKernel.rotate (.int (4611686018427387904 + 4611686018427387904)) = .error (.badValue "") := by
  have hshape : smallKernel.shape = [] ++ [2, 2] := rfl
  have hcount : TurnCount 4611686018427387904 := by decide
  have hsum : ¬TurnCount (4611686018427387904 + 4611686018427387904) := by decide
  have hfour : (4611686018427387904 + 4611686018427387904 : ℤ) % 4 = 0 % 4 := by decide
  rw [rotate_of_planes hshape, rotate_of_planes hshape, if_pos hcount, if_neg hsum, ok_bind,
    rotate_of_planes ((shape_turnedBy _ _).trans hshape), if_pos hcount, turnedBy_add hshape, turnedBy_congr hfour,
    turnedBy_zero hshape]
  exact ⟨rfl, rfl⟩

end AnyTensor
end SteeredConv
