/-
# Turned kernels

Quarter turns permute the cells of a square kernel, and four of them change nothing. An
array consists of planes, one for each position along its leading axes, and turning it
turns every plane. Turning a kernel therefore has turning back as its adjoint, and folding
a stack of four parts is the sum of the parts turned back, which is the adjoint of taking
the bank of a kernel.

Key definitions: `Tensor.plane`, `turnedBack`.
Key theorems: `turnedSource_add`, `turnedSource_four`, `plane_turned`, `turned_turned_of_square`,
`inner_turned`, `inner_foldBank`, `inner_stack`, `foldBank_bank`, `folding_is_adjoint`.
-/
import SteeredConv.Proofs.Inner
import SteeredConv.Rotation

namespace SteeredConv

open Finset Tensor

/-! ### Quarter turns of positions -/

theorem turnedSource_add (k r s : ℕ) (p : ℕ × ℕ) :
    turnedSource k (r + s) p = turnedSource k r (turnedSource k s p) := by
  induction s generalizing p with
  | zero => rfl
  | succ s ih => exact ih (quarterSource k p)

theorem turnedSource_mem {k r : ℕ} {p : ℕ × ℕ} (hp : p ∈ cells (k, k)) :
    turnedSource k r p ∈ cells (k, k) :=
  mem_cells.mpr (turnedSource_lt r (mem_cells.mp hp))

/-- Four quarter turns change nothing. -/
theorem turnedSource_four {k : ℕ} {p : ℕ × ℕ} (hp : p ∈ cells (k, k)) : turnedSource k 4 p = p := by
  obtain ⟨h1, h2⟩ := mem_cells.mp hp
  simp only [turnedSource, quarterSource]
  dsimp only at h1 h2
  exact Prod.ext (by dsimp only; omega) (by dsimp only; omega)

theorem turnedSource_mod {k : ℕ} (r : ℕ) {p : ℕ × ℕ} (hp : p ∈ cells (k, k)) :
    turnedSource k (r % 4) p = turnedSource k r p := by
  induction r using Nat.strong_induction_on with
  | _ r ih =>
    rcases Nat.lt_or_ge r 4 with h | h
    · rw [Nat.mod_eq_of_lt h]
    · have hback : turnedSource k (r - 4 + 4) p = turnedSource k (r - 4) p := by
        rw [turnedSource_add, turnedSource_four hp]
      rw [Nat.sub_add_cancel h] at hback
      rw [Nat.mod_eq_sub_mod h, ih (r - 4) (by omega), hback]

theorem add_turnsOf_neg {r : ℕ} (hr : r < 4) : r + turnsOf (-(r : ℤ)) = 0 ∨ r + turnsOf (-(r : ℤ)) = 4 := by
  unfold turnsOf rotations
  omega

theorem turnedSource_back {k r : ℕ} (hr : r < 4) {p : ℕ × ℕ} (hp : p ∈ cells (k, k)) :
    turnedSource k r (turnedSource k (turnsOf (-(r : ℤ))) p) = p ∧
      turnedSource k (turnsOf (-(r : ℤ))) (turnedSource k r p) = p := by
  rw [← turnedSource_add, ← turnedSource_add, Nat.add_comm (turnsOf (-(r : ℤ))) r]
  rcases add_turnsOf_neg hr with h | h <;> rw [h]
  · exact ⟨rfl, rfl⟩
  · exact ⟨turnedSource_four hp, turnedSource_four hp⟩

theorem sum_turned {M : Type} [AddCommMonoid M] {k r : ℕ} (hr : r < 4) (f : ℕ × ℕ → ℕ × ℕ → M) :
    ∑ p ∈ cells (k, k), f (turnedSource k r p) p =
      ∑ p ∈ cells (k, k), f p (turnedSource k (turnsOf (-(r : ℤ))) p) := by
  refine sum_nbij' (turnedSource k r) (turnedSource k (turnsOf (-(r : ℤ)))) (fun p hp => turnedSource_mem hp)
    (fun p hp => turnedSource_mem hp) (fun p hp => (turnedSource_back hr hp).2)
    (fun p hp => (turnedSource_back hr hp).1) fun p hp => ?_
  rw [(turnedSource_back hr hp).2]

/-! ### Planes of an array -/

theorem volume_append (s t : List ℕ) : volume (s ++ t) = volume s * volume t := by
  induction s with
  | nil => exact (one_mul _).symm
  | cons n s ih => rw [List.cons_append, volume_cons, volume_cons, ih, mul_assoc]

theorem volume_planes (lead : List ℕ) (k : ℕ) : volume (lead ++ [k, k]) = volume lead * k * k := by
  rw [volume_append, volume_cons, volume_cons, volume_nil, mul_one, mul_assoc]

theorem plane_lt {lead : List ℕ} {k b : ℕ} (hb : b < volume lead) {p : ℕ × ℕ} (hp : p ∈ cells (k, k)) :
    (b * k + p.1) * k + p.2 < volume (lead ++ [k, k]) := by
  obtain ⟨h1, h2⟩ := mem_cells.mp hp
  rw [volume_planes]
  exact block_lt (block_lt hb h1) h2

theorem isSquare_iff {shape : List ℕ} : IsSquare shape ↔ ∃ lead k, shape = lead ++ [k, k] := by
  constructor
  · intro h
    unfold IsSquare at h
    split at h
    · rename_i w k lead hreverse
      refine ⟨lead.reverse, w, ?_⟩
      rw [← List.reverse_reverse shape, hreverse, h]
      simp
    · exact h.elim
  · rintro ⟨lead, k, rfl⟩
    simp [IsSquare]

section Planes

variable {α : Type} [Zero α] {t u : Tensor α} {lead : List ℕ} {k : ℕ}

/-- The entry of one of the planes, of `k` rows and columns, that an array consists of. -/
def Tensor.plane (t : Tensor α) (k b : ℕ) (p : ℕ × ℕ) : α := t.flat ((b * k + p.1) * k + p.2)

theorem ext_plane (ht : t.shape = lead ++ [k, k]) (hu : u.shape = lead ++ [k, k])
    (h : ∀ b < volume lead, ∀ p ∈ cells (k, k), t.plane k b p = u.plane k b p) : t = u := by
  refine ext_flat (ht.trans hu.symm) fun i hi => ?_
  have hi' : i < volume lead * k * k := by rwa [size, ht, volume_planes] at hi
  have hk : 0 < k := Nat.pos_of_mul_pos_left (Nat.zero_lt_of_lt hi')
  have hplane : i / k / k < volume lead := by rwa [Nat.div_lt_iff_lt_mul hk, Nat.div_lt_iff_lt_mul hk]
  have hentry := h (i / k / k) hplane (i / k % k, i % k) (mem_cells.mpr ⟨Nat.mod_lt _ hk, Nat.mod_lt _ hk⟩)
  unfold plane at hentry
  rwa [Nat.div_add_mod', Nat.div_add_mod'] at hentry

/-- Turning an array turns every plane. -/
theorem plane_turned (ht : t.shape = lead ++ [k, k]) (r : ℕ) {b : ℕ} (hb : b < volume lead) {p : ℕ × ℕ}
    (hp : p ∈ cells (k, k)) : (turned r t).plane k b p = t.plane k b (turnedSource k r p) := by
  obtain ⟨h1, h2⟩ := mem_cells.mp hp
  dsimp only at h1 h2
  have hk : t.shape.getLastD 0 = k := by
    rw [ht]
    simp
  have hlt := plane_lt hb hp
  rw [← ht] at hlt
  unfold plane turned
  rw [hk, flat_ofFlat hlt]
  simp only [div_block h2, div_block h1, mod_block h2, mod_block h1]

theorem turned_zero_of_square (ht : t.shape = lead ++ [k, k]) : turned 0 t = t :=
  ext_plane (t := turned 0 t) ht ht fun _ hb _ hp => plane_turned ht 0 hb hp

theorem turned_turned_of_square (ht : t.shape = lead ++ [k, k]) (r s : ℕ) :
    turned r (turned s t) = turned (s + r) t := by
  have hs : (turned s t).shape = lead ++ [k, k] := ht
  refine ext_plane (t := turned r (turned s t)) ht ht fun b hb p hp => ?_
  rw [plane_turned hs r hb hp, plane_turned ht s hb (turnedSource_mem hp), plane_turned ht (s + r) hb hp,
    turnedSource_add]

theorem turned_mod_of_square (ht : t.shape = lead ++ [k, k]) (r : ℕ) : turned (r % 4) t = turned r t := by
  refine ext_plane (t := turned (r % 4) t) ht ht fun b hb p hp => ?_
  rw [plane_turned ht (r % 4) hb hp, plane_turned ht r hb hp, turnedSource_mod r hp]

theorem rotate_of_square (ht : t.shape = lead ++ [k, k]) (r : ℤ) :
    rotate t r = if TurnCount r then .ok (turned (turnsOf r) t) else .error (.badValue "") := by
  have hsquare : requireSquare t.shape = .ok () := if_pos (isSquare_iff.mpr ⟨lead, k, ht⟩)
  unfold rotate requireTurnCount
  rw [hsquare]
  split_ifs <;> rfl

theorem rotate_eq_ok (ht : t.shape = lead ++ [k, k]) {r : ℤ} (hr : TurnCount r) :
    rotate t r = .ok (turned (turnsOf r) t) := (rotate_of_square ht r).trans (if_pos hr)

end Planes

/-! ### Turned kernels -/

section Kernels

variable {α : Type} [Zero α]

/-- A kernel turned by `r` quarter turns clockwise. -/
def turnedBack (r : ℕ) (t : Tensor α) : Tensor α := turned (turnsOf (-(r : ℤ))) t

theorem shape_turned (r : ℕ) (t : Tensor α) : (turned r t).shape = t.shape := rfl

theorem at4_turned {t : Tensor α} {O B k : ℕ} (ht : t.shape = [O, B, k, k]) (r : ℕ) {o c : ℕ}
    (ho : o < O) (hc : c < B) {p : ℕ × ℕ} (hp : p ∈ cells (k, k)) :
    (turned r t).at4 o c p.1 p.2 = t.at4 o c (turnedSource k r p).1 (turnedSource k r p).2 := by
  obtain ⟨h1, h2⟩ := mem_cells.mp hp
  obtain ⟨s1, s2⟩ := turnedSource_lt r (mem_cells.mp hp)
  have hplane : o * B + c < volume [O, B] := by simpa using block_lt ho hc
  rw [at4_eq_flat (t := turned r t) ht ho hc h1 h2, at4_eq_flat ht ho hc s1 s2]
  exact plane_turned (show t.shape = [O, B] ++ [k, k] from ht) r hplane hp

theorem turned_zero {t : Tensor α} {O B k : ℕ} (ht : t.shape = [O, B, k, k]) : turned 0 t = t :=
  turned_zero_of_square (show t.shape = [O, B] ++ [k, k] from ht)

/-- Turns add up. -/
theorem turned_turned {t : Tensor α} {O B k : ℕ} (ht : t.shape = [O, B, k, k]) (r s : ℕ) :
    turned r (turned s t) = turned (s + r) t :=
  turned_turned_of_square (show t.shape = [O, B] ++ [k, k] from ht) r s

theorem turned_mod {t : Tensor α} {O B k : ℕ} (ht : t.shape = [O, B, k, k]) (r : ℕ) :
    turned (r % 4) t = turned r t :=
  turned_mod_of_square (show t.shape = [O, B] ++ [k, k] from ht) r

end Kernels

section Adjoint

variable {R : Type} [CommSemiring R]

/-- Turning back is the adjoint of turning. -/
theorem inner_turned {w g : Tensor R} {O B k r : ℕ} (hr : r < 4) (hw : w.shape = [O, B, k, k])
    (hg : g.shape = [O, B, k, k]) : (turned r w).inner g = w.inner (turnedBack r g) := by
  rw [inner_eq_sum (s := turned r w) hw hg, inner_eq_sum (t := turnedBack r g) hw hg]
  refine sum_congr rfl fun o ho => sum_congr rfl fun c hc => ?_
  rw [mem_range] at ho hc
  have left : ∀ p ∈ cells (k, k), (turned r w).at4 o c p.1 p.2 * g.at4 o c p.1 p.2 =
      w.at4 o c (turnedSource k r p).1 (turnedSource k r p).2 * g.at4 o c p.1 p.2 := fun p hp => by
    rw [at4_turned hw r ho hc hp]
  have right : ∀ p ∈ cells (k, k), w.at4 o c p.1 p.2 * (turnedBack r g).at4 o c p.1 p.2 =
      w.at4 o c p.1 p.2 * g.at4 o c (turnedSource k (turnsOf (-(r : ℤ))) p).1
        (turnedSource k (turnsOf (-(r : ℤ))) p).2 := fun p hp => by
    rw [turnedBack, at4_turned hg _ ho hc hp]
  rw [sum_congr rfl left, sum_congr rfl right]
  exact sum_turned hr fun p q => w.at4 o c p.1 p.2 * g.at4 o c q.1 q.2

theorem foldBank_eq (g : Tensor R) : foldBank g = fourfold fun r => turnedBack r (g.slice r) := by
  refine ext_flat rfl fun i hi => ?_
  rw [flat_fourfold (by exact hi)]
  exact flat_ofFlat hi

/-- Folding is the adjoint of taking the four rotations. -/
theorem inner_foldBank {w g : Tensor R} {O B k : ℕ} (hw : w.shape = [O, B, k, k])
    (hg : g.shape = 4 :: w.shape) :
    w.inner (foldBank g) = ∑ r ∈ range 4, (turned r w).inner (g.slice r) := by
  have hslice : ∀ r, (g.slice r).shape = w.shape := fun r => by
    show g.shape.tail = _
    rw [hg]
    rfl
  have hback : ∀ r < 4, (turnedBack r (g.slice r)).shape = w.shape := fun r _ => hslice r
  have hfour : (fourfold fun r => turnedBack r (g.slice r)).shape = w.shape := hslice 0
  rw [foldBank_eq, inner_comm hfour.symm, inner_fourfold hback]
  refine sum_congr rfl fun r hr => ?_
  rw [mem_range] at hr
  rw [inner_turned hr hw ((hslice r).trans hw), inner_comm (hback r hr)]

theorem flat_stack {shape : List ℕ} (f : ℕ → Tensor R) {r i : ℕ} (hr : r < 4) (hi : i < volume shape) :
    (stack shape [f 0, f 1, f 2, f 3]).flat (r * volume shape + i) = (f r).flat i := by
  have hlt : r * volume shape + i < volume (4 :: shape) := by
    rw [volume_cons]
    exact block_lt hr hi
  unfold stack
  rw [flat_ofFlat (by exact hlt), div_block hi, mod_block hi]
  interval_cases r <;> rfl

theorem slice_stack {shape : List ℕ} {f : ℕ → Tensor R} (hf : ∀ r < 4, (f r).shape = shape) {r : ℕ}
    (hr : r < 4) : (stack shape [f 0, f 1, f 2, f 3]).slice r = f r := by
  refine ext_flat (hf r hr).symm fun i hi => ?_
  have hi' : i < volume shape := hi
  have hslice : ((stack shape [f 0, f 1, f 2, f 3]).slice r).flat i =
      (stack shape [f 0, f 1, f 2, f 3]).flat (r * volume shape + i) := flat_ofFlat hi'
  rw [hslice, flat_stack f hr hi']

/-- An inner product with a stack is one with each of its parts. -/
theorem inner_stack {shape : List ℕ} {f : ℕ → Tensor R} (hf : ∀ r < 4, (f r).shape = shape) {g : Tensor R}
    (hg : g.shape = 4 :: shape) :
    (stack shape [f 0, f 1, f 2, f 3]).inner g = ∑ r ∈ range 4, (f r).inner (g.slice r) := by
  have hsize : (stack shape [f 0, f 1, f 2, f 3]).size = 4 * volume shape := rfl
  have htail : g.shape.tail = shape := by rw [hg, List.tail_cons]
  rw [inner_eq_sum_flat, hsize, sum_rows]
  refine sum_congr rfl fun r hr => ?_
  rw [mem_range] at hr
  rw [inner_eq_sum_flat, size, hf r hr]
  refine sum_congr rfl fun i hi => ?_
  rw [mem_range] at hi
  have hslice : (g.slice r).flat i = g.flat (r * volume shape + i) := by
    unfold Tensor.slice
    rw [htail]
    exact flat_ofFlat hi
  rw [flat_stack f hr hi, hslice]

/-! ### The bank of a kernel and its folding -/

theorem bank_eq (w : Tensor R) : bank w = stack w.shape [turned 0 w, turned 1 w, turned 2 w, turned 3 w] := rfl

theorem bank?_eq_ok {w : Tensor R} {lead : List ℕ} {k : ℕ} (hw : w.shape = lead ++ [k, k]) :
    bank? w = .ok (bank w) := by
  have hsquare : requireSquare w.shape = .ok () := if_pos (isSquare_iff.mpr ⟨lead, k, hw⟩)
  unfold bank?
  rw [hsquare]
  rfl

theorem foldBank?_eq_ok {g : Tensor R} {lead : List ℕ} {k : ℕ} (hg : g.shape = 4 :: (lead ++ [k, k])) :
    foldBank? g = .ok (foldBank g) := by
  have hsquare : requireSquare (lead ++ [k, k]) = .ok () := if_pos (isSquare_iff.mpr ⟨lead, k, rfl⟩)
  unfold foldBank?
  rw [hg]
  dsimp only
  rw [if_neg (by decide), hsquare]
  rfl

theorem turnedBack_turned {w : Tensor R} {O B k r : ℕ} (hr : r < 4) (hw : w.shape = [O, B, k, k]) :
    turnedBack r (turned r w) = w := by
  unfold turnedBack
  rw [turned_turned hw]
  rcases add_turnsOf_neg hr with h | h <;> rw [h]
  · exact turned_zero hw
  · exact (turned_mod hw 4).symm.trans (turned_zero hw)

theorem foldBank_bank {w : Tensor R} {O B k : ℕ} (hw : w.shape = [O, B, k, k]) :
    foldBank (bank w) = w.map (4 * ·) := by
  have hback : ∀ r < 4, turnedBack r ((bank w).slice r) = w := fun r hr => by
    rw [bank_eq, slice_stack (f := fun r => turned r w) (fun r _ => shape_turned r w) hr, turnedBack_turned hr hw]
  rw [foldBank_eq, fourfold_congr hback]
  refine ext_flat rfl fun i hi => ?_
  have hi' : i < w.size := hi
  rw [flat_fourfold hi', flat_map hi']
  ring

/-- Folding is the adjoint of taking the bank of a kernel, and folding the bank of a kernel gives four times the
kernel. Neither refuses arrays of these shapes. -/
theorem folding_is_adjoint {w g : Tensor R} {O B k : ℕ} (hw : w.shape = [O, B, k, k])
    (hg : g.shape = [4, O, B, k, k]) :
    ∃ b d, bank? w = .ok b ∧ foldBank? g = .ok d ∧ b.shape = g.shape ∧ d.shape = w.shape ∧
      b.inner g = w.inner d ∧ foldBank? b = .ok (w.map (4 * ·)) := by
  have hlead : w.shape = [O, B] ++ [k, k] := hw
  have hparts : g.shape = 4 :: ([O, B] ++ [k, k]) := hg
  have hstack : g.shape = 4 :: w.shape := hparts.trans (congrArg (4 :: ·) hlead.symm)
  have hbank : (bank w).shape = 4 :: w.shape := rfl
  have hfold : (foldBank g).shape = w.shape := by
    show g.shape.tail = w.shape
    rw [hstack, List.tail_cons]
  refine ⟨bank w, foldBank g, bank?_eq_ok hlead, foldBank?_eq_ok hparts, hbank.trans hstack.symm, hfold, ?_, ?_⟩
  · rw [inner_foldBank hw hstack, bank_eq]
    exact inner_stack (f := fun r => turned r w) (fun r _ => shape_turned r w) hstack
  · rw [foldBank?_eq_ok (hbank.trans (by rw [hlead])), foldBank_bank hw]

end Adjoint

/-- A kernel with the entries 0 to 3. -/
def countedKernel : Tensor ℤ := ofFlat [1, 1, 2, 2] fun i => i

/-- Four parts of which only the second is not zero. -/
def secondPart : Tensor ℤ := ofFlat [4, 1, 1, 2, 2] fun i => if i / 4 = 1 then i else 0

theorem folding_is_adjoint_sample : ∃ b d, bank? countedKernel = .ok b ∧ foldBank? secondPart = .ok d ∧
    b.inner secondPart = 33 ∧ countedKernel.inner d = 33 ∧ foldBank? b = .ok (countedKernel.map (4 * ·)) := by
  obtain ⟨b, d, hb, hd, -, -, hinner, hfour⟩ := folding_is_adjoint (w := countedKernel) (g := secondPart) rfl rfl
  have hvalue : b.inner secondPart = 33 := by
    obtain rfl := Except.ok.inj hb
    decide +kernel
  exact ⟨b, d, hb, hd, hvalue, hinner.symm.trans hvalue, hfour⟩

end SteeredConv
