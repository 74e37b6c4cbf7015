/-
# Differences of pixels

The mean squared difference of two arrays is that of their pixels, each difference brought into the range of
the bound: it is the same in both orders, for tensors and plain arrays, and for bytes that were converted to
numbers first, and it is zero for equal pixels only. Two arrays of bytes are the exception. Their difference is
taken in bytes, so that a difference below zero wraps around before it is bounded.

Key definitions: `meanOfSquares`, `Pixels`, `Pixels.difference`, `PixelDifferences`, `MeasuredIn`,
`MeasuredAtRunTime`.
Key theorems: `within_mul_self`, `clippedMeanSquare_eq`, `Pixels.meanSquare_eq_true`, `Pixels.meanSquare_bytes`,
`measured_at_run_time`, `differences_of_pixels`, `bytes_wrap_around`.
-/
import SteeredConv.Proofs.Weighting
import SteeredConv.Metric.Difference

namespace SteeredConv

open Finset Tensor

/-! ### Means of squares -/

section Means

variable {limit : ℝ} {d : Tensor ℝ}

/-- The mean of the squares of `size` numbers, none counted as more than the limit. -/
noncomputable def meanOfSquares (limit : ℝ) (size : ℕ) (f : ℕ → ℝ) : ℝ :=
  (∑ i ∈ range size, min (f i) limit ^ 2) / size

theorem meanOfSquares_congr {size : ℕ} {f g : ℕ → ℝ} (h : ∀ i < size, f i = g i) :
    meanOfSquares limit size f = meanOfSquares limit size g := by
  unfold meanOfSquares
  rw [sum_congr rfl fun i hi => by rw [h i (mem_range.mp hi)]]

/-- A mean of squares is zero exactly if all numbers are. -/
theorem meanOfSquares_eq_zero_iff (hlimit : 0 < limit) {size : ℕ} (hsize : 0 < size) {f : ℕ → ℝ} :
    meanOfSquares limit size f = 0 ↔ ∀ i < size, f i = 0 := by
  have hcount : (size : ℝ) ≠ 0 := Nat.cast_ne_zero.mpr hsize.ne'
  have hterm (i : ℕ) : min (f i) limit ^ 2 = 0 ↔ f i = 0 := by
    rw [sq_eq_zero_iff]
    constructor
    · intro h
      rcases min_choice (f i) limit with hmin | hmin <;> rw [hmin] at h
      · exact h
      · exact absurd h hlimit.ne'
    · intro h
      rw [h]
      exact min_eq_left hlimit.le
  unfold meanOfSquares
  rw [div_eq_zero_iff, or_iff_left hcount, sum_eq_zero_iff_of_nonneg fun i _ => sq_nonneg _]
  exact ⟨fun h i hi => (hterm i).mp (h i (mem_range.mpr hi)), fun h i hi => (hterm i).mpr (h i (mem_range.mp hi))⟩

/-- The square of a number brought into a range around zero. -/
theorem within_mul_self (hlimit : 0 < limit) (x : ℝ) : within limit x * within limit x = min |x| limit ^ 2 := by
  have hwithin : within limit x = min limit (max (-limit) x) := by
    unfold within clamp
    rw [if_pos (beq_self_eq_true limit), atMost_eq_min, atLeast_eq_max]
  have habs : |min limit (max (-limit) x)| = min |x| limit := by
    rcases le_total 0 x with hx | hx
    · rw [max_eq_right (by linarith), abs_of_nonneg (le_min hlimit.le hx), abs_of_nonneg hx, min_comm]
    · rw [min_eq_right (max_le (by linarith) (by linarith)), abs_of_nonpos (max_le (by linarith) hx), abs_of_nonpos hx,
        ← min_neg_neg, neg_neg, min_comm]
  rw [hwithin, ← habs, sq_abs, sq]

theorem clippedMeanSquare_eq (hlimit : 0 < limit) (d : Tensor ℝ) :
    clippedMeanSquare limit d = meanOfSquares limit d.size fun i => |d.flat i| := by
  unfold clippedMeanSquare mean meanOfSquares
  rw [sum_eq_sum_flat]
  refine congrArg (· / (d.size : ℝ)) (sum_congr rfl fun i hi => ?_)
  rw [flat_map (by exact mem_range.mp hi)]
  exact within_mul_self hlimit _

theorem clippedMeanSquare_eq_zero_iff (hlimit : 0 < limit) (hd : 0 < d.size) :
    clippedMeanSquare limit d = 0 ↔ ∀ i < d.size, d.flat i = 0 := by
  rw [clippedMeanSquare_eq hlimit, meanOfSquares_eq_zero_iff hlimit hd]
  simp only [abs_eq_zero]

theorem signalToNoise_eq_unbounded_iff {peak m : ℝ} : signalToNoise peak m = .unbounded ↔ m = 0 := by
  unfold signalToNoise
  split_ifs with h
  · exact iff_of_true rfl (beq_iff_eq.mp h)
  · exact iff_of_false nofun fun hm => h (beq_iff_eq.mpr hm)

end Means

/-! ### Pixels -/

/-- Numbers in which bytes can be written. -/
class OfByte (α : Type) where
  ofByte : UInt8 → α

instance ofByteFloat : OfByte Float := ⟨UInt8.toFloat⟩

instance ofByteFloat32 : OfByte Float32 := ⟨UInt8.toFloat32⟩

noncomputable instance ofByteReal : OfByte ℝ := ⟨fun n => n.toNat⟩

/-- The pixels of an array: numbers or bytes. -/
inductive Pixels (α : Type) where
  | numbers (t : Tensor α)
  | bytes (t : Tensor UInt8)

namespace Pixels

section Differences

variable {α : Type} [Scalar α] [OfByte α]

/-- The extents. -/
def shape : Pixels α → List ℕ
  | numbers t => t.shape
  | bytes t => t.shape

/-- The pixels as numbers. -/
def values : Pixels α → Tensor α
  | numbers t => t
  | bytes t => t.map OfByte.ofByte

/-- Two arrays of bytes. -/
def BothBytes : Pixels α → Pixels α → Prop
  | bytes _, bytes _ => True
  | _, _ => False

/-- The difference of two arrays: of bytes it is taken in bytes, else in numbers. -/
def difference : Pixels α → Pixels α → Tensor α
  | bytes s, bytes t => (zipWith (· - ·) s t).map OfByte.ofByte
  | a, b => zipWith (· - ·) a.values b.values

/-- The mean of the squared differences, which are brought into a range before. -/
def meanSquare (limit : α) (a b : Pixels α) : α := clippedMeanSquare limit (a.difference b)

omit [Scalar α] [OfByte α] in
theorem BothBytes.eq {a b : Pixels α} (h : BothBytes a b) : ∃ s t, a = bytes s ∧ b = bytes t := by
  cases a with
  | numbers s => exact h.elim
  | bytes s =>
    cases b with
    | numbers t => exact h.elim
    | bytes t => exact ⟨s, t, rfl, rfl⟩

omit [Scalar α] [OfByte α] in
theorem BothBytes.symm {a b : Pixels α} (h : BothBytes a b) : BothBytes b a := by
  obtain ⟨s, t, rfl, rfl⟩ := h.eq
  exact trivial

omit [Scalar α] in
theorem shape_values (a : Pixels α) : a.values.shape = a.shape := by cases a <;> rfl

theorem difference_of_not_bytes {a b : Pixels α} (h : ¬BothBytes a b) :
    a.difference b = zipWith (· - ·) a.values b.values := by
  cases a with
  | numbers s => rfl
  | bytes s =>
    cases b with
    | numbers t => rfl
    | bytes t => exact absurd trivial h

theorem shape_difference (a b : Pixels α) : (a.difference b).shape = a.shape := by
  cases a <;> cases b <;> rfl

end Differences

/-! ### Differences in exact arithmetic -/

section Exact

variable {limit : ℝ} {a b : Pixels ℝ}

/-- The mean squared difference of the values of all pixels. -/
noncomputable def trueMeanSquare (limit : ℝ) (a b : Pixels ℝ) : ℝ :=
  meanOfSquares limit a.values.size fun i => |a.values.flat i - b.values.flat i|

theorem size_difference (a b : Pixels ℝ) : (a.difference b).size = a.values.size := by
  unfold Tensor.size
  rw [shape_difference, shape_values]

theorem size_values_eq (h : a.shape = b.shape) : a.values.size = b.values.size := by
  unfold Tensor.size
  rw [shape_values, shape_values, h]

/-- Unless both arrays hold bytes, the mean is that of the true differences. -/
theorem meanSquare_eq_true (hlimit : 0 < limit) (h : ¬BothBytes a b) :
    meanSquare limit a b = trueMeanSquare limit a b := by
  unfold meanSquare trueMeanSquare
  rw [clippedMeanSquare_eq hlimit, size_difference]
  refine meanOfSquares_congr fun i hi => ?_
  rw [difference_of_not_bytes h, flat_zipWith hi]

theorem trueMeanSquare_comm (h : a.shape = b.shape) (limit : ℝ) :
    trueMeanSquare limit a b = trueMeanSquare limit b a := by
  unfold trueMeanSquare
  rw [size_values_eq h]
  exact meanOfSquares_congr fun i _ => abs_sub_comm _ _

theorem toNat_sub_byte (m n : UInt8) : ((m - n).toNat : ℤ) = ((m.toNat : ℤ) - n.toNat) % 256 := by
  have hm := m.toNat_lt
  have hn := n.toNat_lt
  rw [UInt8.toNat_sub]
  omega

theorem flat_values_bytes {t : Tensor UInt8} {i : ℕ} (hi : i < t.size) :
    (bytes t : Pixels ℝ).values.flat i = ((t.flat i).toNat : ℝ) := flat_map hi

theorem flat_difference_bytes {s t : Tensor UInt8} {i : ℕ} (hi : i < s.size) :
    ((bytes s).difference (bytes t) : Tensor ℝ).flat i =
      ((((s.flat i).toNat : ℤ) - (t.flat i).toNat) % 256 : ℤ) := by
  have hentry : ((bytes s).difference (bytes t) : Tensor ℝ).flat i = (((s.flat i - t.flat i).toNat : ℕ) : ℝ) := by
    refine (flat_map (by exact hi)).trans ?_
    rw [flat_zipWith hi]
    rfl
  rw [hentry, ← toNat_sub_byte]
  push_cast
  rfl

/-- The mean squared difference of bytes modulo 256. -/
noncomputable def wrappedMeanSquare (limit : ℝ) (s t : Tensor UInt8) : ℝ :=
  meanOfSquares limit s.size fun i => ((((s.flat i).toNat : ℤ) - (t.flat i).toNat) % 256 : ℤ)

theorem meanSquare_bytes (hlimit : 0 < limit) (s t : Tensor UInt8) :
    meanSquare limit (bytes s) (bytes t) = wrappedMeanSquare limit s t := by
  unfold meanSquare wrappedMeanSquare
  rw [clippedMeanSquare_eq hlimit]
  refine meanOfSquares_congr fun i hi => ?_
  rw [flat_difference_bytes (s := s) hi]
  exact abs_of_nonneg (Int.cast_nonneg (Int.emod_nonneg _ (by decide)))

/-- Where no difference is below zero, bytes do not wrap around. -/
theorem meanSquare_eq_true_of_le (hlimit : 0 < limit) (hshape : a.shape = b.shape)
    (h : ∀ i < a.values.size, b.values.flat i ≤ a.values.flat i) :
    meanSquare limit a b = trueMeanSquare limit a b := by
  by_cases hbytes : BothBytes a b
  · obtain ⟨s, t, rfl, rfl⟩ := hbytes.eq
    rw [meanSquare_bytes hlimit]
    unfold wrappedMeanSquare trueMeanSquare
    refine meanOfSquares_congr fun i hi => ?_
    have hi' : i < t.size := lt_of_lt_of_eq hi (size_values_eq hshape)
    have hbyte := (s.flat i).toNat_lt
    have hle := h i hi
    rw [flat_values_bytes hi, flat_values_bytes hi'] at hle ⊢
    have hle' : (t.flat i).toNat ≤ (s.flat i).toNat := by exact_mod_cast hle
    rw [abs_of_nonneg (sub_nonneg.mpr hle), Int.emod_eq_of_lt (by omega) (by omega)]
    push_cast
    rfl
  · exact meanSquare_eq_true hlimit hbytes

theorem flat_difference_eq_zero_iff (hshape : a.shape = b.shape) {i : ℕ} (hi : i < a.values.size) :
    (a.difference b).flat i = 0 ↔ a.values.flat i = b.values.flat i := by
  by_cases hbytes : BothBytes a b
  · obtain ⟨s, t, rfl, rfl⟩ := hbytes.eq
    have hi' : i < t.size := lt_of_lt_of_eq hi (size_values_eq hshape)
    have hs := (s.flat i).toNat_lt
    have ht := (t.flat i).toNat_lt
    rw [flat_difference_bytes hi, flat_values_bytes hi, flat_values_bytes hi', Int.cast_eq_zero, Nat.cast_inj]
    omega
  · rw [difference_of_not_bytes hbytes, flat_zipWith hi, sub_eq_zero]

theorem meanSquare_eq_zero_iff (hlimit : 0 < limit) (hshape : a.shape = b.shape) (hsize : 0 < a.values.size) :
    meanSquare limit a b = 0 ↔ a.values = b.values := by
  unfold meanSquare
  rw [clippedMeanSquare_eq_zero_iff hlimit (by rwa [size_difference]), size_difference]
  constructor
  · intro h
    refine ext_flat ?_ fun i hi => (flat_difference_eq_zero_iff hshape hi).mp (h i hi)
    rw [shape_values, shape_values, hshape]
  · intro h i hi
    rw [flat_difference_eq_zero_iff hshape hi, h]

end Exact
end Pixels

/-- What the mean squared difference of two arrays says about their pixels in exact arithmetic. It is that of the
true differences unless both arrays hold bytes, and then if wrapping around makes no difference. -/
structure PixelDifferences (limit : ℝ) (a b : Pixels ℝ) : Prop where
  exact : ¬a.BothBytes b → a.meanSquare limit b = a.trueMeanSquare limit b
  exact_iff : a.meanSquare limit b = a.trueMeanSquare limit b ↔
    ∀ s t, a = .bytes s → b = .bytes t → Pixels.wrappedMeanSquare limit s t = a.trueMeanSquare limit b
  ordered : (∀ i < a.values.size, b.values.flat i ≤ a.values.flat i) →
    a.meanSquare limit b = a.trueMeanSquare limit b
  symmetric : ¬a.BothBytes b → a.meanSquare limit b = b.meanSquare limit a
  converted : ¬a.BothBytes b → a.meanSquare limit b = (Pixels.numbers a.values).meanSquare limit (.numbers b.values)
  equal : a.meanSquare limit b = 0 ↔ a.values = b.values
  unbounded : ∀ peak, signalToNoise peak (a.meanSquare limit b) = .unbounded ↔ a.values = b.values

section Exact

variable {limit : ℝ} {a b : Pixels ℝ}

theorem Pixels.differences (hlimit : 0 < limit) (hshape : a.shape = b.shape) (hsize : 0 < a.values.size) :
    PixelDifferences limit a b where
  exact h := meanSquare_eq_true hlimit h
  exact_iff := by
    by_cases hbytes : BothBytes a b
    · obtain ⟨s, t, rfl, rfl⟩ := hbytes.eq
      rw [meanSquare_bytes hlimit]
      refine ⟨fun h s' t' hs ht => ?_, fun h => h s t rfl rfl⟩
      rw [← bytes.inj hs, ← bytes.inj ht]
      exact h
    · refine iff_of_true (meanSquare_eq_true hlimit hbytes) fun s t hs ht => absurd ?_ hbytes
      rw [hs, ht]
      exact trivial
  ordered h := meanSquare_eq_true_of_le hlimit hshape h
  symmetric h := by
    rw [meanSquare_eq_true hlimit h, meanSquare_eq_true hlimit fun h' => h h'.symm, trueMeanSquare_comm hshape]
  converted h := (meanSquare_eq_true hlimit h).trans
    (meanSquare_eq_true (a := numbers a.values) (b := numbers b.values) hlimit id).symm
  equal := meanSquare_eq_zero_iff hlimit hshape hsize
  unbounded peak := signalToNoise_eq_unbounded_iff.trans (meanSquare_eq_zero_iff hlimit hshape hsize)

end Exact

/-! ### Arrays whose element type is found at run time -/

namespace AnyTensor

/-- An array of floating-point numbers or bytes. -/
def HasPixels (t : AnyTensor) : Prop := t.elementType ≠ .int64

/-- The pixels of an array in the numbers `α`. -/
def pixels (α : Type) [Element α] : AnyTensor → Pixels α
  | uint8 t => .bytes t
  | t => .numbers (Element.convert t)

/-- The pixels as the real numbers that they stand for. -/
noncomputable def exactPixels : AnyTensor → Pixels ℝ
  | float64 t => .numbers (t.map Scalar.ofFloat)
  | float32 t => .numbers (t.map fun x => Scalar.ofFloat x.toFloat)
  | int64 t => .numbers (t.map fun m => (m.toInt : ℝ))
  | uint8 t => .bytes t

theorem shape_exactPixels (t : AnyTensor) : t.exactPixels.shape = t.shape := by cases t <;> rfl

theorem values_pixels_float (t : AnyTensor) : (t.pixels Float).values = t.toFloat64 := by cases t <;> rfl

theorem values_pixels_float32 (t : AnyTensor) : (t.pixels Float32).values = t.toFloat32 := by cases t <;> rfl

theorem bothBytes_pixels_iff {α : Type} [Element α] {a b : AnyTensor} : (a.pixels α).BothBytes (b.pixels α) ↔
    a.elementType = .uint8 ∧ b.elementType = .uint8 := by
  cases a <;> cases b <;> simp [pixels, Pixels.BothBytes, elementType]

end AnyTensor

def Number.bound : Number → Float
  | real x => x
  | whole n => Float.ofInt n

/-- A bound of differences: a floating-point number, or a whole number that fits into a word. -/
def Number.Fits : Number → Prop
  | real _ => True
  | whole n => 0 < n ∧ n ≤ Int.pow 2 63

/-- The mean squared difference of two arrays is computed in the numbers `α`. -/
def MeasuredIn (α : Type) [Scalar α] [Stored α Float] [OfByte α] [Element α] (a b : AnyArray) (limit : Value)
    (n : Number) : Prop :=
  meanSquare (.array a) (.array b) limit =
    .ok (Stored.widen ((a.data.pixels α).meanSquare (Stored.narrow n.bound) (b.data.pixels α)))

/-- Two arrays of bytes at run time. -/
def AnyArray.BothBytes (a b : AnyArray) : Prop := a.data.elementType = .uint8 ∧ b.data.elementType = .uint8

section RunTime

variable {a b : AnyArray} {limit : Value} {n : Number}

theorem Number.Fits.checkWord {m : ℤ} (h : (Number.whole m).Fits) :
    (Number.whole (-m)).checkWord = .ok () ∧ (Number.whole m).checkWord = .ok () := by
  obtain ⟨hpos, hle⟩ := h
  have hbig : Int.pow 2 63 = 9223372036854775808 := by decide
  have hbig' : Int.pow 2 64 = 18446744073709551616 := by decide
  rw [hbig] at hle
  unfold Number.checkWord
  dsimp only
  rw [hbig, hbig']
  exact ⟨if_pos (by omega), if_pos (by omega)⟩

theorem AnyTensor.meanSquareOfTensor_eq {d : AnyTensor} (hd : d.elementType.isFloating = true) (h : n.Fits) :
    d.meanSquareOfTensor n = d.meanSquareOfPlain n := by
  cases n with
  | real x => cases d <;> first | rfl | cases hd
  | whole m =>
    obtain ⟨hlower, hupper⟩ := h.checkWord
    unfold meanSquareOfTensor
    dsimp only
    rw [hlower, hupper]
    cases d <;> first | rfl | cases hd

theorem plainJoinType_of_pixels {s t : AnyTensor} (hs : s.HasPixels) (ht : t.HasPixels) :
    AnyTensor.plainJoinType s.elementType t.elementType = AnyTensor.joinType s.elementType t.elementType := by
  unfold AnyTensor.HasPixels at hs ht
  cases hsType : s.elementType <;> cases htType : t.elementType <;> first | rfl | contradiction

theorem meanSquare_of_pixels (ha : a.data.HasPixels) (hb : b.data.HasPixels) (hshape : a.data.shape = b.data.shape)
    (hn : limit.number? = some n) : meanSquare (.array a) (.array b) limit =
      let d := AnyTensor.difference (AnyTensor.joinType a.data.elementType b.data.elementType) a.data b.data
      if a.kind = .tensor ∧ b.kind = .tensor then d.meanSquareOfTensor n else d.meanSquareOfPlain n := by
  show (if a.data.shape ≠ b.data.shape then _ else _) = _
  rw [if_neg (not_not.mpr hshape), hn, plainJoinType_of_pixels ha hb]

/-- Arrays that are not both of bytes are subtracted in the numbers in which they meet, whatever kinds of array they
are. -/
theorem measuredIn_of_join {α : Type} [Scalar α] [Stored α Float] [OfByte α] [Element α] (ha : a.data.HasPixels)
    (hb : b.data.HasPixels) (hshape : a.data.shape = b.data.shape) (hn : limit.number? = some n) (hfits : n.Fits)
    (hvalues : ∀ t : AnyTensor, (t.pixels α).values = Element.convert t)
    (hjoin : AnyTensor.difference (AnyTensor.joinType a.data.elementType b.data.elementType) a.data b.data =
      Element.pack (zipWith (· - ·) (Element.convert a.data : Tensor α) (Element.convert b.data)))
    (hbytes : ¬a.BothBytes b)
    (hmean : ∀ t : Tensor α, (Element.pack t).elementType.isFloating = true ∧
      (Element.pack t).meanSquareOfPlain n = .ok (Stored.widen (clippedMeanSquare (Stored.narrow n.bound) t))) :
    MeasuredIn α a b limit n := by
  have hpixels : ¬(a.data.pixels α).BothBytes (b.data.pixels α) := by rwa [AnyTensor.bothBytes_pixels_iff]
  obtain ⟨hfloating, hplain⟩ := hmean (zipWith (· - ·) (Element.convert a.data) (Element.convert b.data))
  unfold MeasuredIn Pixels.meanSquare
  rw [meanSquare_of_pixels ha hb hshape hn, hjoin, Pixels.difference_of_not_bytes hpixels, hvalues, hvalues]
  dsimp only
  rw [AnyTensor.meanSquareOfTensor_eq hfloating hfits, hplain, ite_self]

theorem not_bothBytes_of_join {e : ElementType} (he : e ≠ .uint8)
    (h : AnyTensor.joinType a.data.elementType b.data.elementType = e) : ¬a.BothBytes b := by
  rintro ⟨ha, hb⟩
  rw [ha, hb] at h
  exact he h.symm

theorem measuredIn_float (ha : a.data.HasPixels) (hb : b.data.HasPixels) (hshape : a.data.shape = b.data.shape)
    (hn : limit.number? = some n) (hfits : n.Fits)
    (h : AnyTensor.joinType a.data.elementType b.data.elementType = .float64) : MeasuredIn Float a b limit n :=
  measuredIn_of_join ha hb hshape hn hfits AnyTensor.values_pixels_float (by rw [h]; rfl)
    (not_bothBytes_of_join (by decide) h) fun _ => ⟨rfl, by cases n <;> rfl⟩

theorem measuredIn_float32 (ha : a.data.HasPixels) (hb : b.data.HasPixels) (hshape : a.data.shape = b.data.shape)
    (hn : limit.number? = some n) (hfits : n.Fits)
    (h : AnyTensor.joinType a.data.elementType b.data.elementType = .float32) : MeasuredIn Float32 a b limit n :=
  measuredIn_of_join ha hb hshape hn hfits AnyTensor.values_pixels_float32 (by rw [h]; rfl)
    (not_bothBytes_of_join (by decide) h) fun _ => ⟨rfl, by cases n <;> rfl⟩

theorem measuredIn_tensors_of_bytes {s t : Tensor UInt8} (hshape : s.shape = t.shape) {x : Float}
    (hn : limit.number? = some (.real x)) :
    MeasuredIn Float32 ⟨.tensor, .uint8 s⟩ ⟨.tensor, .uint8 t⟩ limit (.real x) := by
  unfold MeasuredIn
  rw [meanSquare_of_pixels (a := ⟨.tensor, .uint8 s⟩) (b := ⟨.tensor, .uint8 t⟩) nofun nofun hshape hn]
  rfl

theorem measuredIn_arrays_of_bytes {s t : Tensor UInt8} (hshape : s.shape = t.shape) {x : Float}
    (hn : limit.number? = some (.real x)) {k l : ArrayKind} (hkinds : ¬(k = .tensor ∧ l = .tensor)) :
    MeasuredIn Float ⟨k, .uint8 s⟩ ⟨l, .uint8 t⟩ limit (.real x) := by
  unfold MeasuredIn
  rw [meanSquare_of_pixels (a := ⟨k, .uint8 s⟩) (b := ⟨l, .uint8 t⟩) nofun nofun hshape hn]
  dsimp only
  rw [if_neg hkinds]
  rfl

theorem AnyArray.BothBytes.eq (h : a.BothBytes b) : ∃ s t : Tensor UInt8, a.data = .uint8 s ∧ b.data = .uint8 t := by
  obtain ⟨ha, hb⟩ := h
  obtain ⟨k, s⟩ := a
  obtain ⟨l, t⟩ := b
  cases s <;> cases ha
  cases t <;> cases hb
  exact ⟨_, _, rfl, rfl⟩

end RunTime

/-- Pairs of arrays that are compared in double precision. -/
def Doubles (a b : AnyArray) : Prop :=
  a.data.elementType = .float64 ∨ b.data.elementType = .float64 ∨
    a.BothBytes b ∧ ¬(a.kind = .tensor ∧ b.kind = .tensor)

/-- Bounds of the differences of two arrays; those of bytes are bounded by a floating-point number. -/
def Number.Bounds (n : Number) (a b : AnyArray) : Prop := n.Fits ∧ (a.BothBytes b → ∃ x, n = .real x)

/-- How the mean squared difference of two arrays is computed in rounded arithmetic: in double or single precision,
and for all kinds of arrays alike unless both hold bytes. -/
structure MeasuredAtRunTime (a b : AnyArray) (limit : Value) (n : Number) : Prop where
  double : Doubles a b → MeasuredIn Float a b limit n
  single : ¬Doubles a b → MeasuredIn Float32 a b limit n
  kinds : ¬a.BothBytes b → ∀ k l : ArrayKind,
    meanSquare (.array ⟨k, a.data⟩) (.array ⟨l, b.data⟩) limit = meanSquare (.array a) (.array b) limit
  ratio : ∀ (peak : Value) (p : Number) (x : Float), peak.number? = some p → p.toFloat = .ok x →
    peakSignalToNoise (.array a) (.array b) peak limit = signalToNoise x <$> meanSquare (.array a) (.array b) limit

section Measured

variable {a b : AnyArray} {limit : Value} {n : Number}

/-- Arrays with pixels that are not both of bytes meet in double precision, if one of them has it, or in single
precision. -/
theorem join_of_not_bytes (ha : a.data.HasPixels) (hb : b.data.HasPixels) (h : ¬a.BothBytes b) :
    (Doubles a b ∧ AnyTensor.joinType a.data.elementType b.data.elementType = .float64) ∨
      ¬Doubles a b ∧ AnyTensor.joinType a.data.elementType b.data.elementType = .float32 := by
  unfold Doubles AnyArray.BothBytes at *
  unfold AnyTensor.HasPixels at ha hb
  cases hs : a.data.elementType <;> cases ht : b.data.elementType <;>
    simp_all [AnyTensor.joinType]

/-- The ratio of two arrays depends on their mean squared difference alone. -/
theorem peakSignalToNoise_eq (truth estimate : Operand) {peak : Value} (limit : Value) {p : Number} {x : Float}
    (hp : peak.number? = some p) (hx : p.toFloat = .ok x) :
    peakSignalToNoise truth estimate peak limit = signalToNoise x <$> meanSquare truth estimate limit := by
  unfold peakSignalToNoise
  cases meanSquare truth estimate limit with
  | error e => rfl
  | ok m =>
    rw [ok_bind, hp]
    dsimp only
    rw [hx, ok_bind]
    by_cases hzero : (m == 0) = true
    · have hratio : signalToNoise x m = .unbounded := if_pos hzero
      rw [if_pos hzero, ← hratio]
      rfl
    · rw [if_neg hzero]
      rfl

/-- Two arrays of bytes are compared in double precision unless both are tensors. -/
theorem measuredIn_of_bytes (hbytes : a.BothBytes b) (hshape : a.data.shape = b.data.shape) {x : Float}
    (hn : limit.number? = some (.real x)) :
    (Doubles a b → MeasuredIn Float a b limit (.real x)) ∧ (¬Doubles a b → MeasuredIn Float32 a b limit (.real x)) := by
  have hdoubles : Doubles a b ↔ ¬(a.kind = .tensor ∧ b.kind = .tensor) := by
    unfold Doubles
    rw [hbytes.1, hbytes.2]
    simp [hbytes]
  obtain ⟨s, t, hs, ht⟩ := hbytes.eq
  obtain ⟨k, _⟩ := a
  obtain ⟨l, _⟩ := b
  dsimp only at hs ht hdoubles
  subst hs ht
  refine ⟨fun h => measuredIn_arrays_of_bytes hshape hn (hdoubles.mp h), fun h => ?_⟩
  obtain ⟨rfl, rfl⟩ := not_not.mp (mt hdoubles.mpr h)
  exact measuredIn_tensors_of_bytes hshape hn

theorem measuredIn_of_not_bytes (ha : a.data.HasPixels) (hb : b.data.HasPixels) (hbytes : ¬a.BothBytes b)
    (hshape : a.data.shape = b.data.shape) (hn : limit.number? = some n) (hfits : n.Fits) :
    (Doubles a b ∧ ∀ k l, MeasuredIn Float ⟨k, a.data⟩ ⟨l, b.data⟩ limit n) ∨
      ¬Doubles a b ∧ ∀ k l, MeasuredIn Float32 ⟨k, a.data⟩ ⟨l, b.data⟩ limit n :=
  (join_of_not_bytes ha hb hbytes).imp
    (fun h => ⟨h.1, fun k l => measuredIn_float (a := ⟨k, a.data⟩) (b := ⟨l, b.data⟩) ha hb hshape hn hfits h.2⟩)
    fun h => ⟨h.1, fun k l => measuredIn_float32 (a := ⟨k, a.data⟩) (b := ⟨l, b.data⟩) ha hb hshape hn hfits h.2⟩

theorem measured_at_run_time (ha : a.data.HasPixels) (hb : b.data.HasPixels) (hshape : a.data.shape = b.data.shape)
    (hn : limit.number? = some n) (hbounds : n.Bounds a b) : MeasuredAtRunTime a b limit n := by
  have hratio : ∀ (peak : Value) (p : Number) (x : Float), peak.number? = some p → p.toFloat = .ok x →
      peakSignalToNoise (.array a) (.array b) peak limit = signalToNoise x <$> meanSquare (.array a) (.array b) limit :=
    fun _ _ _ hp hx => peakSignalToNoise_eq _ _ limit hp hx
  by_cases hbytes : a.BothBytes b
  · obtain ⟨x, rfl⟩ := hbounds.2 hbytes
    obtain ⟨hdouble, hsingle⟩ := measuredIn_of_bytes hbytes hshape hn
    exact ⟨hdouble, hsingle, fun h => absurd hbytes h, hratio⟩
  · rcases measuredIn_of_not_bytes ha hb hbytes hshape hn hbounds.1 with ⟨hdoubles, h⟩ | ⟨hdoubles, h⟩
    · exact ⟨fun _ => h a.kind b.kind, fun h' => absurd hdoubles h', fun _ k l => (h k l).trans (h a.kind b.kind).symm,
        hratio⟩
    · exact ⟨fun h' => absurd h' hdoubles, fun _ => h a.kind b.kind, fun _ k l => (h k l).trans (h a.kind b.kind).symm,
        hratio⟩

/-- The mean squared difference of two arrays of floating-point numbers or bytes. In exact arithmetic it is that of
the true differences, the same in both orders and after bytes are converted, unless both arrays hold bytes: then the
differences wrap around before they are bounded. The ratio is unbounded for equal pixels only. At run time it is
computed in the arithmetic in which the arrays meet, and the ratio depends on nothing else. -/
theorem differences_of_pixels (ha : a.data.HasPixels) (hb : b.data.HasPixels) (hshape : a.data.shape = b.data.shape)
    (hsize : 0 < volume a.data.shape) (hn : limit.number? = some n) (hpos : 0 < (n.toScalar : ℝ))
    (hbounds : n.Bounds a b) :
    PixelDifferences n.toScalar a.data.exactPixels b.data.exactPixels ∧ MeasuredAtRunTime a b limit n := by
  have hpixels : a.data.exactPixels.shape = b.data.exactPixels.shape := by
    rw [AnyTensor.shape_exactPixels, AnyTensor.shape_exactPixels, hshape]
  refine ⟨Pixels.differences hpos hpixels ?_, measured_at_run_time ha hb hshape hn hbounds⟩
  unfold Tensor.size
  rwa [Pixels.shape_values, AnyTensor.shape_exactPixels]

/-- Numbers against bytes: the difference three is bounded by two and squared, and a tensor is compared with a plain
array in double precision. -/
theorem differences_of_pixels_sample :
    (AnyTensor.float64 (fill [2] 1)).exactPixels.meanSquare (Number.whole 2).toScalar
      (AnyTensor.uint8 (fill [2] 4)).exactPixels = 4 ∧
    MeasuredIn Float ⟨.tensor, .float64 (fill [2] 1)⟩ ⟨.plain, .uint8 (fill [2] 4)⟩ (.int 2) (.whole 2) := by
  have htwo : ((Number.whole 2).toScalar : ℝ) = 2 := two_real
  have hfits : (Number.whole 2).Fits := ⟨by decide, by decide⟩
  have hlimit : (Value.int 2).number? = some (.whole 2) := rfl
  obtain ⟨hexact, hrun⟩ := differences_of_pixels (a := ⟨.tensor, .float64 (fill [2] 1)⟩)
    (b := ⟨.plain, .uint8 (fill [2] 4)⟩) nofun nofun rfl (by decide) hlimit (by rw [htwo]; exact two_pos)
    ⟨hfits, fun hbytes => absurd hbytes.1 nofun⟩
  refine ⟨(hexact.exact id).trans ?_, hrun.double (.inl rfl)⟩
  have hone : (Scalar.ofFloat 1 : ℝ) = 1 := by
    have hbinary : Binary.ofFloat 1 = .finite false 4503599627370496 (-52) := by decide +kernel
    show (Binary.ofFloat 1).toReal = 1
    rw [hbinary]
    unfold Binary.toReal
    norm_num
  have hterm : ∀ i < 2, |(AnyTensor.float64 (fill [2] 1)).exactPixels.values.flat i -
      (AnyTensor.uint8 (fill [2] 4)).exactPixels.values.flat i| = 3 := fun i hi => by
    have hfirst : (AnyTensor.float64 (fill [2] 1)).exactPixels.values.flat i = Scalar.ofFloat 1 :=
      (flat_map (t := fill [2] (1 : Float)) hi).trans (congrArg Scalar.ofFloat (flat_ofFlat hi))
    have hsecond : (AnyTensor.uint8 (fill [2] 4)).exactPixels.values.flat i = ((4 : ℕ) : ℝ) :=
      (Pixels.flat_values_bytes (t := fill [2] (4 : UInt8)) hi).trans
        (congrArg (fun m : UInt8 => ((m.toNat : ℕ) : ℝ)) (flat_ofFlat hi))
    rw [hfirst, hsecond, hone]
    norm_num
  have hmean : meanOfSquares 2 2 (fun _ => 3) = 4 := by
    unfold meanOfSquares
    norm_num
  rw [htwo]
  exact (meanOfSquares_congr hterm).trans hmean

def byteArray (n : UInt8) : Operand := .array ⟨.plain, .uint8 (fill [1] n)⟩

/-- The mean squared difference of the bytes zero and one is 65025 and not one, and one in the other order, as it is
for the byte zero and the number one. -/
theorem bytes_wrap_around :
    (meanSquare (byteArray 0) (byteArray 1) defaultLimit).toOption.any (· == 65025) = true ∧
    (meanSquare (byteArray 1) (byteArray 0) defaultLimit).toOption.any (· == 1) = true ∧
    (meanSquare (byteArray 0) (.array ⟨.plain, .float64 (fill [1] 1)⟩) defaultLimit).toOption.any (· == 1) = true := by
  decide +kernel

end Measured
end SteeredConv
