import Mathlib.Data.Int.Order.Basic
import Tiodb.Data

/-!
# Indexes from either end

`NormalizeIndex`, `NormalizeForQueries` and `NormalizeQueryLimits` of
`Container.h`, in 32-bit arithmetic, and what they mean over the integers.
-/

namespace Tiodb

/-- `ASSERT` is compiled out, so the last check of the source is not here. -/
def normalizeIndex (index size : Int32) (checkBounds : Bool) : Except Exc UInt32 :=
  if index = 0 then .ok 0
  else if index < 0 then
    let index := index.abs
    if checkBounds ∧ size < index then .error (invalidArgument "out of bounds")
    else
      let index := size - index
      -- A negative index beyond the first record is pushed to the first one.
      .ok (if index < 0 then 0 else index).toUInt32
  else if checkBounds ∧ size ≤ index then .error (invalidArgument "out of bounds")
  else .ok index.toUInt32

def normalizeForQueries (index size : Int32) : Except Exc Int32 :=
  if size = 0 ∨ (index < 0 ∧ size < index.abs) then .ok 0
  else if size ≤ index then .ok size
  else (normalizeIndex index size true).map UInt32.toInt32

def normalizeQueryLimits (start stop containerSize : Int32) : Except Exc (Int32 × Int32) := do
  let start ← normalizeForQueries start containerSize
  let stop ← if stop = 0 then pure containerSize else normalizeForQueries stop containerSize
  return (if stop < start then stop else start, stop)

/-! ## Over the integers -/

/-- The position that an index names in a Python sequence of `n` items. -/
def pyIndex (k : Int) (n : Nat) : Option Nat :=
  if 0 ≤ k ∧ k < n then some k.toNat
  else if k < 0 ∧ 0 ≤ n + k then some (n + k).toNat
  else none

theorem toInt_bounds (k : Int32) : -2 ^ 31 ≤ k.toInt ∧ k.toInt < 2 ^ 31 :=
  ⟨k.le_toInt, k.toInt_lt⟩

theorem minValue_iff (k : Int32) : k = Int32.minValue ↔ k.toInt = -2 ^ 31 := by
  rw [← Int32.toInt_inj]
  rfl

theorem zero_iff (k : Int32) : k = 0 ↔ k.toInt = 0 := by
  rw [← Int32.toInt_inj]
  rfl

theorem toInt_eq_ofNat (k : Int32) (i : Nat) (h : k.toInt = i) : k = Int32.ofNat i := by
  have hk := toInt_bounds k
  rw [← Int32.toInt_inj, h, Int32.toInt_ofNat_of_lt (by omega)]

/-- `abs` has no room for the absolute value of the least `int`, and gives it back. -/
theorem abs_toInt (k : Int32) (h : k.toInt < 0) :
    k.abs.toInt = if k.toInt = -2 ^ 31 then -2 ^ 31 else -k.toInt := by
  have hmin : k.toBitVec = BitVec.intMin 32 ↔ k.toInt = -2 ^ 31 := by
    rw [← Int32.toInt_toBitVec, ← BitVec.toInt_inj]
    rfl
  have hmsb : k.toBitVec.msb = true := by
    rw [BitVec.msb_eq_toInt, Int32.toInt_toBitVec]
    simpa using h
  rw [← Int32.toInt_toBitVec, Int32.toBitVec_abs, BitVec.toInt_abs_eq_ite, hmsb]
  simp only [hmin, if_true, Int32.toInt_toBitVec]
  rfl

theorem zero_toInt : (0 : Int32).toInt = 0 := rfl

/-- The bounds check misses the least `int`: it names the first record of any container. -/
theorem normalizeIndex_min (n : Nat) (hn : n < 2 ^ 31) :
    normalizeIndex Int32.minValue (Int32.ofNat n) true = .ok 0 := by
  have hsize := Int32.toInt_ofNat_of_lt hn
  have habs : Int32.minValue.abs = Int32.minValue := by decide
  have hmin : Int32.minValue.toInt = -2 ^ 31 := rfl
  have hwrap : ((n : Int) - -2 ^ 31).bmod (2 ^ 32) < 0 := by
    rw [Int.bmod_eq_emod]
    split <;> omega
  unfold normalizeIndex
  simp only [habs, Int32.lt_iff_toInt_lt, Int32.toInt_sub, hsize, hmin, zero_toInt, true_and]
  rw [if_neg (by decide), if_pos (by decide), if_neg (by omega), if_pos hwrap]
  rfl

theorem normalizeIndex_neg (k : Int32) (n : Nat) (hn : n < 2 ^ 31) (hneg : k.toInt < 0)
    (hmin : k.toInt ≠ -2 ^ 31) :
    normalizeIndex k (Int32.ofNat n) true =
      if 0 ≤ n + k.toInt then .ok (Int32.ofNat (n + k.toInt).toNat).toUInt32
      else .error (invalidArgument "out of bounds") := by
  have hk := toInt_bounds k
  have hsize := Int32.toInt_ofNat_of_lt hn
  have habs : k.abs.toInt = -k.toInt := by rw [abs_toInt k hneg, if_neg hmin]
  unfold normalizeIndex
  simp only [zero_iff, Int32.lt_iff_toInt_lt, Int32.toInt_sub, hsize, habs, zero_toInt, true_and]
  rw [if_neg (by omega), if_pos hneg]
  by_cases hin : 0 ≤ (n : Int) + k.toInt
  · have hsub : ((n : Int) - -k.toInt).bmod (2 ^ 32) = n + k.toInt := by
      rw [Int.bmod_eq_of_le] <;> omega
    rw [if_neg (by omega), if_pos hin, hsub, if_neg (by omega)]
    congr 2
    apply toInt_eq_ofNat
    rw [Int32.toInt_sub, hsize, habs, hsub]
    omega
  · rw [if_pos (by omega), if_neg hin]

theorem normalizeIndex_pos (k : Int32) (n : Nat) (hn : n < 2 ^ 31) (hpos : 0 < k.toInt) :
    normalizeIndex k (Int32.ofNat n) true =
      if k.toInt < n then .ok k.toUInt32 else .error (invalidArgument "out of bounds") := by
  have hsize := Int32.toInt_ofNat_of_lt hn
  unfold normalizeIndex
  simp only [zero_iff, Int32.lt_iff_toInt_lt, Int32.le_iff_toInt_le, hsize, zero_toInt, true_and]
  rw [if_neg (by omega), if_neg (by omega)]
  by_cases hin : k.toInt < n
  · rw [if_neg (by omega), if_pos hin]
  · rw [if_pos (by omega), if_neg hin]

/-- Two keys skip the bounds check: 0, and the least `int`. Any other key is a Python index. -/
theorem normalizeIndex_spec (k : Int32) (n : Nat) (hn : n < 2 ^ 31) :
    normalizeIndex k (Int32.ofNat n) true =
      if k = Int32.minValue ∨ k = 0 then .ok 0
      else match pyIndex k.toInt n with
        | some i => .ok (Int32.ofNat i).toUInt32
        | none => .error (invalidArgument "out of bounds") := by
  by_cases hmin : k = Int32.minValue
  · rw [if_pos (Or.inl hmin), hmin, normalizeIndex_min n hn]
  by_cases h0 : k = 0
  · rw [if_pos (Or.inr h0), h0]
    rfl
  rw [if_neg (by simp [hmin, h0])]
  rw [minValue_iff] at hmin
  rw [zero_iff] at h0
  unfold pyIndex
  rcases lt_or_gt_of_ne h0 with hneg | hpos
  · rw [normalizeIndex_neg k n hn hneg hmin, if_neg (by omega : ¬(0 ≤ k.toInt ∧ k.toInt < n))]
    by_cases hin : 0 ≤ (n : Int) + k.toInt
    · rw [if_pos hin, if_pos ⟨hneg, hin⟩]
    · rw [if_neg hin, if_neg (by tauto)]
  · rw [normalizeIndex_pos k n hn hpos]
    by_cases hin : k.toInt < n
    · rw [if_pos hin, if_pos ⟨by omega, hin⟩]
      congr 2
      apply toInt_eq_ofNat
      omega
    · rw [if_neg hin, if_neg (by omega), if_neg (by omega)]

theorem pyIndex_lt {k : Int} {n i : Nat} (h : pyIndex k n = some i) : i < n := by
  unfold pyIndex at h
  split_ifs at h <;> simp only [Option.some.injEq] at h <;> omega

/-! ## The limits of a query -/

theorem normalizeQueryLimits_zero {n : Nat} (hpos : 0 < n) (hn : n < 2 ^ 31) :
    normalizeQueryLimits 0 0 (Int32.ofNat n) = .ok (0, Int32.ofNat n) := by
  have hsize : 0 < (Int32.ofNat n).toInt := by
    rw [Int32.toInt_ofNat_of_lt hn]
    omega
  generalize Int32.ofNat n = size at hsize
  have hne : size ≠ 0 := fun h => by rw [h, zero_toInt] at hsize; omega
  have hle : ¬size ≤ 0 := by rw [Int32.le_iff_toInt_le, zero_toInt]; omega
  have hlt : ¬size < 0 := by rw [Int32.lt_iff_toInt_lt, zero_toInt]; omega
  have h00 : ¬(0 : Int32) < 0 := by decide
  have hstart : normalizeForQueries 0 size = .ok 0 := by
    rw [normalizeForQueries, if_neg (by simp [hne, h00]), if_neg hle, normalizeIndex, if_pos rfl]
    rfl
  rw [normalizeQueryLimits, hstart]
  change Except.ok (if size < 0 then size else 0, size) = _
  rw [if_neg hlt]

end Tiodb
