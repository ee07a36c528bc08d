import Mathlib.Algebra.Group.Int.Defs
import Mathlib.Algebra.Group.Nat.Defs
import Mathlib.Data.List.TakeWhile
import Mathlib.Tactic.Common

/-!
# Numbers as text

Decimal text of numbers, and `std::stoi`, which reads a number at the start of a
text: it skips white space, takes a sign and as many digits as there are, and does
not look at the rest.
-/

namespace Tiodb.Lib

def digits (n : Nat) : List UInt8 := (Nat.toDigits 10 n).map fun c => UInt8.ofNat c.toNat

def intDigits (i : Int) : List UInt8 := if i < 0 then 45 :: digits i.natAbs else digits i.natAbs

def isDigit (c : UInt8) : Bool := 48 ≤ c && c ≤ 57

def isSpace (c : UInt8) : Bool := c = 32 || 9 ≤ c && c ≤ 13

def digitsValue (l : List UInt8) : Nat := l.foldl (fun n c => 10 * n + (c.toNat - 48)) 0

/-- Whether there was a minus, and what is left. -/
def takeSign : List UInt8 → Bool × List UInt8
  | 45 :: b => (true, b)
  | 43 :: b => (false, b)
  | b => (false, b)

/-- `atoi`, which is `strtol` cut to an `int`; its `long` is 64 bits and stops at its ends. -/
def atoi (b : List UInt8) : Int32 :=
  let (negative, b) := takeSign (b.dropWhile isSpace)
  let v := digitsValue (b.takeWhile isDigit)
  Int32.ofInt (if negative then max (-2 ^ 63) (-v) else min (2 ^ 63 - 1) v)

/-- `none` stands for `invalid_argument` and for `out_of_range`. -/
def stoi (b : List UInt8) : Option Int32 :=
  let (negative, b) := takeSign (b.dropWhile isSpace)
  let ds := b.takeWhile isDigit
  if ds = [] then none
  else
    let v : Int := if negative then -digitsValue ds else digitsValue ds
    if -2 ^ 31 ≤ v ∧ v < 2 ^ 31 then some (Int32.ofInt v) else none

theorem toNat_of_isDigit {c : Char} (h : c.isDigit) :
    (UInt8.ofNat c.toNat).toNat = c.toNat ∧ 48 ≤ c.toNat ∧ c.toNat ≤ 57 := by
  obtain ⟨hlow, hhigh⟩ : 48 ≤ c.toNat ∧ c.toNat ≤ 57 := Char.isDigit_iff_toNat.mp h
  simp only [UInt8.toNat_ofNat']
  omega

theorem isDigit_of_mem_digits {n : Nat} {c : UInt8} (h : c ∈ digits n) : isDigit c := by
  obtain ⟨d, hd, rfl⟩ := List.mem_map.mp h
  obtain ⟨hc, hlow, hhigh⟩ := toNat_of_isDigit (Nat.isDigit_of_mem_toDigits (by omega) (by omega) hd)
  simp [isDigit, UInt8.le_iff_toNat_le]
  omega

theorem digits_ne_nil (n : Nat) : digits n ≠ [] := by
  simp [digits, Nat.toDigits_ne_nil]

theorem length_digits_le {n k : Nat} (hk : 0 < k) (h : n < 10 ^ k) : (digits n).length ≤ k := by
  rw [digits, List.length_map]
  exact (Nat.length_toDigits_le_iff (by omega) hk).mpr h

theorem length_intDigits_le (i : Int32) : (intDigits i.toInt).length ≤ 11 := by
  have hle := i.le_toInt
  have hlt := i.toInt_lt
  have hdigits : (digits i.toInt.natAbs).length ≤ 10 := length_digits_le (by omega) (by omega)
  unfold intDigits
  split_ifs
  · exact Nat.succ_le_succ hdigits
  · omega

theorem digitsValue_digits (n : Nat) : digitsValue (digits n) = n := by
  have hfold : ∀ (l : List Char) (k : Nat), (∀ c ∈ l, c.isDigit) →
      (l.map fun c => UInt8.ofNat c.toNat).foldl (fun n c => 10 * n + (c.toNat - 48)) k = Nat.ofDigitChars 10 l k := by
    intro l
    induction l with
    | nil => simp
    | cons c l ih =>
      intro k hl
      obtain ⟨hc, -, -⟩ := toNat_of_isDigit (hl c (by simp))
      rw [List.map_cons, List.foldl_cons, ih _ fun d hd => hl d (by simp [hd]), Nat.ofDigitChars_cons, hc]
      rfl
  unfold digitsValue digits
  rw [hfold _ _ fun c hc => Nat.isDigit_of_mem_toDigits (by omega) (by omega) hc, Nat.ofDigitChars_ten_toDigits]

theorem not_mem_digits {n : Nat} {c : UInt8} (hc : isDigit c = false) : c ∉ digits n := by
  intro h
  simp [isDigit_of_mem_digits h] at hc

theorem not_mem_intDigits {i : Int} {c : UInt8} (hc : isDigit c = false) (hm : c ≠ 45) : c ∉ intDigits i := by
  unfold intDigits
  split_ifs <;> simp [hm, not_mem_digits hc]

theorem plain_of_mem_digits {n : Nat} {c : UInt8} (h : c ∈ digits n) : 32 < c ∧ c < 127 := by
  have hdigit := isDigit_of_mem_digits h
  simp only [isDigit, Bool.and_eq_true, decide_eq_true_eq, UInt8.le_iff_toNat_le, UInt8.lt_iff_toNat_lt] at hdigit ⊢
  simp at hdigit ⊢
  omega

theorem plain_of_mem_intDigits {i : Int} {c : UInt8} (h : c ∈ intDigits i) : 32 < c ∧ c < 127 := by
  unfold intDigits at h
  split_ifs at h
  · obtain rfl | h := List.mem_cons.mp h
    · decide
    · exact plain_of_mem_digits h
  · exact plain_of_mem_digits h

theorem takeWhile_digits (n : Nat) : (digits n).takeWhile isDigit = digits n := by
  rw [List.takeWhile_eq_self_iff]
  exact fun c hc => isDigit_of_mem_digits hc

theorem dropWhile_isSpace {c : UInt8} {l : List UInt8} (h : isDigit c ∨ c = 45) :
    (c :: l).dropWhile isSpace = c :: l := by
  refine List.dropWhile_cons_of_neg ?_
  simp only [isDigit, isSpace, UInt8.le_iff_toNat_le, ← UInt8.toNat_inj] at h ⊢
  simp at h ⊢
  omega

theorem takeSign_digits (n : Nat) : takeSign (digits n) = (false, digits n) := by
  obtain ⟨c, l, hcl⟩ := List.exists_cons_of_ne_nil (digits_ne_nil n)
  have hc : isDigit c := isDigit_of_mem_digits (n := n) (by simp [hcl])
  rw [hcl]
  unfold takeSign
  split <;> simp_all [isDigit]

theorem dropWhile_digits (n : Nat) : (digits n).dropWhile isSpace = digits n := by
  obtain ⟨c, l, hcl⟩ := List.exists_cons_of_ne_nil (digits_ne_nil n)
  rw [hcl, dropWhile_isSpace (.inl (isDigit_of_mem_digits (n := n) (by simp [hcl])))]

theorem stoi_digits {n : Nat} (h : n < 2 ^ 31) : stoi (digits n) = some (Int32.ofNat n) := by
  unfold stoi
  rw [dropWhile_digits, takeSign_digits]
  simp only [takeWhile_digits, digits_ne_nil, digitsValue_digits]
  rw [if_neg (by simp), if_pos (by simp; omega)]
  simp [Int32.ofInt_eq_ofNat]

theorem stoi_digits_of_le {n : Nat} (h : 2 ^ 31 ≤ n) : stoi (digits n) = none := by
  unfold stoi
  rw [dropWhile_digits, takeSign_digits]
  simp only [takeWhile_digits, digits_ne_nil, digitsValue_digits]
  rw [if_neg (by simp), if_neg (by simp; omega)]

theorem stoi_intDigits (i : Int32) : stoi (intDigits i.toInt) = some i := by
  have hle := i.le_toInt
  have hlt := i.toInt_lt
  unfold intDigits
  split_ifs with hneg
  · unfold stoi
    rw [dropWhile_isSpace (.inr rfl), takeSign]
    simp only [takeWhile_digits, digits_ne_nil, digitsValue_digits]
    have hv : -(i.toInt.natAbs : Int) = i.toInt := by omega
    rw [if_neg (by simp), if_pos trivial, hv, if_pos ⟨hle, hlt⟩, Int32.ofInt_toInt]
  · have hv : (i.toInt.natAbs : Int) = i.toInt := by omega
    rw [stoi_digits (by omega), ← Int32.ofInt_eq_ofNat, hv, Int32.ofInt_toInt]

end Tiodb.Lib
