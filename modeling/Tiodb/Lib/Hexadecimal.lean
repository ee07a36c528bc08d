import Mathlib.Data.List.DropRight
import Mathlib.Data.Nat.Digits.Lemmas
import Tiodb.Lib.Decimal

/-!
# Hexadecimal numbers of a fixed width

What `setfill('0') << setw(width) << hex` writes, and the readers of such a number:
`sscanf` with `%X`, and `int(s, 16)` of Python. A number that fits its width is read
back from exactly that many bytes.
-/

namespace Tiodb.Lib

def hexDigit (d : Nat) : UInt8 := if d < 10 then UInt8.ofNat (48 + d) else UInt8.ofNat (87 + d)

def hexDigitValue (c : UInt8) : Option Nat :=
  if 48 ≤ c ∧ c ≤ 57 then some (c.toNat - 48)
  else if 65 ≤ c ∧ c ≤ 70 then some (c.toNat - 55)
  else if 97 ≤ c ∧ c ≤ 102 then some (c.toNat - 87)
  else none

def isHexDigit (c : UInt8) : Bool := (hexDigitValue c).isSome

def hexValue (l : List UInt8) : Nat := l.foldl (fun n c => 16 * n + (hexDigitValue c).getD 0) 0

/-- The stream pads on the left. -/
def hexPadded (width n : Nat) : List UInt8 :=
  let ds := (Nat.digits 16 n).reverse.map hexDigit
  List.replicate (width - ds.length) 48 ++ ds

/-- Both readers allow a mark. -/
def skipHexMark : List UInt8 → List UInt8
  | 48 :: 120 :: b => b
  | 48 :: 88 :: b => b
  | b => b

/-- `%X` reads as many digits as there are. `none` leaves the variable as it was. -/
def scanHex (b : List UInt8) : Option UInt32 :=
  let (negative, b) := takeSign (b.dropWhile isSpace)
  let ds := (skipHexMark b).takeWhile isHexDigit
  if ds = [] then none
  else some (if negative then 0 - UInt32.ofNat (hexValue ds) else UInt32.ofNat (hexValue ds))

/-- `int(s, 16)`; `none` is a `ValueError`. -/
def pyHexInt (b : List UInt8) : Option Int :=
  let (negative, b) := takeSign ((b.dropWhile isSpace).rdropWhile isSpace)
  let ds := skipHexMark b
  if ds ≠ [] ∧ ds.all isHexDigit then some (if negative then -(hexValue ds : Int) else hexValue ds) else none

theorem hexDigitValue_hexDigit {d : Nat} (h : d < 16) : hexDigitValue (hexDigit d) = some d := by
  revert d
  decide

theorem isHexDigit_of_mem {width n : Nat} {c : UInt8} (h : c ∈ hexPadded width n) : isHexDigit c := by
  rcases List.mem_append.mp h with h | h
  · rw [List.eq_of_mem_replicate h]
    rfl
  · obtain ⟨d, hd, rfl⟩ := List.mem_map.mp h
    rw [isHexDigit, hexDigitValue_hexDigit (Nat.digits_lt_base (by omega) (List.mem_reverse.mp hd))]
    rfl

theorem length_hexPadded {width n : Nat} (h : n < 16 ^ width) : (hexPadded width n).length = width := by
  have hle : (Nat.digits 16 n).length ≤ width := (Nat.digits_length_le_iff (by omega) n).mpr h
  simp only [hexPadded, List.length_append, List.length_replicate, List.length_map, List.length_reverse]
  omega

theorem hexValue_hexPadded (width n : Nat) : hexValue (hexPadded width n) = n := by
  have hzeros (k : Nat) : hexValue (List.replicate k 48) = 0 := by
    induction k with
    | zero => rfl
    | succ k ih =>
      rw [List.replicate_succ', hexValue, List.foldl_append, ← hexValue, ih]
      rfl
  have hdigits (l : List Nat) (hl : ∀ d ∈ l, d < 16) :
      (l.reverse.map hexDigit).foldl (fun n c => 16 * n + (hexDigitValue c).getD 0) 0 = Nat.ofDigits 16 l := by
    induction l with
    | nil => rfl
    | cons d l ih =>
      rw [List.reverse_cons, List.map_append, List.foldl_append, ih fun e he => hl e (by simp [he]), Nat.ofDigits_cons]
      simp [hexDigitValue_hexDigit (hl d (by simp))]
      omega
  rw [hexPadded, hexValue, List.foldl_append, ← hexValue, hzeros,
    hdigits _ fun d hd => Nat.digits_lt_base (by omega) hd, Nat.ofDigits_digits]

/-- A hexadecimal digit is no white space, no sign, not the letter of a mark, and no NUL. -/
theorem isHexDigit_plain {c : UInt8} (h : isHexDigit c) :
    isSpace c = false ∧ c ≠ 45 ∧ c ≠ 43 ∧ c ≠ 120 ∧ c ≠ 88 ∧ c ≠ 0 := by
  have hrange : 48 ≤ c.toNat ∧ c.toNat ≤ 57 ∨ 65 ≤ c.toNat ∧ c.toNat ≤ 70 ∨ 97 ≤ c.toNat ∧ c.toNat ≤ 102 := by
    unfold isHexDigit hexDigitValue at h
    simp only [UInt8.le_iff_toNat_le] at h
    split_ifs at h with h₁ h₂ h₃
    · exact .inl h₁
    · exact .inr (.inl h₂)
    · exact .inr (.inr h₃)
    · cases h
  simp only [isSpace, Bool.or_eq_false_iff, Bool.and_eq_false_iff, decide_eq_false_iff_not, UInt8.le_iff_toNat_le,
    ← UInt8.toNat_inj, ne_eq]
  simp
  omega

theorem read_hexDigits {l : List UInt8} (hne : l ≠ []) (h : ∀ c ∈ l, isHexDigit c) :
    l.dropWhile isSpace = l ∧ l.rdropWhile isSpace = l ∧ takeSign l = (false, l) ∧ skipHexMark l = l := by
  obtain ⟨c, l', rfl⟩ := List.exists_cons_of_ne_nil hne
  obtain ⟨hspace, hminus, hplus, -⟩ := isHexDigit_plain (h c (by simp))
  refine ⟨List.dropWhile_cons_of_neg (by simp [hspace]), ?_, ?_, ?_⟩
  · rw [List.rdropWhile_eq_self_iff]
    intro hl
    simp [(isHexDigit_plain (h _ (List.getLast_mem hl))).1]
  · unfold takeSign
    split
    · rename_i heq
      exact absurd (List.cons.inj heq).1 hminus
    · rename_i heq
      exact absurd (List.cons.inj heq).1 hplus
    · rfl
  · unfold skipHexMark
    split
    · exact absurd rfl (isHexDigit_plain (h 120 (by simp_all))).2.2.2.1
    · exact absurd rfl (isHexDigit_plain (h 88 (by simp_all))).2.2.2.2.1
    · rfl

theorem scanHex_of_digits {l : List UInt8} (hne : l ≠ []) (h : ∀ c ∈ l, isHexDigit c) :
    scanHex l = some (UInt32.ofNat (hexValue l)) := by
  obtain ⟨hdrop, -, hsign, hmark⟩ := read_hexDigits hne h
  rw [scanHex, hdrop, hsign]
  dsimp only
  rw [hmark, List.takeWhile_eq_self_iff.mpr h, if_neg hne]
  rfl

theorem pyHexInt_of_digits {l : List UInt8} (hne : l ≠ []) (h : ∀ c ∈ l, isHexDigit c) :
    pyHexInt l = some (hexValue l : Int) := by
  obtain ⟨hdrop, hright, hsign, hmark⟩ := read_hexDigits hne h
  rw [pyHexInt, hdrop, hright, hsign]
  dsimp only
  rw [hmark, if_pos ⟨hne, List.all_eq_true.mpr h⟩]
  rfl

end Tiodb.Lib
