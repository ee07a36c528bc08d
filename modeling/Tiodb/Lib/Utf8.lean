import Mathlib.Data.List.TakeWhile
import Mathlib.Tactic.Common

/-!
# UTF-8

The bytes that are the UTF-8 of some characters. Such bytes stay so when they are put
together, and when they are cut at a NUL. There are as many characters as bytes that
continue no other, so as many as bytes exactly where each is below 128.
-/

namespace Tiodb.Lib

/-- The bytes are the UTF-8 of some characters. -/
def IsUtf8 (b : List UInt8) : Prop := ∃ s : List Char, b = s.flatMap String.utf8EncodeChar

theorem utf8EncodeChar_of_toNat_lt {c : Char} (h : c.toNat < 128) :
    String.utf8EncodeChar c = [UInt8.ofNat c.toNat] := by
  have hsize : c.utf8Size = 1 := by
    rw [Char.utf8Size_eq_one_iff, UInt32.le_iff_toNat_le]
    exact Nat.le_of_lt_succ h
  exact String.utf8EncodeChar_eq_singleton hsize

theorem zero_notMem_utf8EncodeChar {c : Char} (h : c ≠ '\x00') : (0 : UInt8) ∉ String.utf8EncodeChar c := by
  have hor (x m : UInt8) (hm : m ≠ 0) : (0 : UInt8) ≠ x ||| m := fun h0 => hm (UInt8.or_eq_zero_iff.mp h0.symm).2
  obtain hsize | hsize | hsize | hsize := Char.utf8Size_eq c
  · have hlt : c.toNat ≤ 127 := UInt32.le_iff_toNat_le.mp (Char.utf8Size_eq_one_iff.mp hsize)
    rw [utf8EncodeChar_of_toNat_lt (Nat.lt_succ_of_le hlt), List.mem_singleton]
    intro h0
    have hzero : c.toNat % 256 = 0 := by simpa using (congrArg UInt8.toNat h0).symm
    exact h (Char.toNat_inj.mp (by simp; omega))
  · rw [String.utf8EncodeChar_eq_cons_cons hsize]
    simp [hor]
  · rw [String.utf8EncodeChar_eq_cons_cons_cons hsize]
    simp [hor]
  · rw [String.utf8EncodeChar_eq_cons_cons_cons_cons hsize]
    simp [hor]

namespace IsUtf8

theorem append {a b : List UInt8} (ha : IsUtf8 a) (hb : IsUtf8 b) : IsUtf8 (a ++ b) := by
  obtain ⟨s, rfl⟩ := ha
  obtain ⟨t, rfl⟩ := hb
  exact ⟨s ++ t, List.flatMap_append.symm⟩

theorem flatten {bs : List (List UInt8)} (h : ∀ b ∈ bs, IsUtf8 b) : IsUtf8 bs.flatten := by
  induction bs with
  | nil => exact ⟨[], rfl⟩
  | cons b bs ih =>
    obtain ⟨hb, hbs⟩ := List.forall_mem_cons.mp h
    exact hb.append (ih hbs)

theorem of_ascii {b : List UInt8} (h : ∀ c ∈ b, c < 128) : IsUtf8 b := by
  refine ⟨b.map fun c => Char.ofNat c.toNat, ?_⟩
  induction b with
  | nil => rfl
  | cons c b ih =>
    obtain ⟨hc, hb⟩ := List.forall_mem_cons.mp h
    have hlt : c.toNat < 128 := UInt8.lt_iff_toNat_lt.mp hc
    have hchar : (Char.ofNat c.toNat).toNat = c.toNat := by
      unfold Char.ofNat
      rw [dif_pos (Or.inl (by omega))]
      rfl
    rw [List.map_cons, List.flatMap_cons, ← ih hb, utf8EncodeChar_of_toNat_lt (by omega), hchar, UInt8.ofNat_toNat]
    rfl

theorem cons {c : UInt8} {b : List UInt8} (hc : c < 128) (hb : IsUtf8 b) : IsUtf8 (c :: b) := by
  have hhead : IsUtf8 [c] := of_ascii (List.forall_mem_singleton.mpr hc)
  exact hhead.append hb

theorem takeWhile_ne_zero {b : List UInt8} (h : IsUtf8 b) : IsUtf8 (b.takeWhile (· ≠ 0)) := by
  obtain ⟨s, rfl⟩ := h
  induction s with
  | nil => exact ⟨[], rfl⟩
  | cons c s ih =>
    by_cases hc : c = '\x00'
    · subst hc
      exact ⟨[], rfl⟩
    · have hall : ∀ x ∈ String.utf8EncodeChar c, decide (x ≠ 0) = true := by
        intro x hx
        simpa using fun h0 : x = 0 => zero_notMem_utf8EncodeChar hc (h0 ▸ hx)
      rw [List.flatMap_cons, List.takeWhile_append_of_pos hall]
      exact append ⟨[c], by simp⟩ ih

theorem toByteArray_iff (b : List UInt8) : b.toByteArray.IsValidUTF8 ↔ IsUtf8 b := by
  constructor
  · rintro ⟨s, hs⟩
    exact ⟨s, List.toByteArray_inj.mp hs⟩
  · rintro ⟨s, rfl⟩
    exact ⟨s, rfl⟩

end IsUtf8

instance : DecidablePred IsUtf8 := fun b => decidable_of_iff _ (IsUtf8.toByteArray_iff b)

/-! ## Characters -/

/-- The byte is not the first one of its character. -/
def isContinuation (c : UInt8) : Bool := c &&& 0xC0 = 0x80

/-- The characters of UTF-8, each with its bytes. -/
def characters : List UInt8 → List (List UInt8)
  | [] => []
  | c :: b => if isContinuation c then characters b else (c :: b.takeWhile isContinuation) :: characters b

/-- How many characters begin in the bytes. -/
def starts (b : List UInt8) : Nat := b.countP fun c => !isContinuation c

theorem isContinuation_or (x : UInt8) : isContinuation (x &&& 0x3f ||| 0x80) = true := by
  have h : ∀ n : Fin 256, isContinuation (UInt8.ofNat n &&& 0x3f ||| 0x80) = true := by decide +kernel
  simpa using h ⟨x.toNat, x.toNat_lt⟩

theorem not_isContinuation_of_lt {c : UInt8} (h : c < 128) : isContinuation c = false := by
  have hall : ∀ n : Fin 256, UInt8.ofNat n < 128 → isContinuation (UInt8.ofNat n) = false := by decide +kernel
  simpa [h] using hall ⟨c.toNat, c.toNat_lt⟩

theorem starts_append (a b : List UInt8) : starts (a ++ b) = starts a + starts b := List.countP_append

theorem starts_le_length (b : List UInt8) : starts b ≤ b.length := List.countP_le_length

theorem length_characters (b : List UInt8) : (characters b).length = starts b := by
  unfold starts
  induction b with
  | nil => rfl
  | cons c b ih =>
    rw [characters, List.countP_cons]
    cases hc : isContinuation c <;> simp [ih]

theorem starts_of_mem_characters {b g : List UInt8} (h : g ∈ characters b) : starts g = 1 := by
  induction b with
  | nil => cases h
  | cons c b ih =>
    rw [characters] at h
    cases hc : isContinuation c with
    | true => exact ih (by simpa [hc] using h)
    | false =>
      simp only [hc, Bool.false_eq_true, if_false, List.mem_cons] at h
      rcases h with rfl | h
      · have hrest : (b.takeWhile isContinuation).countP (fun c => !isContinuation c) = 0 := by
          rw [List.countP_eq_zero]
          intro d hd
          simp [List.mem_takeWhile_imp hd]
        rw [starts, List.countP_cons, hrest]
        simp [hc]
      · exact ih h

theorem starts_flatten {gs : List (List UInt8)} (h : ∀ g ∈ gs, starts g = 1) : starts gs.flatten = gs.length := by
  induction gs with
  | nil => rfl
  | cons g gs ih =>
    obtain ⟨hg, hgs⟩ := List.forall_mem_cons.mp h
    rw [List.flatten_cons, starts_append, hg, ih hgs, List.length_cons, Nat.add_comm]

theorem characters_of_ascii {b : List UInt8} (h : ∀ c ∈ b, c < 128) : characters b = b.map ([·]) := by
  induction b with
  | nil => rfl
  | cons c b ih =>
    obtain ⟨hc, hb⟩ := List.forall_mem_cons.mp h
    have hrest : b.takeWhile isContinuation = [] := by
      cases b with
      | nil => rfl
      | cons d b => simp [not_isContinuation_of_lt (hb d (by simp))]
    rw [characters, hrest, ih hb, List.map_cons]
    simp [not_isContinuation_of_lt hc]

theorem exists_isContinuation {c : Char} (h : ¬ c.toNat < 128) :
    ∃ x ∈ String.utf8EncodeChar c, isContinuation x = true := by
  obtain hsize | hsize | hsize | hsize := Char.utf8Size_eq c
  · exact absurd (Nat.lt_succ_of_le (UInt32.le_iff_toNat_le.mp (Char.utf8Size_eq_one_iff.mp hsize))) h
  · rw [String.utf8EncodeChar_eq_cons_cons hsize]
    exact ⟨_, List.mem_cons_of_mem _ (List.mem_cons_self ..), isContinuation_or _⟩
  · rw [String.utf8EncodeChar_eq_cons_cons_cons hsize]
    exact ⟨_, List.mem_cons_of_mem _ (List.mem_cons_self ..), isContinuation_or _⟩
  · rw [String.utf8EncodeChar_eq_cons_cons_cons_cons hsize]
    exact ⟨_, List.mem_cons_of_mem _ (List.mem_cons_self ..), isContinuation_or _⟩

theorem IsUtf8.ascii {b : List UInt8} (h : IsUtf8 b) (hall : b.length ≤ starts b) : ∀ c ∈ b, c < 128 := by
  obtain ⟨s, rfl⟩ := h
  have hstarts : ∀ x ∈ s.flatMap String.utf8EncodeChar, isContinuation x = false := by
    intro x hx
    have hcount := List.countP_eq_length.mp (Nat.le_antisymm (starts_le_length _) hall) x hx
    simpa using hcount
  intro x hx
  obtain ⟨c, hc, hxc⟩ := List.mem_flatMap.mp hx
  have hlt : c.toNat < 128 := by
    by_contra hge
    obtain ⟨y, hy, hcontinues⟩ := exists_isContinuation hge
    rw [hstarts y (List.mem_flatMap.mpr ⟨c, hc, hy⟩)] at hcontinues
    cases hcontinues
  rw [utf8EncodeChar_of_toNat_lt hlt, List.mem_singleton] at hxc
  rw [hxc, UInt8.lt_iff_toNat_lt, UInt8.toNat_ofNat']
  exact (Nat.mod_le _ _).trans_lt hlt

end Tiodb.Lib
