import Mathlib.Algebra.Order.BigOperators.Group.List
import Mathlib.Algebra.Order.Monoid.Unbundled.Basic
import Tiodb.Lib.Hexadecimal

/-!
# JSON texts

A reader of JSON over bytes. A string is the bytes that it stands for, and an escape
stands for the UTF-8 of its character. The bytes that are read bound what the value can
hold, since a byte that has to be escaped takes two.
-/

namespace Tiodb.Lib

inductive Json where
  | null
  | bool (b : Bool)
  | number (text : List UInt8)
  | string (s : List UInt8)
  | array (elements : List Json)
  | object (members : List (List UInt8 × Json))

namespace Json

/-! ## Strings -/

/-- A byte that stands for itself inside a string. -/
def Plain (c : UInt8) : Prop := c ≠ 34 ∧ c ≠ 92 ∧ 32 ≤ c

instance : DecidablePred Plain := fun _ => inferInstanceAs (Decidable (_ ∧ _))

/-- A byte, or the number of an escape. -/
inductive Piece where
  | byte (c : UInt8)
  | code (n : Nat)

def escapeCode (c : UInt8) : Option Nat :=
  [(34, 34), (92, 92), (47, 47), (98, 8), (102, 12), (110, 10), (114, 13), (116, 9)].lookup c

/-- The pieces up to the quote, and what is behind it. -/
def pieces : List UInt8 → Option (List Piece × List UInt8)
  | [] => none
  | c :: rest =>
    if c = 34 then some ([], rest)
    else if c = 92 then
      match rest with
      | [] => none
      | e :: rest =>
        if e = 117 then
          match rest with
          | x :: y :: z :: w :: rest =>
            if [x, y, z, w].all isHexDigit then
              (pieces rest).map fun (ps, rest) => (.code (hexValue [x, y, z, w]) :: ps, rest)
            else none
          | _ => none
        else (escapeCode e).bind fun n => (pieces rest).map fun (ps, rest) => (.code n :: ps, rest)
    else if c < 32 then none
    else (pieces rest).map fun (ps, rest) => (.byte c :: ps, rest)

def isHighSurrogate (n : Nat) : Bool := 0xD800 ≤ n && n < 0xDC00

def isLowSurrogate (n : Nat) : Bool := 0xDC00 ≤ n && n < 0xE000

def utf8 (n : Nat) : List UInt8 := String.utf8EncodeChar (Char.ofNat n)

/-- A surrogate that is alone is no character. -/
def assemble : List Piece → Option (List UInt8)
  | [] => some []
  | .byte c :: ps => (assemble ps).map (c :: ·)
  | .code n :: ps =>
    if isHighSurrogate n then
      match ps with
      | .code m :: ps =>
        if isLowSurrogate m then
          (assemble ps).map (utf8 (0x10000 + (n - 0xD800) * 0x400 + (m - 0xDC00)) ++ ·)
        else none
      | _ => none
    else if isLowSurrogate n then none
    else (assemble ps).map (utf8 n ++ ·)

/-- A string behind its first quote. -/
def readString (b : List UInt8) : Option (List UInt8 × List UInt8) :=
  (pieces b).bind fun (ps, rest) => (assemble ps).map fun s => (s, rest)

/-! ## Numbers and words -/

def readDigits (b : List UInt8) : Option (List UInt8 × List UInt8) :=
  if b.takeWhile isDigit = [] then none else some (b.takeWhile isDigit, b.dropWhile isDigit)

def readFraction (b : List UInt8) : Option (List UInt8 × List UInt8) :=
  match b with
  | 46 :: rest => (readDigits rest).map fun (ds, rest) => (46 :: ds, rest)
  | _ => some ([], b)

def readExponent (b : List UInt8) : Option (List UInt8 × List UInt8) :=
  match b with
  | [] => some ([], [])
  | e :: rest =>
    if e = 69 ∨ e = 101 then
      match rest with
      | [] => none
      | s :: rest' =>
        if s = 43 ∨ s = 45 then (readDigits rest').map fun (ds, rest) => (e :: s :: ds, rest)
        else (readDigits rest).map fun (ds, rest) => (e :: ds, rest)
    else some ([], b)

def readUnsigned (b : List UInt8) : Option (List UInt8 × List UInt8) :=
  (readDigits b).bind fun (int, b) =>
    if int.head? = some 48 ∧ int ≠ [48] then none
    else
      (readFraction b).bind fun (fraction, b) =>
        (readExponent b).map fun (exponent, b) => (int ++ fraction ++ exponent, b)

def readNumber (b : List UInt8) : Option (List UInt8 × List UInt8) :=
  match b with
  | 45 :: rest => (readUnsigned rest).map fun (n, rest) => (45 :: n, rest)
  | _ => readUnsigned b

/-- `null`, `true`, `false` or a number. -/
def readScalar (b : List UInt8) : Option (Json × List UInt8) :=
  if [110, 117, 108, 108] <+: b then some (.null, b.drop 4)
  else if [116, 114, 117, 101] <+: b then some (.bool true, b.drop 4)
  else if [102, 97, 108, 115, 101] <+: b then some (.bool false, b.drop 5)
  else (readNumber b).map fun (n, rest) => (.number n, rest)

/-! ## Values -/

def isBlank (c : UInt8) : Bool := c = 32 || c = 9 || c = 10 || c = 13

def skipBlanks (b : List UInt8) : List UInt8 := b.dropWhile isBlank

/-- The name of a member, and its colon. -/
def readName (b : List UInt8) : Option (List UInt8 × List UInt8) :=
  match skipBlanks b with
  | [] => none
  | c :: rest =>
    if c = 34 then
      (readString rest).bind fun (key, rest) =>
        match skipBlanks rest with
        | [] => none
        | c :: rest => if c = 58 then some (key, rest) else none
    else none

mutual

/-- A value at the start of the bytes, and what is behind it. The number bounds the depth of the calls. -/
def readValue : Nat → List UInt8 → Option (Json × List UInt8)
  | 0, _ => none
  | depth + 1, b =>
    match skipBlanks b with
    | [] => none
    | c :: rest =>
      if c = 34 then (readString rest).map fun (s, rest) => (.string s, rest)
      else if c = 91 then
        if (skipBlanks rest).head? = some 93 then some (.array [], (skipBlanks rest).tail)
        else (readElements depth rest).map fun (vs, rest) => (.array vs, rest)
      else if c = 123 then
        if (skipBlanks rest).head? = some 125 then some (.object [], (skipBlanks rest).tail)
        else (readMembers depth rest).map fun (ms, rest) => (.object ms, rest)
      else readScalar (c :: rest)

/-- The elements of an array, and its bracket. -/
def readElements : Nat → List UInt8 → Option (List Json × List UInt8)
  | 0, _ => none
  | depth + 1, b =>
    (readValue depth b).bind fun (v, rest) =>
      match skipBlanks rest with
      | [] => none
      | c :: rest =>
        if c = 44 then (readElements depth rest).map fun (vs, rest) => (v :: vs, rest)
        else if c = 93 then some ([v], rest)
        else none

/-- The members of an object, and its brace. -/
def readMembers : Nat → List UInt8 → Option (List (List UInt8 × Json) × List UInt8)
  | 0, _ => none
  | depth + 1, b =>
    (readName b).bind fun (key, rest) =>
      (readValue depth rest).bind fun (v, rest) =>
        match skipBlanks rest with
        | [] => none
        | c :: rest =>
          if c = 44 then (readMembers depth rest).map fun (ms, rest) => ((key, v) :: ms, rest)
          else if c = 125 then some ([(key, v)], rest)
          else none

end

/-- The bytes are a JSON text for the value. -/
def Document (b : List UInt8) (v : Json) : Prop :=
  ∃ depth rest, readValue depth b = some (v, rest) ∧ skipBlanks rest = []

example : (readValue 9 [32, 123, 34, 92, 110, 34, 58, 91, 49, 93, 125]).isSome := by decide +kernel

/-! ## What a value takes -/

/-- The bytes of a string at least, between its quotes. -/
def escapedLength (s : List UInt8) : Nat := s.length + s.countP fun c => ¬ Plain c

mutual

/-- The bytes of a value at least. -/
def weight : Json → Nat
  | .string s => escapedLength s + 2
  | .array vs => elementsWeight vs + 1
  | .object ms => membersWeight ms + 1
  | _ => 1

/-- The elements, each with the comma or the bracket behind it. -/
def elementsWeight : List Json → Nat
  | [] => 0
  | v :: vs => v.weight + 1 + elementsWeight vs

def membersWeight : List (List UInt8 × Json) → Nat
  | [] => 0
  | (key, v) :: ms => escapedLength key + 3 + v.weight + 1 + membersWeight ms

end

theorem escapedLength_append (s t : List UInt8) : escapedLength (s ++ t) = escapedLength s + escapedLength t := by
  simp only [escapedLength, List.length_append, List.countP_append]
  omega

theorem escapedLength_le (s : List UInt8) : escapedLength s ≤ 2 * s.length := by
  have := List.countP_le_length (p := fun c => decide ¬ Plain c) (l := s)
  simp only [escapedLength]
  omega

theorem length_le_escapedLength (s : List UInt8) : s.length ≤ escapedLength s := Nat.le_add_right _ _

theorem escapedLength_le_length_iff {s : List UInt8} : escapedLength s ≤ s.length ↔ ∀ c ∈ s, Plain c := by
  simp [escapedLength]

theorem escapedLength_of_plain {s : List UInt8} (h : ∀ c ∈ s, Plain c) : escapedLength s = s.length :=
  Nat.le_antisymm (escapedLength_le_length_iff.mpr h) (length_le_escapedLength s)

namespace Piece

def width : Piece → Nat
  | .byte _ => 1
  | .code n => if n < 128 then 2 else 6

def Sound : Piece → Prop
  | .byte c => Plain c
  | .code n => n < 0x10000

end Piece

theorem escapeCode_lt {c : UInt8} {n : Nat} (h : escapeCode c = some n) : n < 128 := by
  have hall : ∀ p ∈ [((34 : UInt8), 34), (92, 92), (47, 47), (98, 8), (102, 12), (110, 10), (114, 13), (116, 9)],
      p.2 < 128 := by decide
  obtain ⟨l₁, l₂, heq, -⟩ := List.lookup_eq_some_iff.mp h
  exact hall (c, n) (heq ▸ by simp)

theorem hexValue_four_lt (x y z w : UInt8) : hexValue [x, y, z, w] < 0x10000 := by
  have hdigit (c : UInt8) : (hexDigitValue c).getD 0 < 16 := by
    have := c.toNat_lt
    unfold hexDigitValue
    split_ifs with h₁ h₂ h₃ <;>
      simp only [UInt8.le_iff_toNat_le, Option.getD_some, Option.getD_none] at * <;> simp at * <;> omega
  have hx := hdigit x
  have hy := hdigit y
  have hz := hdigit z
  have hw := hdigit w
  simp only [hexValue, List.foldl_cons, List.foldl_nil]
  omega

theorem map_cons_eq_some {α β : Type} {x : Option (List α × β)} {p : α} {ps : List α} {rest : β}
    (h : (x.map fun (ps, rest) => (p :: ps, rest)) = some (ps, rest)) : ∃ ps', x = some (ps', rest) ∧ ps = p :: ps' := by
  obtain ⟨⟨ps', rest'⟩, hx, heq⟩ := Option.map_eq_some_iff.mp h
  obtain ⟨rfl, rfl⟩ := Prod.mk.inj heq
  exact ⟨ps', hx, rfl⟩

theorem pieces_width {b rest : List UInt8} {ps : List Piece} (h : pieces b = some (ps, rest)) :
    rest.length + 1 + (ps.map Piece.width).sum ≤ b.length ∧ ∀ p ∈ ps, p.Sound := by
  have hcons {p : Piece} {ps : List Piece} (hp : p.Sound) (h : ∀ p ∈ ps, p.Sound) : ∀ q ∈ p :: ps, q.Sound :=
    List.forall_mem_cons.mpr ⟨hp, h⟩
  fun_induction pieces b generalizing ps rest with
  | case2 =>
    obtain ⟨rfl, rfl⟩ := Prod.mk.inj (Option.some.inj h)
    simp
  | case4 x y z w b _ _ ih =>
    obtain ⟨ps, hps, rfl⟩ := map_cons_eq_some h
    obtain ⟨hle, hsound⟩ := ih hps
    refine ⟨?_, hcons (hexValue_four_lt x y z w) hsound⟩
    have hwidth : (Piece.code (hexValue [x, y, z, w])).width ≤ 6 := by
      simp only [Piece.width]
      split_ifs <;> omega
    simp only [List.map_cons, List.sum_cons, List.length_cons]
    omega
  | case7 e b _ _ ih =>
    obtain ⟨n, hn, h⟩ := Option.bind_eq_some_iff.mp h
    obtain ⟨ps, hps, rfl⟩ := map_cons_eq_some h
    obtain ⟨hle, hsound⟩ := ih hps
    have hlt := escapeCode_lt hn
    refine ⟨?_, hcons (lt_trans hlt (by decide)) hsound⟩
    simp only [List.map_cons, List.sum_cons, List.length_cons, Piece.width, hlt, if_true]
    omega
  | case9 c b hquote hslash hlow ih =>
    obtain ⟨ps, hps, rfl⟩ := map_cons_eq_some h
    obtain ⟨hle, hsound⟩ := ih hps
    refine ⟨?_, hcons ⟨hquote, hslash, UInt8.not_lt.mp hlow⟩ hsound⟩
    simp only [List.map_cons, List.sum_cons, List.length_cons, Piece.width]
    omega
  | case1 => cases h
  | case3 => cases h
  | case5 => cases h
  | case6 => cases h
  | case8 => cases h

theorem length_utf8_le (n : Nat) : (utf8 n).length ≤ 4 := by
  rw [utf8, String.length_utf8EncodeChar]
  exact Char.utf8Size_le_four _

theorem val_ofNat_le (n : Nat) : (Char.ofNat n).val.toNat ≤ n := by
  unfold Char.ofNat
  by_cases h : n.isValidChar
  · rw [dif_pos h]
    exact Nat.le_of_eq rfl
  · rw [dif_neg h]
    exact Nat.zero_le n

theorem length_utf8_of_lt {n : Nat} (h : n < 0x10000) : (utf8 n).length ≤ 3 ∧ (n < 128 → (utf8 n).length = 1) := by
  have hle := val_ofNat_le n
  rw [utf8, String.length_utf8EncodeChar]
  unfold Char.utf8Size
  simp only [UInt32.le_iff_toNat_le]
  constructor
  · split_ifs <;> first | omega | (simp at *; omega)
  · intro hlt
    exact if_pos (le_trans hle (by simp; omega))

theorem escapedLength_utf8_le {n : Nat} (h : n < 0x10000) : escapedLength (utf8 n) ≤ (Piece.code n).width := by
  have hle := escapedLength_le (utf8 n)
  obtain ⟨hthree, hone⟩ := length_utf8_of_lt h
  simp only [Piece.width]
  split_ifs with hlt
  · have := hone hlt
    omega
  · omega

theorem assemble_width {ps : List Piece} {s : List UInt8} (h : assemble ps = some s) (hsound : ∀ p ∈ ps, p.Sound) :
    escapedLength s ≤ (ps.map Piece.width).sum := by
  fun_induction assemble ps generalizing s with
  | case1 =>
    obtain rfl := Option.some.inj h
    rfl
  | case2 c ps ih =>
    obtain ⟨t, ht, rfl⟩ := Option.map_eq_some_iff.mp h
    obtain ⟨hc, hps⟩ := List.forall_mem_cons.mp hsound
    have hplain : escapedLength [c] = 1 := escapedLength_of_plain (List.forall_mem_singleton.mpr hc)
    have := ih ht hps
    rw [← List.singleton_append, escapedLength_append, hplain, List.map_cons, List.sum_cons]
    simp only [Piece.width]
    omega
  | case3 n hhigh m ps hlow ih =>
    obtain ⟨t, ht, rfl⟩ := Option.map_eq_some_iff.mp h
    have hfour := length_utf8_le (0x10000 + (n - 0xD800) * 0x400 + (m - 0xDC00))
    have hle := escapedLength_le (utf8 (0x10000 + (n - 0xD800) * 0x400 + (m - 0xDC00)))
    have := ih ht fun p hp => hsound p (by simp [hp])
    have hbig {k : Nat} (hk : 128 ≤ k) : (Piece.code k).width = 6 := if_neg (by omega)
    simp only [isHighSurrogate, isLowSurrogate, Bool.and_eq_true, decide_eq_true_eq] at hhigh hlow
    rw [escapedLength_append, List.map_cons, List.map_cons, List.sum_cons, List.sum_cons, hbig (by omega),
      hbig (by omega)]
    omega
  | case7 n ps _ _ ih =>
    obtain ⟨t, ht, rfl⟩ := Option.map_eq_some_iff.mp h
    obtain ⟨hn, hps⟩ := List.forall_mem_cons.mp hsound
    have hle := escapedLength_utf8_le hn
    have := ih ht hps
    rw [escapedLength_append, List.map_cons, List.sum_cons]
    omega
  | case4 => cases h
  | case5 => cases h
  | case6 => cases h

theorem readString_weight {b s rest : List UInt8} (h : readString b = some (s, rest)) :
    rest.length + 1 + escapedLength s ≤ b.length := by
  obtain ⟨⟨ps, rest'⟩, hps, h⟩ := Option.bind_eq_some_iff.mp h
  obtain ⟨s', hs, heq⟩ := Option.map_eq_some_iff.mp h
  obtain ⟨rfl, rfl⟩ := Prod.mk.inj heq
  obtain ⟨hle, hsound⟩ := pieces_width hps
  have := assemble_width hs hsound
  omega

theorem readDigits_lt {b ds rest : List UInt8} (h : readDigits b = some (ds, rest)) : rest.length < b.length := by
  unfold readDigits at h
  split_ifs at h with hnil
  obtain ⟨rfl, rfl⟩ := Prod.mk.inj (Option.some.inj h)
  have hlen := congrArg List.length (List.takeWhile_append_dropWhile (p := isDigit) (l := b))
  have hpos := List.length_pos_of_ne_nil hnil
  rw [List.length_append] at hlen
  omega

theorem readFraction_le {b ds rest : List UInt8} (h : readFraction b = some (ds, rest)) : rest.length ≤ b.length := by
  unfold readFraction at h
  split at h
  · obtain ⟨⟨ds', rest'⟩, hds, heq⟩ := Option.map_eq_some_iff.mp h
    obtain ⟨rfl, rfl⟩ := Prod.mk.inj heq
    exact Nat.le_of_lt (Nat.lt_succ_of_lt (readDigits_lt hds))
  · obtain ⟨rfl, rfl⟩ := Prod.mk.inj (Option.some.inj h)
    exact Nat.le_refl _

theorem readExponent_le {b ds rest : List UInt8} (h : readExponent b = some (ds, rest)) : rest.length ≤ b.length := by
  have hread {b' : List UInt8} {f : List UInt8 → List UInt8} {ds rest : List UInt8}
      (h : ((readDigits b').map fun (ds, rest) => (f ds, rest)) = some (ds, rest)) : rest.length ≤ b'.length := by
    obtain ⟨⟨ds', rest'⟩, hds, heq⟩ := Option.map_eq_some_iff.mp h
    obtain ⟨rfl, rfl⟩ := Prod.mk.inj heq
    exact Nat.le_of_lt (readDigits_lt hds)
  unfold readExponent at h
  cases b with
  | nil =>
    obtain ⟨rfl, rfl⟩ := Prod.mk.inj (Option.some.inj h)
    exact Nat.le_refl _
  | cons e b =>
    dsimp only at h
    split_ifs at h
    · cases b with
      | nil => cases h
      | cons s b =>
        dsimp only at h
        split_ifs at h
        · have := hread (f := fun ds => e :: s :: ds) h
          simp only [List.length_cons]
          omega
        · exact (hread (f := fun ds => e :: ds) h).trans (Nat.le_succ _)
    · obtain ⟨rfl, rfl⟩ := Prod.mk.inj (Option.some.inj h)
      exact Nat.le_refl _

theorem readUnsigned_lt {b ds rest : List UInt8} (h : readUnsigned b = some (ds, rest)) : rest.length < b.length := by
  unfold readUnsigned at h
  obtain ⟨⟨int, b₁⟩, hint, h⟩ := Option.bind_eq_some_iff.mp h
  dsimp only at h
  split_ifs at h
  obtain ⟨⟨fraction, b₂⟩, hfraction, h⟩ := Option.bind_eq_some_iff.mp h
  obtain ⟨⟨exponent, b₃⟩, hexponent, h⟩ := Option.map_eq_some_iff.mp h
  obtain ⟨-, rfl⟩ := Prod.mk.inj h
  calc b₃.length
      _ ≤ b₂.length := readExponent_le hexponent
      _ ≤ b₁.length := readFraction_le hfraction
      _ < b.length := readDigits_lt hint

theorem readNumber_lt {b ds rest : List UInt8} (h : readNumber b = some (ds, rest)) : rest.length < b.length := by
  unfold readNumber at h
  split at h
  · obtain ⟨⟨ds', rest'⟩, hds, heq⟩ := Option.map_eq_some_iff.mp h
    obtain ⟨rfl, rfl⟩ := Prod.mk.inj heq
    exact Nat.lt_succ_of_lt (readUnsigned_lt hds)
  · exact readUnsigned_lt h

theorem readScalar_weight {b rest : List UInt8} {v : Json} (h : readScalar b = some (v, rest)) :
    rest.length + v.weight ≤ b.length := by
  have hword {w : List UInt8} (hw : w <+: b) : (b.drop w.length).length + w.length ≤ b.length := by
    have := hw.length_le
    rw [List.length_drop]
    omega
  unfold readScalar at h
  split_ifs at h with hnull htrue hfalse
  · obtain ⟨rfl, rfl⟩ := Prod.mk.inj (Option.some.inj h)
    exact le_trans (Nat.add_le_add_left (by decide) _) (hword hnull)
  · obtain ⟨rfl, rfl⟩ := Prod.mk.inj (Option.some.inj h)
    exact le_trans (Nat.add_le_add_left (by decide) _) (hword htrue)
  · obtain ⟨rfl, rfl⟩ := Prod.mk.inj (Option.some.inj h)
    exact le_trans (Nat.add_le_add_left (by decide) _) (hword hfalse)
  · obtain ⟨⟨ds, rest'⟩, hds, heq⟩ := Option.map_eq_some_iff.mp h
    obtain ⟨rfl, rfl⟩ := Prod.mk.inj heq
    exact readNumber_lt hds

theorem length_skipBlanks_le (b : List UInt8) : (skipBlanks b).length ≤ b.length := by
  unfold skipBlanks
  exact (List.dropWhile_suffix _).length_le

theorem length_of_skipBlanks {b rest : List UInt8} {c : UInt8} (h : skipBlanks b = c :: rest) :
    rest.length + 1 ≤ b.length := by
  have hle := length_skipBlanks_le b
  rwa [h, List.length_cons] at hle

theorem readName_weight {b key rest : List UInt8} (h : readName b = some (key, rest)) :
    rest.length + escapedLength key + 3 ≤ b.length := by
  unfold readName at h
  split at h
  · cases h
  · next c b₁ hb =>
    have hopen := length_of_skipBlanks hb
    split_ifs at h
    obtain ⟨⟨s, b₂⟩, hs, h⟩ := Option.bind_eq_some_iff.mp h
    have hstring := readString_weight hs
    dsimp only at h
    split at h
    · cases h
    · next c b₃ hb₃ =>
      have hcolon := length_of_skipBlanks hb₃
      split_ifs at h
      obtain ⟨rfl, rfl⟩ := Prod.mk.inj (Option.some.inj h)
      omega

theorem readElements_cases {depth : Nat} {b rest : List UInt8} {vs : List Json}
    (h : readElements (depth + 1) b = some (vs, rest)) :
    ∃ v b₁ c b₂, readValue depth b = some (v, b₁) ∧ skipBlanks b₁ = c :: b₂ ∧
      ((c = 44 ∧ ∃ vs', readElements depth b₂ = some (vs', rest) ∧ vs = v :: vs') ∨
        (c = 93 ∧ vs = [v] ∧ rest = b₂)) := by
  rw [readElements] at h
  obtain ⟨⟨v, b₁⟩, hv, h⟩ := Option.bind_eq_some_iff.mp h
  dsimp only at h
  split at h
  · cases h
  · next c b₂ hb =>
    refine ⟨v, b₁, c, b₂, hv, hb, ?_⟩
    split_ifs at h with hcomma hbracket
    · exact .inl ⟨hcomma, map_cons_eq_some h⟩
    · obtain ⟨rfl, rfl⟩ := Prod.mk.inj (Option.some.inj h)
      exact .inr ⟨hbracket, rfl, rfl⟩

theorem readMembers_cases {depth : Nat} {b rest : List UInt8} {ms : List (List UInt8 × Json)}
    (h : readMembers (depth + 1) b = some (ms, rest)) :
    ∃ key b₁ v b₂ c b₃, readName b = some (key, b₁) ∧ readValue depth b₁ = some (v, b₂) ∧ skipBlanks b₂ = c :: b₃ ∧
      ((c = 44 ∧ ∃ ms', readMembers depth b₃ = some (ms', rest) ∧ ms = (key, v) :: ms') ∨
        (c = 125 ∧ ms = [(key, v)] ∧ rest = b₃)) := by
  rw [readMembers] at h
  obtain ⟨⟨key, b₁⟩, hkey, h⟩ := Option.bind_eq_some_iff.mp h
  obtain ⟨⟨v, b₂⟩, hv, h⟩ := Option.bind_eq_some_iff.mp h
  dsimp only at h
  split at h
  · cases h
  · next c b₃ hb =>
    refine ⟨key, b₁, v, b₂, c, b₃, hkey, hv, hb, ?_⟩
    split_ifs at h with hcomma hbrace
    · exact .inl ⟨hcomma, map_cons_eq_some h⟩
    · obtain ⟨rfl, rfl⟩ := Prod.mk.inj (Option.some.inj h)
      exact .inr ⟨hbrace, rfl, rfl⟩

/-- The bytes that are read are enough for what is read. -/
theorem read_weight (depth : Nat) :
    (∀ b v rest, readValue depth b = some (v, rest) → rest.length + v.weight ≤ b.length) ∧
    (∀ b vs rest, readElements depth b = some (vs, rest) → rest.length + elementsWeight vs ≤ b.length) ∧
    (∀ b ms rest, readMembers depth b = some (ms, rest) → rest.length + membersWeight ms ≤ b.length) := by
  induction depth with
  | zero =>
    refine ⟨?_, ?_, ?_⟩
    · intro b v rest h
      cases h
    · intro b v rest h
      cases h
    · intro b v rest h
      cases h
  | succ depth ih =>
    obtain ⟨ihvalue, ihelements, ihmembers⟩ := ih
    refine ⟨?_, ?_, ?_⟩
    · intro b v rest h
      rw [readValue] at h
      cases hb : skipBlanks b with
      | nil =>
        rw [hb] at h
        cases h
      | cons c b₁ =>
        have hlen := length_of_skipBlanks hb
        have hskip := length_skipBlanks_le b₁
        rw [hb] at h
        dsimp only at h
        split_ifs at h with hquote harray hempty hobject hempty
        · obtain ⟨⟨s, rest'⟩, hs, heq⟩ := Option.map_eq_some_iff.mp h
          obtain ⟨rfl, rfl⟩ := Prod.mk.inj heq
          have := readString_weight hs
          simp only [weight]
          omega
        · obtain ⟨rfl, rfl⟩ := Prod.mk.inj (Option.some.inj h)
          simp only [weight, elementsWeight, List.length_tail]
          omega
        · obtain ⟨⟨vs, rest'⟩, hvs, heq⟩ := Option.map_eq_some_iff.mp h
          obtain ⟨rfl, rfl⟩ := Prod.mk.inj heq
          have := ihelements _ _ _ hvs
          simp only [weight]
          omega
        · obtain ⟨rfl, rfl⟩ := Prod.mk.inj (Option.some.inj h)
          simp only [weight, membersWeight, List.length_tail]
          omega
        · obtain ⟨⟨ms, rest'⟩, hms, heq⟩ := Option.map_eq_some_iff.mp h
          obtain ⟨rfl, rfl⟩ := Prod.mk.inj heq
          have := ihmembers _ _ _ hms
          simp only [weight]
          omega
        · have := readScalar_weight h
          rw [List.length_cons] at this
          omega
    · intro b vs rest h
      obtain ⟨v, b₁, c, b₂, hv, hc, h⟩ := readElements_cases h
      have hvalue := ihvalue b v b₁ hv
      have hlen := length_of_skipBlanks hc
      rcases h with ⟨-, vs', hvs, rfl⟩ | ⟨-, rfl, rfl⟩
      · have := ihelements _ _ _ hvs
        simp only [elementsWeight]
        omega
      · simp only [elementsWeight]
        omega
    · intro b ms rest h
      obtain ⟨key, b₁, v, b₂, c, b₃, hkey, hv, hc, h⟩ := readMembers_cases h
      have hname := readName_weight hkey
      have hvalue := ihvalue _ _ _ hv
      have hlen := length_of_skipBlanks hc
      rcases h with ⟨-, ms', hms, rfl⟩ | ⟨-, rfl, rfl⟩
      · have := ihmembers _ _ _ hms
        simp only [membersWeight]
        omega
      · simp only [membersWeight]
        omega

theorem membersWeight_eq_sum (ms : List (List UInt8 × Json)) :
    membersWeight ms = (ms.map fun m => escapedLength m.1 + 3 + m.2.weight + 1).sum := by
  induction ms with
  | nil => rfl
  | cons m ms ih =>
    rw [membersWeight, ih, List.map_cons, List.sum_cons]

theorem membersWeight_le_of_subset {ms ms' : List (List UInt8 × Json)} (hnodup : (ms.map Prod.fst).Nodup)
    (h : ms ⊆ ms') : membersWeight ms ≤ membersWeight ms' := by
  obtain ⟨ms₁, hperm, hsub⟩ := List.subperm_of_subset hnodup.of_map h
  rw [membersWeight_eq_sum, membersWeight_eq_sum, ← (hperm.map _).sum_eq]
  exact (hsub.map _).sum_le_sum fun _ _ => Nat.zero_le _

theorem mem_of_lookup {name : List UInt8} {ms : List (List UInt8 × Json)} {v : Json} (h : ms.lookup name = some v) :
    (name, v) ∈ ms := by
  obtain ⟨l₁, l₂, rfl, -⟩ := List.lookup_eq_some_iff.mp h
  simp

/-! ## The steps of the reader -/

section

variable {depth : Nat} {key b b₁ b₂ b₃ : List UInt8} {v : Json}

theorem readElements_comma (hv : readValue depth b = some (v, b₁)) (hc : skipBlanks b₁ = 44 :: b₂) :
    readElements (depth + 1) b = (readElements depth b₂).map fun (vs, rest) => (v :: vs, rest) := by
  rw [readElements, hv, Option.bind_some]
  dsimp only
  rw [hc]
  rfl

theorem readElements_bracket (hv : readValue depth b = some (v, b₁)) (hc : skipBlanks b₁ = 93 :: b₂) :
    readElements (depth + 1) b = some ([v], b₂) := by
  rw [readElements, hv, Option.bind_some]
  dsimp only
  rw [hc]
  rfl

theorem readMembers_comma (hkey : readName b = some (key, b₁)) (hv : readValue depth b₁ = some (v, b₂))
    (hc : skipBlanks b₂ = 44 :: b₃) :
    readMembers (depth + 1) b = (readMembers depth b₃).map fun (ms, rest) => ((key, v) :: ms, rest) := by
  rw [readMembers, hkey, Option.bind_some]
  dsimp only
  rw [hv, Option.bind_some]
  dsimp only
  rw [hc]
  rfl

theorem readMembers_brace (hkey : readName b = some (key, b₁)) (hv : readValue depth b₁ = some (v, b₂))
    (hc : skipBlanks b₂ = 125 :: b₃) : readMembers (depth + 1) b = some ([(key, v)], b₃) := by
  rw [readMembers, hkey, Option.bind_some]
  dsimp only
  rw [hv, Option.bind_some]
  dsimp only
  rw [hc]
  rfl

end

/-! ## What is read is the only thing -/

theorem read_succ (depth : Nat) :
    (∀ b r, readValue depth b = some r → readValue (depth + 1) b = some r) ∧
    (∀ b r, readElements depth b = some r → readElements (depth + 1) b = some r) ∧
    (∀ b r, readMembers depth b = some r → readMembers (depth + 1) b = some r) := by
  induction depth with
  | zero =>
    refine ⟨?_, ?_, ?_⟩
    · intro b r h
      cases h
    · intro b r h
      cases h
    · intro b r h
      cases h
  | succ depth ih =>
    obtain ⟨ihvalue, ihelements, ihmembers⟩ := ih
    refine ⟨?_, ?_, ?_⟩
    · intro b r h
      rw [readValue] at h ⊢
      cases hb : skipBlanks b with
      | nil =>
        rw [hb] at h
        cases h
      | cons c b₁ =>
        rw [hb] at h
        dsimp only at h ⊢
        split_ifs at h ⊢ with hquote harray hempty hobject hempty
        · exact h
        · exact h
        · obtain ⟨x, hx, rfl⟩ := Option.map_eq_some_iff.mp h
          rw [ihelements _ _ hx]
          rfl
        · exact h
        · obtain ⟨x, hx, rfl⟩ := Option.map_eq_some_iff.mp h
          rw [ihmembers _ _ hx]
          rfl
        · exact h
    · rintro b ⟨vs, rest⟩ h
      obtain ⟨v, b₁, c, b₂, hv, hc, h⟩ := readElements_cases h
      rcases h with ⟨rfl, vs', hvs, rfl⟩ | ⟨rfl, rfl, rfl⟩
      · rw [readElements_comma (ihvalue _ _ hv) hc, ihelements _ _ hvs]
        rfl
      · exact readElements_bracket (ihvalue _ _ hv) hc
    · rintro b ⟨ms, rest⟩ h
      obtain ⟨key, b₁, v, b₂, c, b₃, hkey, hv, hc, h⟩ := readMembers_cases h
      rcases h with ⟨rfl, ms', hms, rfl⟩ | ⟨rfl, rfl, rfl⟩
      · rw [readMembers_comma hkey (ihvalue _ _ hv) hc, ihmembers _ _ hms]
        rfl
      · exact readMembers_brace hkey (ihvalue _ _ hv) hc

theorem readValue_mono {m n : Nat} (h : m ≤ n) {b : List UInt8} {r : Json × List UInt8} (hr : readValue m b = some r) :
    readValue n b = some r := by
  induction h with
  | refl => exact hr
  | step _ ih => exact (read_succ _).1 b r ih

theorem readValue_unique {m n : Nat} {b : List UInt8} {r s : Json × List UInt8} (hr : readValue m b = some r)
    (hs : readValue n b = some s) : r = s := by
  have hm := readValue_mono (le_max_left m n) hr
  rw [readValue_mono (le_max_right m n) hs] at hm
  exact (Option.some.inj hm).symm

theorem Document.unique {b : List UInt8} {v w : Json} (hv : Document b v) (hw : Document b w) : v = w := by
  obtain ⟨m, rest, hv, -⟩ := hv
  obtain ⟨n, rest', hw, -⟩ := hw
  exact (Prod.mk.inj (readValue_unique hv hw)).1

/-! ## Texts without escapes -/

theorem pieces_plain {s : List UInt8} (rest : List UInt8) (h : ∀ c ∈ s, Plain c) :
    pieces (s ++ 34 :: rest) = some (s.map Piece.byte, rest) := by
  induction s with
  | nil =>
    unfold pieces
    rfl
  | cons c s ih =>
    obtain ⟨⟨hquote, hslash, hlow⟩, hs⟩ := List.forall_mem_cons.mp h
    unfold pieces
    simp only [List.cons_append]
    rw [if_neg hquote, if_neg hslash, if_neg (UInt8.not_lt.mpr hlow), ih hs]
    rfl

theorem assemble_bytes (s : List UInt8) : assemble (s.map Piece.byte) = some s := by
  induction s with
  | nil => rfl
  | cons c s ih =>
    rw [List.map_cons, assemble, ih]
    rfl

theorem readString_plain {s : List UInt8} (rest : List UInt8) (h : ∀ c ∈ s, Plain c) :
    readString (s ++ 34 :: rest) = some (s, rest) := by
  rw [readString, pieces_plain rest h, Option.bind_some]
  dsimp only
  rw [assemble_bytes, Option.map_some]

theorem skipBlanks_cons {c : UInt8} (b : List UInt8) (h : isBlank c = false) : skipBlanks (c :: b) = c :: b :=
  List.dropWhile_cons_of_neg (by simp [h])

/-- A string in its quotes. -/
def quoted (s : List UInt8) : List UInt8 := 34 :: s ++ [34]

theorem readName_quoted {key : List UInt8} (rest : List UInt8) (h : ∀ c ∈ key, Plain c) :
    readName (quoted key ++ 58 :: rest) = some (key, rest) := by
  rw [quoted, List.append_assoc, List.cons_append, readName, skipBlanks_cons _ (by decide)]
  dsimp only
  rw [if_pos rfl, List.singleton_append, readString_plain _ h, Option.bind_some]
  dsimp only
  rw [skipBlanks_cons _ (by decide)]
  rfl

theorem readValue_quoted (depth : Nat) {s : List UInt8} (rest : List UInt8) (h : ∀ c ∈ s, Plain c) :
    readValue (depth + 1) (quoted s ++ rest) = some (.string s, rest) := by
  rw [quoted, List.append_assoc, List.cons_append, readValue, skipBlanks_cons _ (by decide)]
  dsimp only
  rw [if_pos rfl, List.singleton_append, readString_plain _ h, Option.map_some]

theorem readValue_object (depth : Nat) (key b : List UInt8) :
    readValue (depth + 1) (123 :: (quoted key ++ b)) =
      (readMembers depth (quoted key ++ b)).map fun (ms, rest) => (.object ms, rest) := by
  rw [readValue, skipBlanks_cons _ (by decide)]
  dsimp only
  rw [if_neg (by decide), if_neg (by decide), if_pos rfl, quoted, List.cons_append, List.cons_append,
    skipBlanks_cons _ (by decide), if_neg (by simp)]

theorem readValue_array (depth : Nat) (b : List UInt8) :
    readValue (depth + 1) (91 :: 123 :: b) =
      (readElements depth (123 :: b)).map fun (vs, rest) => (.array vs, rest) := by
  rw [readValue, skipBlanks_cons _ (by decide)]
  dsimp only
  rw [if_neg (by decide), if_pos rfl, skipBlanks_cons _ (by decide), if_neg (by simp)]

theorem readMembers_quoted {depth : Nat} {key b rest : List UInt8} {ms : List (List UInt8 × Json)}
    (hkey : ∀ c ∈ key, Plain c) (h : readMembers depth (quoted key ++ 58 :: b) = some (ms, rest)) :
    ∃ n v b₁ c b₂, readValue n b = some (v, b₁) ∧ skipBlanks b₁ = c :: b₂ ∧
      ((c = 44 ∧ ∃ ms', readMembers n b₂ = some (ms', rest) ∧ ms = (key, v) :: ms') ∨
        (c = 125 ∧ ms = [(key, v)] ∧ rest = b₂)) := by
  cases depth with
  | zero => cases h
  | succ n =>
    obtain ⟨key', b', v, b₁, c, b₂, hname, h⟩ := readMembers_cases h
    rw [readName_quoted b hkey] at hname
    obtain ⟨rfl, rfl⟩ := Prod.mk.inj (Option.some.inj hname)
    exact ⟨n, v, b₁, c, b₂, h⟩

end Json

end Tiodb.Lib
