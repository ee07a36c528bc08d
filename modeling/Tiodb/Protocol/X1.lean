import Tiodb.Lib.Hexadecimal
import Tiodb.Protocol.TextEvents

/-!
# Lists of fields as text

`Serialize` of `TioTcpServer.cpp`, `x1_decode` of `tioclient.c` and `decode` of
`tioclient.py`. The text is a header with the number of the fields, and the size and
the type of each, and then the values. Both readers step over a blank after every
value; the writer has none after a field without a value.
-/

namespace Tiodb.X1

open Lib
open Text (PyData pyInt)

/-! ## The writer -/

section Writer

/- How a stream writes a `double`. -/
variable (doubles : UInt64 → Bytes)

/-- The type code and the text of the datum that a field points to. -/
def fieldValue : Option TioData → Option (UInt8 × Bytes)
  | some (.string s) => some (83, cstr s)
  | some (.int i) => some (73, intDigits i.toInt)
  | some (.double bits) => some (68, doubles bits)
  | some .none | none => none

def typeCode (field : Option TioData) : UInt8 := (fieldValue doubles field).elim 88 Prod.fst

def fieldText (field : Option TioData) : Bytes := (fieldValue doubles field).elim [] Prod.snd

/-- What a field adds to the header. -/
def fieldHeader (field : Option TioData) : Bytes :=
  hexPadded 4 ((fieldText doubles field).length % 2 ^ 32) ++ [typeCode doubles field]

/-- What a field adds to the values. -/
def separated (field : Option TioData) : Bytes := (fieldValue doubles field).elim [] fun v => v.2 ++ [32]

def serialize (fields : List (Option TioData)) : Bytes :=
  ascii "X1" ++ hexPadded 4 fields.length ++ ascii "C" ++ fields.flatMap (fieldHeader doubles) ++ ascii " " ++
    fields.flatMap (separated doubles)

end Writer

/-! ## The reader of the C client -/

/-- `X1_FIELD` -/
structure Field where
  dataType : UInt8
  value : Bytes
  deriving DecidableEq, Repr

/-- `b[i] = '\0'`; `none` is a write past the end. -/
def poke (b : Bytes) (i : Nat) : Option Bytes := if i < b.length then some (b.set i 0) else none

/-- The C string at a position; `none` is a read past the end. -/
def cstrAt (b : Bytes) (i : Nat) : Option Bytes := if 0 ∈ b.drop i then some (cstr (b.drop i)) else none

/-- The loop over the fields that are left. An inner `none` is a null pointer. The size stays as it is where there is
no number. -/
def decodeFields (size : Nat) :
    Nat → Nat → Bytes → Nat → Option UInt32 → Option (Option (List Field))
  | 0, _, _, _, _ => some (some [])
  | k + 1, a, bufferCopy, currentData, fieldDataSize => do
    let fieldSpecOffset := (7 + 5 * a) % 2 ^ 32
    let codeOffset := (fieldSpecOffset + 4) % 2 ^ 32
    if size < codeOffset then some none
    else
      let dataType ← bufferCopy[codeOffset]?
      let bufferCopy ← poke bufferCopy codeOffset
      let spec ← cstrAt bufferCopy fieldSpecOffset
      let fieldDataSize ← (scanHex spec).or fieldDataSize
      let bufferCopy ← poke bufferCopy (currentData + fieldDataSize.toNat)
      let value ← cstrAt bufferCopy currentData
      let ret ← decodeFields size k (a + 1) bufferCopy (currentData + fieldDataSize.toNat + 1) (some fieldDataSize)
      some (ret.map (⟨dataType, value⟩ :: ·))

def x1Decode (buffer : Bytes) (size : UInt32) : Option (Option (List Field)) := do
  if buffer.length < 2 then none
  else if buffer.take 2 ≠ ascii "X1" then some none
  else if buffer.length < size.toNat then none
  else if size.toNat < 6 then some none
  else
    let bufferCopy ← poke (buffer.take size.toNat) 6
    let count ← cstrAt bufferCopy 2
    let fieldCount ← scanHex count
    let offset := (7 + 5 * fieldCount + 1).toNat
    if size.toNat < offset then some none
    else decodeFields size.toNat fieldCount.toNat 0 bufferCopy offset none

/-! ## The reader of the Python client -/

section Python

/- `Decimal(s)` -/
variable (toDecimal : Bytes → Option Rat)

def pyItem (dataType fieldValue : Bytes) : Option PyData :=
  if dataType = ascii "D" then (toDecimal fieldValue).map .decimal
  else if dataType = ascii "I" then (pyInt fieldValue).map .int
  else if dataType = ascii "X" then some .none
  else some (.str fieldValue)

/-- A character of the text is a byte. `none` is an exception. -/
def pyFields (value : Bytes) : Nat → Nat → Int → Option (List PyData)
  | 0, _, _ => some []
  | k + 1, x, currentDataOffset => do
    let sizeStart : Int := 2 + 5 * (x + 1)
    let fieldSize ← pyHexInt (pySlice value sizeStart (some (sizeStart + 4)))
    let dataType := pySlice value (sizeStart + 4) (some (sizeStart + 5))
    let item ← pyItem toDecimal dataType (pySlice value currentDataOffset (some (currentDataOffset + fieldSize)))
    let ret ← pyFields value k (x + 1) (currentDataOffset + fieldSize + 1)
    some (item :: ret)

def pyDecode (value : Bytes) : Option (List PyData) := do
  if pySlice value 0 (some 2) ≠ ascii "X1" then none
  else
    let fieldCount ← pyHexInt (pySlice value 2 (some 6))
    pyFields toDecimal value fieldCount.toNat 0 (2 + 1 + (fieldCount + 1) * 5)

end Python

variable (doubles : UInt64 → Bytes) (toDecimal : Bytes → Option Rat)

/-- Both readers make the fields of the text. -/
def Gives (fields : List (Option TioData)) : Prop :=
  let text := serialize doubles fields
  x1Decode text (UInt32.ofNat text.length) =
      some (some (fields.map fun field => ⟨typeCode doubles field, fieldText doubles field⟩)) ∧
    pyDecode toDecimal text = some (fields.map fun field => field.elim .none PyData.of)

instance (fields : List (Option TioData)) : Decidable (Gives doubles toDecimal fields) :=
  inferInstanceAs (Decidable (_ ∧ _))

/-- A field of the format: none, a whole number, or a string that C can hold and four digits can count. -/
def Allowed : Option TioData → Prop
  | some (.string s) => 0 ∉ s ∧ s.length ≤ 0xFFFF
  | some (.double _) => False
  | some (.int _) | some .none | none => True

instance : DecidablePred Allowed
  | some (.string s) => inferInstanceAs (Decidable (0 ∉ s ∧ s.length ≤ 0xFFFF))
  | some (.double _) => isFalse id
  | some (.int _) | some .none | none => isTrue trivial

def absent (field : Option TioData) : Bool := field.elim true TioData.isNull

variable {doubles toDecimal} {fields : List (Option TioData)} {field : Option TioData}

/-! ## One field of the format -/

theorem length_fieldText_le (h : Allowed field) : (fieldText doubles field).length ≤ 0xFFFF := by
  match field, h with
  | some (.string s), h =>
    rw [fieldText, fieldValue, cstr_eq_self h.1]
    exact h.2
  | some (.int i), _ =>
    have := length_intDigits_le i
    change (intDigits i.toInt).length ≤ _
    omega
  | some .none, _ => exact Nat.zero_le _
  | none, _ => exact Nat.zero_le _

theorem zero_not_mem_fieldText (h : Allowed field) : 0 ∉ fieldText doubles field := by
  match field, h with
  | some (.string s), h =>
    rw [fieldText, fieldValue, cstr_eq_self h.1]
    exact h.1
  | some (.int i), _ => exact not_mem_intDigits rfl (by decide)
  | some .none, _ => exact List.not_mem_nil
  | none, _ => exact List.not_mem_nil

theorem fieldHeader_eq (h : Allowed field) :
    fieldHeader doubles field = hexPadded 4 (fieldText doubles field).length ++ [typeCode doubles field] := by
  have hle : (fieldText doubles field).length ≤ 0xFFFF := length_fieldText_le h
  rw [fieldHeader, Nat.mod_eq_of_lt (by omega)]

theorem length_hexPadded_four {n : Nat} (h : n ≤ 0xFFFF) : (hexPadded 4 n).length = 4 := length_hexPadded (by omega)

theorem length_fieldHeader (h : Allowed field) : (fieldHeader doubles field).length = 5 := by
  rw [fieldHeader_eq h, List.length_append, length_hexPadded_four (length_fieldText_le h)]
  rfl

theorem length_fieldHeaders (h : ∀ field ∈ fields, Allowed field) :
    (fields.flatMap (fieldHeader doubles)).length = 5 * fields.length := by
  induction fields with
  | nil => rfl
  | cons field fields ih =>
    rw [List.flatMap_cons, List.length_append, length_fieldHeader (h field (by simp)),
      ih fun g hg => h g (by simp [hg]), List.length_cons]
    omega

theorem separated_of_present (h : absent field = false) :
    separated doubles field = fieldText doubles field ++ [32] := by
  match field, h with
  | some (.string _), _ => rfl
  | some (.int _), _ => rfl
  | some (.double _), _ => rfl

theorem length_separated (field : Option TioData) :
    (separated doubles field).length + (if absent field then 1 else 0) = (fieldText doubles field).length + 1 := by
  match field with
  | some (.string _) => simp [separated, fieldText, fieldValue, absent, TioData.isNull]
  | some (.int _) => simp [separated, fieldText, fieldValue, absent, TioData.isNull]
  | some (.double _) => simp [separated, fieldText, fieldValue, absent, TioData.isNull]
  | some .none => rfl
  | none => rfl

/-! ## Reading what was written -/

theorem poke_append (x y : Bytes) (c : UInt8) : poke (x ++ c :: y) x.length = some (x ++ 0 :: y) := by
  unfold poke
  rw [if_pos (by simp)]
  simp

theorem poke_append_right (x y : Bytes) (i : Nat) :
    poke (x ++ y) (x.length + i) = if i < y.length then some (x ++ y.set i 0) else none := by
  unfold poke
  simp

theorem cstrAt_append_right (x y : Bytes) (i : Nat) : cstrAt (x ++ y) (x.length + i) = cstrAt y i := by
  unfold cstrAt
  rw [List.drop_append, List.drop_of_length_le (Nat.le_add_right _ _), Nat.add_sub_cancel_left, List.nil_append]

theorem cstr_append {x : Bytes} (h : 0 ∉ x) (y : Bytes) : cstr (x ++ 0 :: y) = x := (takeWhile_append_cons h y).1

theorem cstrAt_append {h : Bytes} (hh : 0 ∉ h) (x y : Bytes) : cstrAt (x ++ (h ++ 0 :: y)) x.length = some h := by
  have hskip := cstrAt_append_right x (h ++ 0 :: y) 0
  rw [Nat.add_zero] at hskip
  rw [hskip, cstrAt, List.drop_zero, if_pos (by simp), cstr_append hh]

theorem zero_not_mem_hexPadded (width n : Nat) : 0 ∉ hexPadded width n := fun h =>
  (isHexDigit_plain (isHexDigit_of_mem h)).2.2.2.2.2 rfl

theorem hexPadded_ne_nil {n : Nat} (h : n ≤ 0xFFFF) : hexPadded 4 n ≠ [] := by
  intro hnil
  have hlength := length_hexPadded_four h
  rw [hnil] at hlength
  cases hlength

theorem scanHex_padded {n : Nat} (h : n ≤ 0xFFFF) : scanHex (hexPadded 4 n) = some (UInt32.ofNat n) := by
  rw [scanHex_of_digits (hexPadded_ne_nil h) fun c hc => isHexDigit_of_mem hc, hexValue_hexPadded]

/-- One turn of the loop: the header is read where it stands, and the value ends at a NUL put behind it. -/
theorem decodeFields_step {before specs values : Bytes} {a k n offset size : Nat} {code : UInt8} {d : Option UInt32}
    (hbefore : before.length = 7 + 5 * a) (ha : a ≤ 0xFFFF) (hn : n ≤ 0xFFFF)
    (hsize : 7 + 5 * a + 5 ≤ size) :
    decodeFields size (k + 1) a (before ++ (hexPadded 4 n ++ code :: (specs ++ 32 :: values)))
        (before.length + 5 + specs.length + 1 + offset) d =
      if offset + n < values.length then
        (decodeFields size k (a + 1) (before ++ hexPadded 4 n ++ [0] ++ (specs ++ 32 :: values.set (offset + n) 0))
          (before.length + 5 + specs.length + 1 + (offset + n + 1)) (some (UInt32.ofNat n))).map
            (Option.map (⟨code, cstr ((values.set (offset + n) 0).drop offset)⟩ :: ·))
      else none := by
  have hspec : (7 + 5 * a) % 2 ^ 32 = before.length := by omega
  have hcode : (before.length + 4) % 2 ^ 32 = (before ++ hexPadded 4 n).length := by
    rw [List.length_append, length_hexPadded_four hn]
    omega
  have htoNat : (UInt32.ofNat n).toNat = n := by
    rw [UInt32.toNat_ofNat']
    omega
  have hroom : ¬size < (before ++ hexPadded 4 n).length := by
    rw [List.length_append, length_hexPadded_four hn]
    omega
  have hfront : (before ++ hexPadded 4 n ++ [0] ++ specs ++ [32]).length = before.length + 5 + specs.length + 1 := by
    simp [length_hexPadded_four hn]
    omega
  have hbuffer (v : Bytes) : before ++ hexPadded 4 n ++ [0] ++ (specs ++ 32 :: v) =
      (before ++ hexPadded 4 n ++ [0] ++ specs ++ [32]) ++ v := by simp
  have hget : (before ++ (hexPadded 4 n ++ code :: (specs ++ 32 :: values)))[(before ++ hexPadded 4 n).length]? =
      some code := by
    rw [← List.append_assoc]
    simp
  have hpoke : poke (before ++ (hexPadded 4 n ++ code :: (specs ++ 32 :: values))) (before ++ hexPadded 4 n).length =
      some (before ++ (hexPadded 4 n ++ 0 :: (specs ++ 32 :: values))) := by
    rw [← List.append_assoc, poke_append, List.append_assoc]
  rw [decodeFields, hbuffer, ← hfront]
  simp only [hspec, hcode, if_neg hroom, hget, hpoke, cstrAt_append (zero_not_mem_hexPadded 4 n), scanHex_padded hn,
    Option.bind_eq_bind, Option.bind_some, Option.some_or, htoNat]
  have hpoked : before ++ (hexPadded 4 n ++ 0 :: (specs ++ 32 :: values)) =
      (before ++ hexPadded 4 n ++ [0] ++ specs ++ [32]) ++ values := by simp
  rw [hpoked, Nat.add_assoc, poke_append_right]
  split_ifs with hlt
  · have hnul : 0 ∈ (values.set (offset + n) 0).drop offset := by
      refine List.mem_of_getElem? (i := n) ?_
      rw [List.getElem?_drop, List.getElem?_set_self hlt]
    rw [Option.bind_some, cstrAt_append_right, cstrAt, if_pos hnul, Option.bind_some, Nat.add_assoc]
    exact (Option.map_eq_bind ..).symm
  · rfl

/-! ## The C client -/

theorem decodeFields_within {before values : Bytes} {a offset size : Nat} {d : Option UInt32} {ret : List Field}
    (hf : ∀ field ∈ fields, Allowed field) (hbefore : before.length = 7 + 5 * a) (ha : a + fields.length ≤ 0xFFFF)
    (hsize : 7 + 5 * (a + fields.length) ≤ size) (hoffset : offset ≤ values.length)
    (h : decodeFields size fields.length a (before ++ (fields.flatMap (fieldHeader doubles) ++ 32 :: values))
      (before.length + 5 * fields.length + 1 + offset) d = some (some ret)) :
    offset + (fields.map fun field => (fieldText doubles field).length + 1).sum ≤ values.length := by
  induction fields generalizing before values a offset d ret with
  | nil => simpa using hoffset
  | cons field fields ih =>
    have hfield := hf field (by simp)
    have hrest : ∀ g ∈ fields, Allowed g := fun g hg => hf g (by simp [hg])
    have hle : (fieldText doubles field).length ≤ 0xFFFF := length_fieldText_le hfield
    have hspecs : (fields.flatMap (fieldHeader doubles)).length = 5 * fields.length := length_fieldHeaders hrest
    have hcount : (field :: fields).length = fields.length + 1 := rfl
    have hbuffer : (field :: fields).flatMap (fieldHeader doubles) ++ 32 :: values =
        hexPadded 4 (fieldText doubles field).length ++ typeCode doubles field ::
          (fields.flatMap (fieldHeader doubles) ++ 32 :: values) := by
      rw [List.flatMap_cons, fieldHeader_eq hfield]
      simp
    have hposition : before.length + 5 * (field :: fields).length + 1 + offset =
        before.length + 5 + (fields.flatMap (fieldHeader doubles)).length + 1 + offset := by
      rw [hspecs, List.length_cons]
      omega
    rw [hbuffer, hposition, List.length_cons, decodeFields_step hbefore (by omega) hle (by omega)] at h
    split_ifs at h with hlt
    obtain ⟨r, hr, hret⟩ := Option.map_eq_some_iff.mp h
    obtain ⟨ret', rfl, -⟩ := Option.map_eq_some_iff.mp hret
    have hfront : (before ++ hexPadded 4 (fieldText doubles field).length ++ [0]).length = before.length + 5 := by
      simp [length_hexPadded_four hle]
    rw [← hfront, hspecs] at hr
    have hnext := ih hrest (by omega) (by omega) (by omega) (by rw [List.length_set]; exact hlt) hr
    rw [List.length_set] at hnext
    rw [List.map_cons, List.sum_cons]
    omega

theorem decodeFields_present {before done : Bytes} {a size : Nat} {d : Option UInt32}
    (hf : ∀ field ∈ fields, Allowed field) (hpresent : ∀ field ∈ fields, absent field = false)
    (hbefore : before.length = 7 + 5 * a) (ha : a + fields.length ≤ 0xFFFF)
    (hsize : 7 + 5 * (a + fields.length) ≤ size) :
    decodeFields size fields.length a
        (before ++ (fields.flatMap (fieldHeader doubles) ++ 32 :: (done ++ fields.flatMap (separated doubles))))
        (before.length + 5 * fields.length + 1 + done.length) d =
      some (some (fields.map fun field => ⟨typeCode doubles field, fieldText doubles field⟩)) := by
  induction fields generalizing before done a d with
  | nil => rfl
  | cons field fields ih =>
    have hfield := hf field (by simp)
    have hrest : ∀ g ∈ fields, Allowed g := fun g hg => hf g (by simp [hg])
    have hle : (fieldText doubles field).length ≤ 0xFFFF := length_fieldText_le hfield
    have hspecs : (fields.flatMap (fieldHeader doubles)).length = 5 * fields.length := length_fieldHeaders hrest
    have hcount : (field :: fields).length = fields.length + 1 := rfl
    have hvalues : done ++ (field :: fields).flatMap (separated doubles) =
        done ++ fieldText doubles field ++ 32 :: fields.flatMap (separated doubles) := by
      rw [List.flatMap_cons, separated_of_present (hpresent field (by simp))]
      simp
    have hbuffer : (field :: fields).flatMap (fieldHeader doubles) ++
        32 :: (done ++ (field :: fields).flatMap (separated doubles)) =
        hexPadded 4 (fieldText doubles field).length ++ typeCode doubles field ::
          (fields.flatMap (fieldHeader doubles) ++
            32 :: (done ++ fieldText doubles field ++ 32 :: fields.flatMap (separated doubles))) := by
      rw [hvalues, List.flatMap_cons, fieldHeader_eq hfield]
      simp
    have hposition : before.length + 5 * (field :: fields).length + 1 + done.length =
        before.length + 5 + (fields.flatMap (fieldHeader doubles)).length + 1 + done.length := by
      rw [hspecs, List.length_cons]
      omega
    -- the NUL is put on the blank behind the value
    have hset : (done ++ fieldText doubles field ++ 32 :: fields.flatMap (separated doubles)).set
        (done.length + (fieldText doubles field).length) 0 =
        (done ++ fieldText doubles field ++ [0]) ++ fields.flatMap (separated doubles) := by
      rw [← List.length_append, List.set_append_right _ _ (le_refl _)]
      simp
    have hvalue : cstr (((done ++ fieldText doubles field ++ [0]) ++ fields.flatMap (separated doubles)).drop
        done.length) = fieldText doubles field := by
      rw [List.append_assoc, List.append_assoc, List.drop_left]
      exact cstr_append (zero_not_mem_fieldText hfield) _
    have hfront : (before ++ hexPadded 4 (fieldText doubles field).length ++ [0]).length = before.length + 5 := by
      simp [length_hexPadded_four hle]
    have hdone : done.length + (fieldText doubles field).length + 1 =
        (done ++ fieldText doubles field ++ [0]).length := by
      simp [Nat.add_assoc]
    rw [hbuffer, hposition, List.length_cons, decodeFields_step hbefore (by omega) hle (by omega), if_pos (by simp),
      hset, hvalue, ← hfront, hspecs, hdone,
      ih hrest (fun g hg => hpresent g (by simp [hg])) (by omega) (by omega) (by omega)]
    rfl

theorem x1Decode_serialize (hcount : fields.length ≤ 0xFFFF) (hf : ∀ field ∈ fields, Allowed field) {size : UInt32}
    (hsize : size.toNat ≤ (serialize doubles fields).length) {ret : List Field} :
    x1Decode (serialize doubles fields) size = some (some ret) ↔
      8 + 5 * fields.length ≤ size.toNat ∧
        decodeFields size.toNat fields.length 0
          (ascii "X1" ++ hexPadded 4 fields.length ++ [0] ++ (fields.flatMap (fieldHeader doubles) ++
            32 :: (fields.flatMap (separated doubles)).take (size.toNat - (8 + 5 * fields.length))))
          (8 + 5 * fields.length) none = some (some ret) := by
  have hheader := length_hexPadded_four hcount
  have hspecs : (fields.flatMap (fieldHeader doubles)).length = 5 * fields.length := length_fieldHeaders hf
  have htext : serialize doubles fields = ascii "X1" ++ hexPadded 4 fields.length ++ 67 ::
      (fields.flatMap (fieldHeader doubles) ++ 32 :: fields.flatMap (separated doubles)) := by
    simp [serialize, ascii]
  have hfront : (ascii "X1" ++ hexPadded 4 fields.length).length = 6 := by
    simp [hheader, ascii]
  have hlong : ¬(serialize doubles fields).length < 2 := by
    rw [htext, List.length_append, hfront]
    omega
  have hmark : (serialize doubles fields).take 2 = ascii "X1" := by
    rw [htext, List.append_assoc]
    exact List.take_left' rfl
  unfold x1Decode
  rw [if_neg hlong, if_neg (not_not.mpr hmark), if_neg (Nat.not_lt.mpr hsize)]
  by_cases hshort : size.toNat ≤ 6
  · refine iff_of_false ?_ (by omega)
    split_ifs with hsix
    · simp
    · have hpoke : poke ((serialize doubles fields).take size.toNat) 6 = none := if_neg (by
        rw [List.length_take]
        omega)
      simp [hpoke]
  · obtain ⟨m, hm⟩ : ∃ m, size.toNat = 6 + (m + 1) := ⟨size.toNat - 7, by omega⟩
    have htake : (serialize doubles fields).take size.toNat = ascii "X1" ++ hexPadded 4 fields.length ++ 67 ::
        (fields.flatMap (fieldHeader doubles) ++ 32 :: fields.flatMap (separated doubles)).take m := by
      rw [htext, hm, ← hfront, List.take_length_add_append]
      rfl
    have hpoke (y : Bytes) : poke (ascii "X1" ++ hexPadded 4 fields.length ++ 67 :: y) 6 =
        some (ascii "X1" ++ (hexPadded 4 fields.length ++ 0 :: y)) := by
      rw [← hfront, poke_append, List.append_assoc]
    have hscan (y : Bytes) : cstrAt (ascii "X1" ++ (hexPadded 4 fields.length ++ 0 :: y)) 2 =
        some (hexPadded 4 fields.length) := cstrAt_append (zero_not_mem_hexPadded 4 _) (ascii "X1") y
    have htoNat : (UInt32.ofNat fields.length).toNat = fields.length := by
      rw [UInt32.toNat_ofNat']
      omega
    have hoffset : (7 + 5 * UInt32.ofNat fields.length + 1).toNat = 8 + 5 * fields.length := by
      simp [UInt32.toNat_add, UInt32.toNat_mul]
      omega
    rw [if_neg (by omega), htake]
    simp only [hpoke, hscan, scanHex_padded hcount, Option.bind_eq_bind, Option.bind_some, hoffset, htoNat]
    split_ifs with hlt
    · exact iff_of_false (by simp) (by omega)
    · obtain ⟨j, rfl⟩ : ∃ j, m = 5 * fields.length + (j + 1) := ⟨m - (5 * fields.length + 1), by omega⟩
      have hvalues : size.toNat - (8 + 5 * fields.length) = j := by omega
      have hbuffer (y : Bytes) : ascii "X1" ++ (hexPadded 4 fields.length ++ 0 :: y) =
          ascii "X1" ++ hexPadded 4 fields.length ++ [0] ++ y := by simp
      have hlow : 8 + 5 * fields.length ≤ size.toNat := by omega
      rw [hvalues, ← hspecs, List.take_length_add_append, hspecs, hbuffer, and_iff_right hlow]
      rfl

theorem length_serialize (doubles : UInt64 → Bytes) (hcount : fields.length ≤ 0xFFFF)
    (hf : ∀ field ∈ fields, Allowed field) :
    (serialize doubles fields).length = 8 + 5 * fields.length + (fields.flatMap (separated doubles)).length := by
  have hspecs : (fields.flatMap (fieldHeader doubles)).length = 5 * fields.length := length_fieldHeaders hf
  simp only [serialize, List.length_append, length_hexPadded_four hcount, hspecs, ascii]
  simp
  omega

/-- Each field without a value leaves the values one byte short of what the readers step over. -/
theorem length_values (doubles : UInt64 → Bytes) (fields : List (Option TioData)) :
    (fields.flatMap (separated doubles)).length + fields.countP absent =
      (fields.map fun field => (fieldText doubles field).length + 1).sum := by
  induction fields with
  | nil => rfl
  | cons field fields ih =>
    have hfield : (separated doubles field).length + (if absent field then 1 else 0) = _ := length_separated field
    rw [List.flatMap_cons, List.length_append, List.countP_cons, List.map_cons, List.sum_cons]
    omega

/-- The C client gives the fields exactly if none is without a value, and its size can count the text. -/
theorem x1Decode_iff (hcount : fields.length ≤ 0xFFFF) (hf : ∀ field ∈ fields, Allowed field) :
    x1Decode (serialize doubles fields) (UInt32.ofNat (serialize doubles fields).length) =
        some (some (fields.map fun field => ⟨typeCode doubles field, fieldText doubles field⟩)) ↔
      (∀ field ∈ fields, absent field = false) ∧
        8 + 5 * fields.length + (fields.map fun field => (fieldText doubles field).length + 1).sum < 2 ^ 32 := by
  have hlength := length_serialize doubles hcount hf
  have hvalues := length_values doubles fields
  have habsent : (∀ field ∈ fields, absent field = false) ↔ fields.countP absent = 0 := by
    rw [List.countP_eq_zero]
    simp
  have hsize : (UInt32.ofNat (serialize doubles fields).length).toNat = (serialize doubles fields).length % 2 ^ 32 :=
    UInt32.toNat_ofNat'
  have hfront : (ascii "X1" ++ hexPadded 4 fields.length ++ [0]).length = 7 := by
    simp [length_hexPadded_four hcount, ascii]
  have hposition : 8 + 5 * fields.length =
      (ascii "X1" ++ hexPadded 4 fields.length ++ [0]).length + 5 * fields.length + 1 + ([] : Bytes).length := by
    rw [hfront, List.length_nil]
    omega
  rw [x1Decode_serialize hcount hf (by rw [hsize]; exact Nat.mod_le _ _), hsize, habsent]
  constructor
  · rintro ⟨hlow, hd⟩
    rw [hposition] at hd
    have hwithin := decodeFields_within (a := 0) hf hfront (by omega) (by omega) (Nat.zero_le _) hd
    rw [List.length_take] at hwithin
    omega
  · rintro ⟨hpresent, hfits⟩
    have hmod : (serialize doubles fields).length % 2 ^ 32 = (serialize doubles fields).length :=
      Nat.mod_eq_of_lt (by omega)
    refine ⟨by omega, ?_⟩
    rw [hmod, List.take_of_length_le (by omega), hposition, ← List.nil_append (fields.flatMap (separated doubles))]
    refine decodeFields_present (a := 0) hf (habsent.mpr hpresent) hfront (by omega) ?_
    omega

/-! ## The Python client -/

theorem pySlice_append (x y z : Bytes) {i j : Int} (hi : i = x.length) (hj : j = x.length + y.length) :
    pySlice (x ++ (y ++ z)) i (some j) = y := by
  have hfirst : pyBound i (x ++ (y ++ z)).length = x.length := by
    rw [hi, pyBound, if_neg (by omega)]
    simp
  have hlast : pyBound j (x ++ (y ++ z)).length = x.length + y.length := by
    rw [hj, pyBound, if_neg (by omega)]
    simp
    omega
  unfold pySlice
  rw [Option.map_some, hfirst, hlast]
  dsimp only [Option.getD_some]
  rw [List.drop_left, Nat.add_sub_cancel_left, List.take_left]

theorem pyItem_present (hf : Allowed field) (h : absent field = false) :
    pyItem toDecimal [typeCode doubles field] (fieldText doubles field) = some (field.elim .none PyData.of) := by
  match field, hf, h with
  | some (.string s), hf, _ =>
    rw [fieldText, fieldValue, cstr_eq_self hf.1]
    rfl
  | some (.int i), _, _ =>
    have hint : pyInt (fieldText doubles (some (.int i))) = some i.toInt := Text.pyInt_intDigits i
    have hcode : [typeCode doubles (some (.int i))] = ascii "I" := rfl
    rw [pyItem, hcode, if_neg (by decide), if_pos rfl, hint]
    rfl

theorem pyFields_present {value before rest done : Bytes} {x : Nat} (hf : ∀ field ∈ fields, Allowed field)
    (hpresent : ∀ field ∈ fields, absent field = false) (hbefore : before.length = 7 + 5 * x)
    (hheader : value = before ++ (fields.flatMap (fieldHeader doubles) ++ rest))
    (hvalues : value = done ++ fields.flatMap (separated doubles)) :
    pyFields toDecimal value fields.length x done.length =
      some (fields.map fun field => field.elim .none PyData.of) := by
  induction fields generalizing before done x with
  | nil => rfl
  | cons field fields ih =>
    have hfield := hf field (by simp)
    have hle : (fieldText doubles field).length ≤ 0xFFFF := length_fieldText_le hfield
    rw [List.flatMap_cons, fieldHeader_eq hfield] at hheader
    rw [List.flatMap_cons, separated_of_present (hpresent field (by simp))] at hvalues
    have hsize : pySlice value (2 + 5 * (x + 1)) (some (2 + 5 * (x + 1) + 4)) =
        hexPadded 4 (fieldText doubles field).length := by
      rw [hheader, List.append_assoc, List.append_assoc]
      exact pySlice_append _ _ _ (by omega) (by rw [length_hexPadded_four hle]; omega)
    have hcode : pySlice value (2 + 5 * (x + 1) + 4) (some (2 + 5 * (x + 1) + 5)) = [typeCode doubles field] := by
      rw [hheader, List.append_assoc, List.append_assoc, ← List.append_assoc before]
      exact pySlice_append _ _ _ (by simp [length_hexPadded_four hle]; omega)
        (by simp [length_hexPadded_four hle]; omega)
    have hvalue : pySlice value done.length (some (done.length + (fieldText doubles field).length)) =
        fieldText doubles field := by
      rw [hvalues, List.append_assoc]
      exact pySlice_append _ _ _ rfl rfl
    have hheader' : value = before ++ (hexPadded 4 (fieldText doubles field).length ++ [typeCode doubles field]) ++
        (fields.flatMap (fieldHeader doubles) ++ rest) := by
      rw [hheader]
      simp
    have hvalues' : value = done ++ (fieldText doubles field ++ [32]) ++ fields.flatMap (separated doubles) := by
      rw [hvalues]
      simp
    have hnext := ih (x := x + 1) (fun g hg => hf g (by simp [hg])) (fun g hg => hpresent g (by simp [hg]))
      (by simp [length_hexPadded_four hle]; omega) hheader' hvalues'
    have hdone : (done.length : Int) + ((fieldText doubles field).length : Nat) + 1 =
        ((done ++ (fieldText doubles field ++ [32])).length : Nat) := by
      simp
      omega
    rw [List.length_cons, pyFields, hsize, hcode, pyHexInt_of_digits (hexPadded_ne_nil hle) fun c hc =>
      isHexDigit_of_mem hc, hexValue_hexPadded]
    simp only [Option.bind_eq_bind, Option.bind_some, hvalue, pyItem_present hfield (hpresent field (by simp)), hdone,
      hnext]
    rfl

/-- The fields come back exactly if none is without a value, and the size of the C client can count the text. -/
theorem gives_iff (doubles : UInt64 → Bytes) (toDecimal : Bytes → Option Rat) {fields : List (Option TioData)}
    (hcount : fields.length ≤ 0xFFFF) (hf : ∀ field ∈ fields, Allowed field) :
    Gives doubles toDecimal fields ↔
      (∀ field ∈ fields, absent field = false) ∧
        8 + 5 * fields.length + (fields.map fun field => (fieldText doubles field).length + 1).sum < 2 ^ 32 := by
  rw [Gives, x1Decode_iff hcount hf, and_iff_left_iff_imp]
  rintro ⟨hpresent, -⟩
  have hheader := length_hexPadded_four hcount
  have hspecs : (fields.flatMap (fieldHeader doubles)).length = 5 * fields.length := length_fieldHeaders hf
  have hmark : pySlice (serialize doubles fields) 0 (some 2) = ascii "X1" := by
    rw [serialize, List.append_assoc, List.append_assoc, List.append_assoc, List.append_assoc]
    exact pySlice_append [] (ascii "X1") _ rfl rfl
  have hdigits : pySlice (serialize doubles fields) 2 (some 6) = hexPadded 4 fields.length := by
    rw [serialize, List.append_assoc, List.append_assoc, List.append_assoc, List.append_assoc]
    refine pySlice_append (ascii "X1") (hexPadded 4 fields.length) _ rfl ?_
    rw [hheader]
    rfl
  have hbefore : serialize doubles fields = ascii "X1" ++ hexPadded 4 fields.length ++ ascii "C" ++
      (fields.flatMap (fieldHeader doubles) ++ (ascii " " ++ fields.flatMap (separated doubles))) := by
    simp [serialize]
  have hdone : (2 + 1 + ((fields.length : Int) + 1) * 5) = ((ascii "X1" ++ hexPadded 4 fields.length ++ ascii "C" ++
      fields.flatMap (fieldHeader doubles) ++ ascii " ").length : Nat) := by
    simp [hheader, hspecs, ascii]
    omega
  rw [pyDecode, hmark, hdigits, if_neg (not_not.mpr rfl), pyHexInt_of_digits (hexPadded_ne_nil hcount) fun c hc =>
    isHexDigit_of_mem hc, hexValue_hexPadded]
  simp only [Option.bind_eq_bind, Option.bind_some, Int.toNat_natCast, hdone]
  exact pyFields_present (x := 0) hf hpresent (by simp [hheader, ascii]) hbefore rfl

theorem gives_three :
    Gives (fun _ => []) (fun _ => none) [some (.string (ascii "a b")), some (.int (-7)), some (.string [])] :=
  (gives_iff (fun _ => []) (fun _ => none) (by decide) (by decide)).mpr (by decide)

/-- The blank that is not there for the first field is taken from the second. -/
theorem none_shifts_the_next :
    ¬Gives (fun _ => []) (fun _ => none) [none, some (.string (ascii "ab"))] ∧
      pyDecode (fun _ => none) (serialize (fun _ => []) [none, some (.string (ascii "ab"))]) =
        some [.none, .str (ascii "b ")] := by
  decide +kernel

end Tiodb.X1
