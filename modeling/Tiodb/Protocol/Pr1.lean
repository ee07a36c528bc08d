import Tiodb.Data
import Tiodb.Lib.LittleEndian

/-!
# Binary messages

`pr1_message_parse` of `tioclient.c`, the functions that read a parsed message, and
`pr1_message_add_field`, which writes one. A pointer into the message is an offset
into the received payload, and `none` is a read of a byte that was not received. The
asserts are compiled out.
-/

namespace Tiodb.Pr1

open Lib

/-- `PR1_MESSAGE_HEADER` -/
structure Header where
  messageSize : UInt32
  fieldCount : UInt16
  debugSessionSeqNum : UInt16
  deriving DecidableEq, Repr

/-- `PR1_MESSAGE_FIELD_HEADER` -/
structure FieldHeader where
  fieldId : UInt16
  dataType : UInt16
  dataSize : UInt32
  deriving DecidableEq, Repr

/-- A header, and the payload that was received after it. -/
structure Received where
  header : Header
  payload : Bytes
  complete : payload.length = header.messageSize.toNat

/-- `TIO_DATA_TYPE_NONE`, and the other types of a field. -/
def fieldTypeNone : UInt16 := 1
def fieldTypeString : UInt16 := 2
def fieldTypeInt : UInt16 := 3
def fieldTypeDouble : UInt16 := 4

/-! ## Writing -/

def FieldHeader.encode (f : FieldHeader) : Bytes :=
  toLE 2 f.fieldId.toNat ++ toLE 2 f.dataType.toNat ++ toLE 4 f.dataSize.toNat

/-- The bytes that `pr1_message_add_field` appends. -/
def addField (fieldId dataType : UInt16) (buffer : Bytes) : Bytes :=
  FieldHeader.encode ⟨fieldId, dataType, UInt32.ofNat buffer.length⟩ ++ buffer

/-! ## Reading -/

def FieldHeader.decode : Bytes → Option FieldHeader
  | i0 :: i1 :: t0 :: t1 :: s0 :: s1 :: s2 :: s3 :: _ =>
    some ⟨UInt16.ofNat (ofLE [i0, i1]), UInt16.ofNat (ofLE [t0, t1]), UInt32.ofNat (ofLE [s0, s1, s2, s3])⟩
  | _ => none

/-- The header of the field that a pointer of the field array points to. -/
def fieldAt (payload : Bytes) (field : Nat) : Option FieldHeader :=
  FieldHeader.decode (payload.drop field)

/-- Bytes of the payload. `none` is a read behind its end. -/
def read (payload : Bytes) (offset n : Nat) : Option Bytes :=
  if offset + n ≤ payload.length then some ((payload.drop offset).take n) else none

/-- The loop of `pr1_message_parse`, with the fields left and the `current` pointer. -/
def parseFrom (payload : Bytes) : Nat → Nat → Option (List Nat)
  | 0, _ => some []
  | fields + 1, current =>
    (fieldAt payload current).bind fun f =>
      (parseFrom payload fields (current + (f.dataSize.toNat + 8))).map fun rest => current :: rest

/-- `pr1_message_parse`: the field array. No message is rejected. -/
def parse (m : Received) : Option (List Nat) := parseFrom m.payload m.header.fieldCount.toNat 0

/-- `pr1_message_field_find_by_id`: the inner `none` is `NULL`. -/
def findById (payload : Bytes) (fieldId : UInt32) : List Nat → Option (Option Nat)
  | [] => some none
  | field :: rest =>
    (fieldAt payload field).bind fun f =>
      if f.fieldId.toUInt32 = fieldId then some (some field) else findById payload fieldId rest

/-- `pr1_message_field_get_int`: four bytes, whatever the data size. -/
def getInt (payload : Bytes) (field : Nat) : Option Int32 :=
  (read payload (field + 8) 4).map fun b => Int32.ofNat (ofLE b)

/-- `pr1_message_field_get_double` -/
def getDouble (payload : Bytes) (field : Nat) : Option UInt64 :=
  (read payload (field + 8) 8).map fun b => UInt64.ofNat (ofLE b)

/-- `Pr1MessageToCppTioData` -/
def toCppTioData (payload : Bytes) (field : Nat) : Option TioData :=
  (fieldAt payload field).bind fun f =>
    if f.dataType = fieldTypeString then (read payload (field + 8) f.dataSize.toNat).map .string
    else if f.dataType = fieldTypeInt then (getInt payload field).map .int
    else if f.dataType = fieldTypeDouble then (getDouble payload field).map .double
    else some .none

/-! ## What a peer may send -/

/-- Every entry of the field array is inside the payload, and nothing that reads it leaves the payload.
`pr1_message_field_get_int` is asked of int fields only, which its callers in the server and in the converters look
for first; `pr1_message_get_error_code` and the readers of commands in `tioclient.c` pick a field by its id alone. -/
def ReadsReceived (m : Received) : Prop :=
  ∃ fields, parse m = some fields ∧
    (∀ field ∈ fields, ∃ f, fieldAt m.payload field = some f ∧ field + 8 + f.dataSize.toNat ≤ m.payload.length) ∧
    (∀ fieldId, (findById m.payload fieldId fields).isSome) ∧
    ∀ field ∈ fields, (toCppTioData m.payload field).isSome ∧
      ∀ f, fieldAt m.payload field = some f → f.dataType = fieldTypeInt → (getInt m.payload field).isSome

/-- A field of a number type has the bytes of its number. -/
def Holds (dataType : UInt16) (b : Bytes) : Prop :=
  (dataType = fieldTypeInt → 4 ≤ b.length) ∧ (dataType = fieldTypeDouble → 8 ≤ b.length)

/-- Bytes that start with so many fields as `pr1_message_add_field` writes them, where the payload
does not end inside the number of a field of a number type. -/
def StartsWithFields : Nat → Bytes → Prop
  | 0, _ => True
  | fields + 1, b => ∃ fieldId dataType buffer rest, b = addField fieldId dataType buffer ++ rest ∧
      buffer.length < 2 ^ 32 ∧ Holds dataType (buffer ++ rest) ∧ StartsWithFields fields rest

/-! ## Field headers -/

theorem FieldHeader.length_encode (f : FieldHeader) : f.encode.length = 8 := by
  simp [FieldHeader.encode]

theorem FieldHeader.decode_encode (f : FieldHeader) (rest : Bytes) :
    FieldHeader.decode (f.encode ++ rest) = some f := by
  have hid : ofLE (toLE 2 f.fieldId.toNat) = f.fieldId.toNat := ofLE_toLE f.fieldId.toNat_lt
  have htype : ofLE (toLE 2 f.dataType.toNat) = f.dataType.toNat := ofLE_toLE f.dataType.toNat_lt
  have hsize : ofLE (toLE 4 f.dataSize.toNat) = f.dataSize.toNat := ofLE_toLE f.dataSize.toNat_lt
  simp only [toLE] at hid htype hsize
  simp only [FieldHeader.encode, toLE, List.cons_append, List.nil_append, FieldHeader.decode, hid, htype, hsize,
    UInt16.ofNat_toNat, UInt32.ofNat_toNat]

theorem FieldHeader.eq_encode_of_decode {b : Bytes} {f : FieldHeader} (h : FieldHeader.decode b = some f) :
    ∃ rest, b = f.encode ++ rest := by
  unfold FieldHeader.decode at h
  split at h
  case h_2 => cases h
  case h_1 i0 i1 t0 t1 s0 s1 s2 s3 rest =>
    obtain rfl := Option.some.inj h
    refine ⟨rest, ?_⟩
    have h16 (bs : List UInt8) (hl : bs.length = 2) : toLE 2 (UInt16.ofNat (ofLE bs)).toNat = bs := by
      have hlt := ofLE_lt bs
      rw [hl] at hlt
      rw [UInt16.toNat_ofNat_of_lt' hlt, ← hl, toLE_ofLE]
    have h32 (bs : List UInt8) (hl : bs.length = 4) : toLE 4 (UInt32.ofNat (ofLE bs)).toNat = bs := by
      have hlt := ofLE_lt bs
      rw [hl] at hlt
      rw [UInt32.toNat_ofNat_of_lt' hlt, ← hl, toLE_ofLE]
    simp only [FieldHeader.encode]
    rw [h16 [i0, i1] rfl, h16 [t0, t1] rfl, h32 [s0, s1, s2, s3] rfl]
    rfl

/-! ## One field -/

/-- The entry at `field` can be read by everything that reads entries. -/
def Readable (payload : Bytes) (field : Nat) (f : FieldHeader) : Prop :=
  fieldAt payload field = some f ∧ field + 8 + f.dataSize.toNat ≤ payload.length ∧
    Holds f.dataType (payload.drop (field + 8))

def AllReadable (payload : Bytes) (count current : Nat) : Prop :=
  ∃ fields, parseFrom payload count current = some fields ∧ ∀ field ∈ fields, ∃ f, Readable payload field f

theorem read_isSome (payload : Bytes) (offset n : Nat) :
    (read payload offset n).isSome ↔ offset + n ≤ payload.length := by
  unfold read
  split_ifs with h <;> simp [h]

theorem fieldAt_le {payload : Bytes} {field : Nat} {f : FieldHeader} (h : fieldAt payload field = some f) :
    field + 8 ≤ payload.length := by
  obtain ⟨rest, hrest⟩ := FieldHeader.eq_encode_of_decode h
  have hlen := congrArg List.length hrest
  rw [List.length_drop, List.length_append, FieldHeader.length_encode] at hlen
  omega

theorem readable_iff {payload : Bytes} {field : Nat} {f : FieldHeader} (h : fieldAt payload field = some f) :
    Readable payload field f ↔
      field + 8 + f.dataSize.toNat ≤ payload.length ∧ (toCppTioData payload field).isSome := by
  have hle := fieldAt_le h
  have hint : (getInt payload field).isSome ↔ field + 12 ≤ payload.length := by
    rw [getInt, Option.isSome_map, read_isSome]
  have hdouble : (getDouble payload field).isSome ↔ field + 16 ≤ payload.length := by
    rw [getDouble, Option.isSome_map, read_isSome]
  have hstring : (read payload (field + 8) f.dataSize.toNat).isSome ↔
      field + 8 + f.dataSize.toNat ≤ payload.length := read_isSome _ _ _
  unfold Readable Holds toCppTioData
  rw [h, List.length_drop]
  simp only [true_and, Option.bind_some]
  split_ifs with hs hi hd <;> simp only [Option.isSome_map, hint, hdouble, hstring, Option.isSome_some]
  · simp only [hs]
    constructor
    · rintro ⟨h1, -⟩
      exact ⟨h1, h1⟩
    · rintro ⟨h1, -⟩
      exact ⟨h1, fun h => absurd h (by decide), fun h => absurd h (by decide)⟩
  · simp only [hi]
    constructor
    · rintro ⟨h1, h2, -⟩
      exact ⟨h1, by have := h2 trivial; omega⟩
    · rintro ⟨h1, h2⟩
      exact ⟨h1, fun _ => by omega, fun h => absurd h (by decide)⟩
  · simp only [hd]
    constructor
    · rintro ⟨h1, -, h2⟩
      exact ⟨h1, by have := h2 trivial; omega⟩
    · rintro ⟨h1, h2⟩
      exact ⟨h1, fun h => absurd h (by decide), fun _ => by omega⟩
  · simp [hi, hd]

theorem drop_field {payload rest : Bytes} {current n : Nat} {f : FieldHeader}
    (h : payload.drop current = f.encode ++ rest) : payload.drop (current + (n + 8)) = rest.drop n := by
  rw [Nat.add_comm n 8, ← Nat.add_assoc, ← List.drop_drop, ← List.drop_drop, h, ← f.length_encode, List.drop_left]

theorem readable_iff_addField {payload : Bytes} {current : Nat} {f : FieldHeader} :
    Readable payload current f ↔
      ∃ buffer rest, payload.drop current = addField f.fieldId f.dataType buffer ++ rest ∧
        buffer.length = f.dataSize.toNat ∧ Holds f.dataType (buffer ++ rest) := by
  constructor
  · rintro ⟨hf, hin, hholds⟩
    obtain ⟨rest, hrest⟩ := FieldHeader.eq_encode_of_decode hf
    have hdata : payload.drop (current + 8) = rest := by simpa using drop_field (n := 0) hrest
    have hlen : f.dataSize.toNat ≤ rest.length := by
      rw [← hdata, List.length_drop]
      omega
    refine ⟨rest.take f.dataSize.toNat, rest.drop f.dataSize.toNat, ?_, by simpa using hlen, ?_⟩
    · rw [addField, List.length_take, Nat.min_eq_left hlen, UInt32.ofNat_toNat, List.append_assoc,
        List.take_append_drop, hrest]
    · rwa [List.take_append_drop, ← hdata]
  · rintro ⟨buffer, rest, hdrop, hlen, hholds⟩
    have hf : addField f.fieldId f.dataType buffer = f.encode ++ buffer := by
      rw [addField, hlen, UInt32.ofNat_toNat]
    rw [hf, List.append_assoc] at hdrop
    have hdata : payload.drop (current + 8) = buffer ++ rest := by simpa using drop_field (n := 0) hdrop
    refine ⟨by rw [fieldAt, hdrop, FieldHeader.decode_encode], ?_, by rwa [hdata]⟩
    have hsize := congrArg List.length hdrop
    rw [List.length_drop, List.length_append, f.length_encode, List.length_append] at hsize
    omega

theorem allReadable_iff (payload : Bytes) (count current : Nat) :
    AllReadable payload count current ↔ StartsWithFields count (payload.drop current) := by
  induction count generalizing current with
  | zero => exact ⟨fun _ => trivial, fun _ => ⟨[], rfl, by simp⟩⟩
  | succ count ih =>
    constructor
    · rintro ⟨fields, hparse, hall⟩
      obtain ⟨f, hf, hmap⟩ := Option.bind_eq_some_iff.mp hparse
      obtain ⟨rest, hrest, rfl⟩ := Option.map_eq_some_iff.mp hmap
      obtain ⟨f', hread⟩ := hall current (by simp)
      obtain rfl : f = f' := Option.some.inj (hf.symm.trans hread.1)
      obtain ⟨buffer, tail, hdrop, hlen, hholds⟩ := readable_iff_addField.mp hread
      refine ⟨f.fieldId, f.dataType, buffer, tail, hdrop, by rw [hlen]; exact f.dataSize.toNat_lt, hholds, ?_⟩
      have hnext : payload.drop (current + (f.dataSize.toNat + 8)) = tail := by
        rw [addField, List.append_assoc] at hdrop
        rw [drop_field hdrop, ← hlen, List.drop_left]
      rw [← hnext, ← ih]
      exact ⟨rest, hrest, fun field hfield => hall field (by simp [hfield])⟩
    · rintro ⟨fieldId, dataType, buffer, tail, hdrop, hlt, hholds, htail⟩
      have hsize : (UInt32.ofNat buffer.length).toNat = buffer.length := UInt32.toNat_ofNat_of_lt' hlt
      have hread : Readable payload current ⟨fieldId, dataType, UInt32.ofNat buffer.length⟩ :=
        readable_iff_addField.mpr ⟨buffer, tail, hdrop, hsize.symm, hholds⟩
      have hnext : payload.drop (current + ((UInt32.ofNat buffer.length).toNat + 8)) = tail := by
        rw [addField, List.append_assoc] at hdrop
        rw [drop_field hdrop, hsize, List.drop_left]
      rw [← hnext, ← ih] at htail
      obtain ⟨rest, hrest, hall⟩ := htail
      refine ⟨current :: rest, ?_, ?_⟩
      · rw [parseFrom, hread.1, Option.bind_some, hrest]
        rfl
      · intro field hfield
        rcases List.mem_cons.mp hfield with rfl | hfield
        · exact ⟨_, hread⟩
        · exact hall field hfield

theorem findById_isSome {payload : Bytes} {fields : List Nat} (fieldId : UInt32)
    (h : ∀ field ∈ fields, ∃ f, Readable payload field f) : (findById payload fieldId fields).isSome := by
  induction fields with
  | nil => rfl
  | cons field fields ih =>
    obtain ⟨f, hf⟩ := h field (by simp)
    rw [findById, hf.1]
    simp only [Option.bind_some]
    split_ifs
    · rfl
    · exact ih fun field' h' => h field' (by simp [h'])

theorem readsReceived_iff (m : Received) :
    ReadsReceived m ↔ AllReadable m.payload m.header.fieldCount.toNat 0 := by
  constructor
  · rintro ⟨fields, hparse, hin, -, hdata⟩
    refine ⟨fields, hparse, fun field hfield => ?_⟩
    obtain ⟨f, hf, hle⟩ := hin field hfield
    exact ⟨f, (readable_iff hf).mpr ⟨hle, (hdata field hfield).1⟩⟩
  · rintro ⟨fields, hparse, hall⟩
    refine ⟨fields, hparse, fun field hfield => ?_, fun fieldId => findById_isSome fieldId hall,
      fun field hfield => ?_⟩
    · obtain ⟨f, hf⟩ := hall field hfield
      exact ⟨f, hf.1, hf.2.1⟩
    · obtain ⟨f, hf⟩ := hall field hfield
      refine ⟨((readable_iff hf.1).mp hf).2, fun f' hf' htype => ?_⟩
      obtain rfl : f = f' := Option.some.inj (hf.1.symm.trans hf')
      have hlen := hf.2.2.1 htype
      have hle := fieldAt_le hf'
      rw [List.length_drop] at hlen
      rw [getInt, Option.isSome_map, read_isSome]
      omega

/-- A message is read inside its payload exactly when the payload starts with as many fields as the
header says, and is long enough for their numbers. -/
theorem readsReceived_iff_startsWithFields (m : Received) :
    ReadsReceived m ↔ StartsWithFields m.header.fieldCount.toNat m.payload := by
  rw [readsReceived_iff, allReadable_iff, List.drop_zero]

theorem empty_payload_read_past : ¬ReadsReceived ⟨⟨0, 1, 0⟩, [], rfl⟩ := by
  rintro ⟨fields, hparse, -⟩
  cases hparse

end Tiodb.Pr1
