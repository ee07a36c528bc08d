import Tiodb.Lib.Decimal
import Tiodb.Server.DataCommand

/-!
# Lines of the transaction log

`SerializeTioData` and the texts of `LogMessage` in `BinaryProtocolLogger.h`, and
`LogEntry` of `tiologreplay.cpp`, which reads a line back. The writer puts the size
before each field; the reader cuts the whole line at its commas and joins what it
cut too often.
-/

namespace Tiodb

open Lib

/-- `lexical_cast<string>` of a `double`, and `std::stod`. -/
structure DoubleText where
  text : UInt64 → Bytes
  stod : Bytes → Option UInt64

structure LocalTime where
  year : Nat
  month : Nat
  day : Nat
  hour : Nat
  minute : Nat
  second : Nat
  milliseconds : Nat
  deriving DecidableEq, Repr

/-- `%0nd` -/
def zeroPadded (n k : Nat) : Bytes := List.replicate (n - (digits k).length) 48 ++ digits k

def LocalTime.text (t : LocalTime) : Bytes :=
  zeroPadded 4 t.year ++ ascii "-" ++ zeroPadded 2 t.month ++ ascii "-" ++ zeroPadded 2 t.day ++ ascii " " ++
    zeroPadded 2 t.hour ++ ascii ":" ++ zeroPadded 2 t.minute ++ ascii ":" ++ zeroPadded 2 t.second ++ ascii "." ++
    zeroPadded 3 t.milliseconds

def CommandCode.logName : CommandCode → Bytes
  | .pushBack => ascii "push_back"
  | .pushFront => ascii "push_front"
  | .popBack => ascii "pop_back"
  | .popFront => ascii "pop_front"
  | .set => ascii "set"
  | .insert => ascii "insert"
  | .delete => ascii "delete"
  | .clear => ascii "clear"
  | .propset => ascii "propset"

/-! ## The writer -/

namespace LogLine

variable (doubles : DoubleText)

def serializeTioData : TioData → Bytes
  | .none => ascii ",n,"
  | .string s => ascii ",s" ++ digits s.length ++ ascii "," ++ s
  | .int i =>
    let serialized := intDigits i.toInt
    ascii ",i" ++ digits serialized.length ++ ascii "," ++ serialized
  | .double bits =>
    let serialized := doubles.text bits
    ascii ",d" ++ digits serialized.length ++ ascii "," ++ serialized

/-- The line of a container's first `create` or `open`, less its line end. -/
def create (time : LocalTime) (handle : UInt32) (name type : Bytes) : Bytes :=
  time.text ++ ascii ",create," ++ digits handle.toNat ++ ascii ",s" ++ digits name.length ++ ascii "," ++ name ++
    ascii ",s" ++ digits type.length ++ ascii "," ++ type

def data (time : LocalTime) (handle : UInt32) (cmd : DataCommand) : Bytes :=
  time.text ++ ascii "," ++ cmd.code.logName ++ ascii "," ++ digits handle.toNat ++
    serializeTioData doubles cmd.key ++ serializeTioData doubles cmd.value ++ serializeTioData doubles cmd.metadata

end LogLine

/-! ## The reader -/

/-- The fields of the source that the replay uses. -/
structure LogEntry where
  command : Bytes
  handle : Int32
  key : TioData
  value : TioData
  deriving DecidableEq, Repr

namespace LogEntry

def split (str : Bytes) : List Bytes := str.splitOn 44

def join (strings : List Bytes) : Bytes := [44].intercalate strings

def endsWith (s suffix : Bytes) : Bool := suffix.isSuffixOf s

variable (doubles : DoubleText)

/-- The data and the size it has in the line, which `n` leaves as it was. `none` is an exception, or a read past the
end. -/
def deserialize (info data : Bytes) (size : Int32) : Option (TioData × Int32) :=
  match info with
  | 110 :: _ => some (.none, size)
  -- there is no number to read
  | [] => none
  | type :: info => do
    let size ← stoi info
    -- a negative size is a large one for `substr`
    let fieldData := if size < 0 then data else data.take size.toNatClampNeg
    let tioData ← match type with
      | 115 => if 0 ≤ size ∧ size.toNatClampNeg ≤ data.length then some (.string fieldData) else none
      | 105 => (stoi fieldData).map .int
      | 100 => (doubles.stod fieldData).map .double
      -- sent as no data
      | _ => some .none
    return (tioData, size)

/-- `rest.substr(size + 1, rest.size())` -/
def restAfter (rest : Bytes) (size : Int32) : Option Bytes :=
  if 0 ≤ size.toInt + 1 ∧ size.toInt + 1 < 2 ^ 31 ∧ size.toInt + 1 ≤ rest.length then
    some (rest.drop (size.toInt + 1).toNat)
  else none

def trim (line : Bytes) : Bytes :=
  if endsWith line (ascii ",n,") then line.take (line.length - 3) else line

def parse (line : Bytes) : Option LogEntry :=
  match split line with
  | _dateTime :: command :: handle :: keyInfo :: sub => do
    let handle ← stoi handle
    let rest := join sub
    let (key, size) ← deserialize doubles keyInfo rest 0
    let rest ← restAfter rest size
    match split rest with
    | valueInfo :: sub =>
      let (value, _) ← deserialize doubles valueInfo (join sub) size
      return ⟨command, handle, key, value⟩
    | [] => none
  | _ => none

/-- The constructor. -/
def ofLine (line : Bytes) : Option LogEntry := parse doubles (trim line)

end LogEntry

/-! ## Reading back what was written -/

/-- No number with a fraction, and no line end. -/
def TioData.Plain : TioData → Prop
  | .none => True
  | .int _ => True
  | .double _ => False
  | .string s => 10 ∉ s

/-- The size is an `int`, and so is the number after it. -/
def TioData.Short : TioData → Prop
  | .string s => s.length < 2 ^ 31 - 1
  | _ => True

instance : DecidablePred TioData.Plain
  | .none => isTrue trivial
  | .int _ => isTrue trivial
  | .double _ => isFalse id
  | .string s => inferInstanceAs (Decidable (10 ∉ s))

instance : DecidablePred TioData.Short
  | .none => isTrue trivial
  | .int _ => isTrue trivial
  | .double _ => isTrue trivial
  | .string s => inferInstanceAs (Decidable (s.length < 2 ^ 31 - 1))

namespace LogLine

variable (doubles : DoubleText)

/-- The type and the size of a field. -/
def info : TioData → Bytes
  | .none => ascii "n"
  | .string s => ascii "s" ++ digits s.length
  | .int i => ascii "i" ++ digits (intDigits i.toInt).length
  | .double bits => ascii "d" ++ digits (doubles.text bits).length

def body : TioData → Bytes
  | .none => []
  | .string s => s
  | .int i => intDigits i.toInt
  | .double bits => doubles.text bits

theorem serializeTioData_eq (d : TioData) :
    serializeTioData doubles d = 44 :: info doubles d ++ 44 :: body doubles d := by
  cases d <;> simp [serializeTioData, info, body, ascii]

theorem comma_not_mem_digits (n : Nat) : 44 ∉ digits n := not_mem_digits (by decide)

theorem line_end_not_mem_digits (n : Nat) : 10 ∉ digits n := not_mem_digits (by decide)

theorem comma_not_mem_info (d : TioData) : 44 ∉ info doubles d := by
  cases d <;> simp [info, ascii, comma_not_mem_digits]

theorem line_end_not_mem_serialize {d : TioData} (h : d.Plain) : 10 ∉ serializeTioData doubles d := by
  have hdigits := line_end_not_mem_digits
  cases d with
  | none => simp [serializeTioData, ascii]
  | string s => simpa [serializeTioData, ascii, hdigits, TioData.Plain] using h
  | int i => simpa [serializeTioData, ascii, hdigits] using not_mem_intDigits (by decide) (by decide)
  | double bits => exact h.elim

theorem zeroPadded_not_mem {c : UInt8} (hc : isDigit c = false) (n k : Nat) : c ∉ zeroPadded n k := by
  unfold zeroPadded
  rw [List.mem_append, List.mem_replicate]
  rintro (⟨-, rfl⟩ | h)
  · simp [isDigit] at hc
  · exact not_mem_digits hc h

theorem time_not_mem {c : UInt8} (hc : isDigit c = false) (hs : c ∉ ascii "- :.") (t : LocalTime) : c ∉ t.text := by
  simp only [ascii] at hs
  have hz := zeroPadded_not_mem hc
  unfold LocalTime.text
  simp_all [ascii]

theorem logName_not_mem (code : CommandCode) : 44 ∉ code.logName ∧ 10 ∉ code.logName := by
  cases code <;> decide

theorem split_cons {word rest : Bytes} (h : 44 ∉ word) :
    LogEntry.split (word ++ 44 :: rest) = word :: LogEntry.split rest :=
  List.splitOn_append_cons_self_of_not_mem h rest

theorem join_split (b : Bytes) : LogEntry.join (LogEntry.split b) = b := List.intercalate_splitOn 44

theorem toInt_ofNat {n : Nat} (h : n < 2 ^ 31) : (Int32.ofNat n).toInt = n := Int32.toInt_ofNat_of_lt h

theorem toNat_ofNat {n : Nat} (h : n < 2 ^ 31) : (Int32.ofNat n).toNatClampNeg = n := by
  rw [Int32.toNatClampNeg, toInt_ofNat h, Int.toNat_natCast]

theorem nonneg_ofNat {n : Nat} (h : n < 2 ^ 31) : 0 ≤ Int32.ofNat n := by
  rw [Int32.le_iff_toInt_le, toInt_ofNat h]
  simp

theorem length_intDigits (i : Int32) : (intDigits i.toInt).length < 2 ^ 31 - 1 :=
  lt_of_le_of_lt (length_intDigits_le i) (by decide)

theorem length_body {d : TioData} (hplain : d.Plain) (hshort : d.Short) : (body doubles d).length < 2 ^ 31 - 1 := by
  cases d with
  | none => exact Nat.zero_lt_succ _
  | string s => exact hshort
  | int i => exact length_intDigits i
  | double bits => exact hplain.elim

theorem ne_double {d : TioData} (hplain : d.Plain) (bits : UInt64) : d ≠ .double bits := by
  rintro rfl
  exact hplain

/-- A field is read back. Where there is no data, the size is left. -/
theorem deserialize_info {d : TioData} (hd : ∀ bits, d ≠ .double bits) (hbody : (body doubles d).length < 2 ^ 31)
    (rest : Bytes) (size : Int32) :
    ∃ size' : Int32, LogEntry.deserialize doubles (info doubles d) (body doubles d ++ rest) size = some (d, size') ∧
      (size = 0 → size'.toInt = (body doubles d).length) := by
  have hstoi := stoi_digits hbody
  have hnonneg : ¬ Int32.ofNat (body doubles d).length < 0 := Int32.not_lt.mpr (nonneg_ofNat hbody)
  have hnat := toNat_ofNat hbody
  cases d with
  | none =>
    refine ⟨size, rfl, ?_⟩
    rintro rfl
    rfl
  | string s =>
    refine ⟨Int32.ofNat s.length, ?_, fun _ => toInt_ofNat hbody⟩
    have hfits := nonneg_ofNat hbody
    simp only [body] at hstoi hnonneg hnat hfits
    simp [LogEntry.deserialize, info, ascii, body, hstoi, hnonneg, hnat, hfits]
  | int i =>
    refine ⟨Int32.ofNat (intDigits i.toInt).length, ?_, fun _ => toInt_ofNat hbody⟩
    simp only [body] at hstoi hnonneg hnat
    simp [LogEntry.deserialize, info, ascii, body, hstoi, hnonneg, hnat, stoi_intDigits]
  | double bits => exact absurd rfl (hd bits)

/-- A size that is too large for an `int` is no size. -/
theorem deserialize_large {d : TioData} (hbody : 2 ^ 31 ≤ (body doubles d).length) (data : Bytes) (size : Int32) :
    LogEntry.deserialize doubles (info doubles d) data size = none := by
  have hstoi := stoi_digits_of_le hbody
  cases d with
  | none => exact absurd hbody (by simp [body])
  | string s => simp [LogEntry.deserialize, info, ascii, show stoi (digits s.length) = none from hstoi]
  | int i =>
    simp [LogEntry.deserialize, info, ascii, show stoi (digits (intDigits i.toInt).length) = none from hstoi]
  | double bits =>
    simp [LogEntry.deserialize, info, ascii, show stoi (digits (doubles.text bits).length) = none from hstoi]

theorem restAfter_body {data rest : Bytes} {size : Int32} (hsize : size.toInt = data.length)
    (h : data.length < 2 ^ 31 - 1) : LogEntry.restAfter (data ++ 44 :: rest) size = some rest := by
  have hnat : (size.toInt + 1).toNat = data.length + 1 := by omega
  unfold LogEntry.restAfter
  rw [if_pos ⟨by omega, by omega, by simp; omega⟩, hnat, List.drop_length_add_append]
  rfl

/-- A line up to its value. -/
def fields (time command : Bytes) (handle : Nat) (key value : TioData) : Bytes :=
  time ++ 44 :: command ++ 44 :: digits handle ++ serializeTioData doubles key ++ serializeTioData doubles value

theorem parse_line {time command : Bytes} {key value : TioData} (htime : 44 ∉ time) (hcommand : 44 ∉ command)
    (handle : Nat) (rest : Bytes) :
    LogEntry.parse doubles (fields doubles time command handle key value ++ rest) =
      (stoi (digits handle)).bind fun h =>
        let rest := body doubles key ++ 44 :: (info doubles value ++ 44 :: (body doubles value ++ rest))
        (LogEntry.deserialize doubles (info doubles key) rest 0).bind fun p =>
          (LogEntry.restAfter rest p.2).bind fun rest =>
            match LogEntry.split rest with
            | valueInfo :: sub =>
              (LogEntry.deserialize doubles valueInfo (LogEntry.join sub) p.2).bind fun q => some ⟨command, h, p.1, q.1⟩
            | [] => none := by
  have hline : fields doubles time command handle key value ++ rest =
      time ++ 44 :: (command ++ 44 :: (digits handle ++ 44 :: (info doubles key ++ 44 ::
        (body doubles key ++ 44 :: (info doubles value ++ 44 :: (body doubles value ++ rest)))))) := by
    simp [fields, serializeTioData_eq]
  rw [hline, LogEntry.parse, split_cons htime, split_cons hcommand, split_cons (comma_not_mem_digits handle),
    split_cons (comma_not_mem_info doubles key)]
  dsimp only
  rw [join_split]
  rfl

theorem parse_fields {time command : Bytes} {handle : Nat} {key value : TioData} (htime : 44 ∉ time)
    (hcommand : 44 ∉ command) (hhandle : handle < 2 ^ 31)
    (hkey : (∀ bits, key ≠ .double bits) ∧ (body doubles key).length < 2 ^ 31 - 1)
    (hvalue : (∀ bits, value ≠ .double bits) ∧ (body doubles value).length < 2 ^ 31) (rest : Bytes) :
    LogEntry.parse doubles (fields doubles time command handle key value ++ rest) =
      some ⟨command, Int32.ofNat handle, key, value⟩ := by
  have hlt := hkey.2
  obtain ⟨size, hreadKey, hsize⟩ := deserialize_info doubles hkey.1 (by omega)
    (44 :: (info doubles value ++ 44 :: (body doubles value ++ rest))) 0
  obtain ⟨size', hreadValue, -⟩ := deserialize_info doubles hvalue.1 hvalue.2 rest size
  rw [parse_line doubles htime hcommand, stoi_digits hhandle, Option.bind_some]
  dsimp only
  rw [hreadKey, Option.bind_some, restAfter_body (hsize rfl) hkey.2, Option.bind_some,
    split_cons (comma_not_mem_info doubles value)]
  dsimp only
  rw [join_split, hreadValue]
  rfl

/-- A line that is read has a handle and sizes that are each an `int`, and so is the number after the key's. -/
theorem parse_fields_fits {time command : Bytes} {handle : Nat} {key value : TioData} {rest : Bytes} {e : LogEntry}
    (htime : 44 ∉ time) (hcommand : 44 ∉ command) (hkey : ∀ bits, key ≠ .double bits)
    (h : LogEntry.parse doubles (fields doubles time command handle key value ++ rest) = some e) :
    handle < 2 ^ 31 ∧ (body doubles key).length < 2 ^ 31 - 1 ∧ (body doubles value).length < 2 ^ 31 := by
  rw [parse_line doubles htime hcommand] at h
  obtain ⟨n, hstoi, h⟩ := Option.bind_eq_some_iff.mp h
  obtain ⟨p, hreadKey, h⟩ := Option.bind_eq_some_iff.mp h
  obtain ⟨rest', hrest, h⟩ := Option.bind_eq_some_iff.mp h
  have hhandle : handle < 2 ^ 31 := by
    by_contra hle
    rw [stoi_digits_of_le (by omega)] at hstoi
    cases hstoi
  have hfits : (body doubles key).length < 2 ^ 31 := by
    by_contra hle
    rw [deserialize_large doubles (by omega)] at hreadKey
    cases hreadKey
  obtain ⟨size, hread, hsize⟩ := deserialize_info doubles hkey hfits
    (44 :: (info doubles value ++ 44 :: (body doubles value ++ rest))) 0
  obtain rfl : (key, size) = p := Option.some.inj (hread.symm.trans hreadKey)
  have hshort : (body doubles key).length < 2 ^ 31 - 1 := by
    by_contra hle
    have hsize := hsize rfl
    rw [LogEntry.restAfter, if_neg (by dsimp only; omega)] at hrest
    cases hrest
  obtain rfl := Option.some.inj ((restAfter_body (hsize rfl) hshort).symm.trans hrest)
  refine ⟨hhandle, hshort, ?_⟩
  by_contra hle
  rw [split_cons (comma_not_mem_info doubles value)] at h
  dsimp only at h
  rw [deserialize_large doubles (by omega)] at h
  cases h

theorem length_serialize (d : TioData) : 3 ≤ (serializeTioData doubles d).length := by
  cases d <;> simp [serializeTioData, ascii] <;> omega

theorem trim_append (line : Bytes) (metadata : TioData) :
    ∃ rest, LogEntry.trim (line ++ serializeTioData doubles metadata) = line ++ rest := by
  have hlength := length_serialize doubles metadata
  unfold LogEntry.trim
  split
  · rw [List.length_append, Nat.add_sub_assoc hlength, List.take_length_add_append]
    exact ⟨_, rfl⟩
  · exact ⟨_, rfl⟩

theorem data_eq (time : LocalTime) (handle : UInt32) (cmd : DataCommand) : data doubles time handle cmd =
    fields doubles time.text cmd.code.logName handle.toNat cmd.key cmd.value ++
      serializeTioData doubles cmd.metadata := by
  simp [data, fields, ascii]

theorem ofLine_data (time : LocalTime) {handle : UInt32} {cmd : DataCommand} (hhandle : handle.toNat < 2 ^ 31)
    (hkey : cmd.key.Plain ∧ cmd.key.Short) (hvalue : cmd.value.Plain ∧ cmd.value.Short) :
    LogEntry.ofLine doubles (data doubles time handle cmd) =
      some ⟨cmd.code.logName, Int32.ofNat handle.toNat, cmd.key, cmd.value⟩ := by
  obtain ⟨rest, htrim⟩ := trim_append doubles
    (fields doubles time.text cmd.code.logName handle.toNat cmd.key cmd.value) cmd.metadata
  rw [LogEntry.ofLine, data_eq, htrim]
  exact parse_fields doubles (time_not_mem (by decide) (by decide) time) (logName_not_mem cmd.code).1 hhandle
    ⟨ne_double hkey.1, length_body doubles hkey.1 hkey.2⟩
    ⟨ne_double hvalue.1, lt_trans (length_body doubles hvalue.1 hvalue.2) (by decide)⟩ rest

/-- A type has no comma, and so its line does not end as if there was no metadata. -/
theorem trim_type {line type : Bytes} (htype : type ≠ []) (hcomma : 44 ∉ type) :
    LogEntry.trim (line ++ type) = line ++ type := by
  unfold LogEntry.trim
  rw [if_neg]
  intro hends
  obtain ⟨before, hbefore⟩ := List.isSuffixOf_iff_suffix.mp hends
  obtain rfl | ⟨init, c, rfl⟩ := List.eq_nil_or_concat type
  · exact htype rfl
  · have hlast := congrArg List.getLast? hbefore
    rw [List.concat_eq_append, ← List.append_assoc, List.getLast?_concat] at hlast
    simp only [ascii] at hlast
    simp at hlast hcomma
    exact hcomma.2 hlast

theorem ofLine_create (time : LocalTime) {handle : UInt32} {name type : Bytes} (hhandle : handle.toNat < 2 ^ 31)
    (hname : (TioData.string name).Plain ∧ (TioData.string name).Short)
    (htype : (TioData.string type).Plain ∧ (TioData.string type).Short) (hne : type ≠ []) (hcomma : 44 ∉ type) :
    LogEntry.ofLine doubles (create time handle name type) =
      some ⟨ascii "create", Int32.ofNat handle.toNat, .string name, .string type⟩ := by
  have hline : create time handle name type =
      fields doubles time.text (ascii "create") handle.toNat (.string name) (.string type) := by
    simp [create, fields, serializeTioData, ascii]
  have htrim : LogEntry.trim (create time handle name type) = create time handle name type := trim_type hne hcomma
  have hparse := @parse_fields doubles _ (ascii "create") _ _ _ (time_not_mem (by decide) (by decide) time) (by decide)
    hhandle ⟨ne_double hname.1, hname.2⟩ ⟨ne_double htype.1, lt_trans htype.2 (by decide)⟩ []
  rw [List.append_nil] at hparse
  rw [LogEntry.ofLine, htrim, hline, hparse]

theorem line_end_not_mem_fields {time command : Bytes} {key value : TioData} (handle : Nat) (htime : 10 ∉ time)
    (hcommand : 10 ∉ command) (hkey : key.Plain) (hvalue : value.Plain) :
    10 ∉ fields doubles time command handle key value := by
  have hk := line_end_not_mem_serialize doubles hkey
  have hv := line_end_not_mem_serialize doubles hvalue
  have hd := line_end_not_mem_digits handle
  simp_all [fields]

theorem line_end_not_mem_data (time : LocalTime) (handle : UInt32) {cmd : DataCommand} (hkey : cmd.key.Plain)
    (hvalue : cmd.value.Plain) (hmetadata : cmd.metadata.Plain) : 10 ∉ data doubles time handle cmd := by
  rw [data_eq, List.mem_append, not_or]
  exact ⟨line_end_not_mem_fields doubles _ (time_not_mem (by decide) (by decide) time) (logName_not_mem cmd.code).2 hkey
    hvalue, line_end_not_mem_serialize doubles hmetadata⟩

theorem line_end_not_mem_create (time : LocalTime) (handle : UInt32) {name type : Bytes} (hname : 10 ∉ name)
    (htype : 10 ∉ type) : 10 ∉ create time handle name type := by
  have hd := line_end_not_mem_digits
  have ht := time_not_mem (c := 10) (by decide) (by decide) time
  simp_all [create, ascii]

end LogLine

end Tiodb
