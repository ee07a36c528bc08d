import Tiodb.Lib.Utf8
import Tiodb.Protocol.Answer
import Tiodb.Server.Framing

/-!
# Data commands of the Python client

`SendDataCommand` of `tioclient.py` makes one text of the line and the data, and
encodes it when it is whole. The sizes in the line are those of the texts before that.
-/

namespace Tiodb.Python

open Lib

/-- A character of a Python 3 `str`. A surrogate is one too. -/
abbrev CodePoint := Fin 0x110000

/-- A `str` of Python: code points, surrogates included. -/
abbrev Str := List CodePoint

def isSurrogate (c : CodePoint) : Bool := 0xD800 ≤ c.val && c.val ≤ 0xDFFF

/-- `sys.maxsize`, which no `str` is longer than. -/
def maxSize : Nat := 2 ^ 63 - 1

def str (b : Bytes) : Str := b.map fun c => ⟨c.toNat, lt_trans c.toNat_lt (by decide)⟩

/-- The bytes of the code points, where none is a surrogate. -/
def utf8 (s : Str) : Bytes := s.flatMap fun c => String.utf8EncodeChar (Char.ofNat c.val)

/-- `none` is a `UnicodeEncodeError`. -/
def encode (s : Str) : Option Bytes := if s.any isSurrogate then none else some (utf8 s)

/-- The data that a command of the client takes. -/
inductive Value where
  | none
  | int (i : Int32)
  | str (s : Str)
  deriving DecidableEq

/-! ## The client -/

/-- `SerializeData` -/
def serializeData : Value → Option (Str × Str)
  | .none => none
  | .str s => some (s, str (ascii "string"))
  | .int i => some (str (intDigits i.toInt), str (ascii "int"))

/-- `GetFieldSpec` -/
def getFieldSpec (fieldName : Bytes) : Option (Str × Str) → Str
  | some (data, type) =>
    str (ascii " ") ++ str fieldName ++ str (ascii " ") ++ type ++ str (ascii " ") ++ str (digits data.length)
  | none => []

/-- The data of a field, with a line end. -/
def fieldData : Option (Str × Str) → Str
  | some (data, _) => data ++ str Text.lineEnd
  | none => []

/-- The buffer of `SendDataCommand`. -/
def commandText (command : Str) (parameter : Option Str) (key value metadata : Value) : Str :=
  let start := command ++ match parameter with
    | some p => if 0 < p.length then str (ascii " ") ++ p else []
    | none => []
  start ++ getFieldSpec (ascii "key") (serializeData key) ++ getFieldSpec (ascii "value") (serializeData value) ++
    getFieldSpec (ascii "metadata") (serializeData metadata) ++ str Text.lineEnd ++
    fieldData (serializeData key) ++ fieldData (serializeData value) ++ fieldData (serializeData metadata)

/-- The bytes that `SendCommand` gives to the socket. `none` is an exception before that. -/
def sendCommand (command : Str) : Option Bytes :=
  let buffer := if str Text.lineEnd <:+ command then command else command ++ str Text.lineEnd
  if maxSize < buffer.length then none else encode buffer

/-- `SendDataCommand` -/
def sendDataCommand (command : Str) (parameter : Option Str) (key value metadata : Value) : Option Bytes :=
  sendCommand (commandText command parameter key value metadata)

/-! ## The server -/

/-- The size of the data that the server computes, the size that there is, and the data. -/
structure Received where
  computed : Nat
  sent : Nat
  data : Fields
  deriving DecidableEq

variable (lex : LexicalCast)

/-- What the server reads: the line, and the data that the line declares. -/
def receive (bytes : Bytes) : Option Received :=
  let payload := (bytes.dropWhile (· ≠ 10)).tail
  match Text.extractFields lex (Command.parse (Connection.nextLine bytes)).params.tail with
  | .error _ => none
  | .ok (fields, fieldsTotalSize) =>
    match Text.extractFieldsFromBuffer lex fields payload {} with
    | some (.ok data) => some ⟨fieldsTotalSize.toNat, payload.length, data⟩
    | _ => none

/-- The datum that the server is to have. -/
def Value.encoded : Value → Option TioData
  | .none => some .none
  | .int i => some (.int i)
  | .str s => (encode s).map .string

/-- The server computes the size that was sent, and reads the data that were given. -/
def Delivers (command : Str) (parameter : Option Str) (key value metadata : Value) : Prop :=
  ∃ bytes ∈ sendDataCommand command parameter key value metadata, ∃ r ∈ receive lex bytes,
    r.computed = r.sent ∧ key.encoded = some r.data.key ∧ value.encoded = some r.data.value ∧
      metadata.encoded = some r.data.metadata

instance (command : Str) (parameter : Option Str) (key value metadata : Value) :
    Decidable (Delivers lex command parameter key value metadata) :=
  inferInstanceAs (Decidable (∃ _ ∈ _, _))

/-- The name of a command, or a handle. -/
structure Word where
  text : Bytes
  ne_nil : text ≠ []
  plain : ∀ c ∈ text, 32 < c ∧ c < 127

def Value.Ascii : Value → Prop
  | .str s => ∀ c ∈ s, c.val < 128
  | _ => True

instance (v : Value) : Decidable v.Ascii :=
  match v with
  | .str s => inferInstanceAs (Decidable (∀ c ∈ s, c.val < 128))
  | .none | .int _ => isTrue trivial

variable {lex}

/-! ## Characters and bytes -/

theorem utf8_append (s t : Str) : utf8 (s ++ t) = utf8 s ++ utf8 t := List.flatMap_append

theorem toNat_ofNat {c : CodePoint} (h : isSurrogate c = false) : (Char.ofNat c.val).toNat = c.val := by
  have hlt := c.isLt
  have hvalid : Nat.isValidChar c.val := by
    simp only [isSurrogate, Bool.and_eq_false_iff, decide_eq_false_iff_not] at h
    unfold Nat.isValidChar
    omega
  unfold Char.ofNat
  rw [dif_pos hvalid]
  rfl

theorem isSurrogate_of_lt {c : CodePoint} (h : c.val < 128) : isSurrogate c = false := by
  simp only [isSurrogate, Bool.and_eq_false_iff, decide_eq_false_iff_not]
  omega

theorem utf8Size_eq_one {c : CodePoint} (h : isSurrogate c = false) :
    (Char.ofNat c.val).utf8Size = 1 ↔ c.val < 128 := by
  have hval : (Char.ofNat c.val).val.toNat = c.val := toNat_ofNat h
  rw [Char.utf8Size_eq_one_iff, UInt32.le_iff_toNat_le, hval]
  exact Nat.lt_succ_iff.symm

theorem utf8EncodeChar_of_lt {c : CodePoint} (h : c.val < 128) :
    String.utf8EncodeChar (Char.ofNat c.val) = [UInt8.ofNat c.val] := by
  have hval := toNat_ofNat (isSurrogate_of_lt h)
  rw [utf8EncodeChar_of_toNat_lt (hval.trans_lt h), hval]

theorem utf8_of_ascii {s : Str} (h : ∀ c ∈ s, c.val < 128) : utf8 s = s.map fun c => UInt8.ofNat c.val := by
  induction s with
  | nil => rfl
  | cons c s ih =>
    change String.utf8EncodeChar (Char.ofNat c.val) ++ utf8 s = _
    rw [utf8EncodeChar_of_lt (h c (by simp)), ih fun d hd => h d (by simp [hd])]
    rfl

theorem utf8_str {b : Bytes} (h : ∀ c ∈ b, c < 128) : utf8 (str b) = b := by
  have hascii : ∀ c ∈ str b, c.val < 128 := by
    intro c hc
    obtain ⟨d, hd, rfl⟩ := List.mem_map.mp hc
    exact UInt8.lt_iff_toNat_lt.mp (h d hd)
  rw [utf8_of_ascii hascii, str, List.map_map]
  exact List.map_id'' (fun c => UInt8.ofNat_toNat) b

theorem length_le_utf8 (s : Str) : s.length ≤ (utf8 s).length := by
  induction s with
  | nil => simp
  | cons c s ih =>
    change _ ≤ (String.utf8EncodeChar (Char.ofNat c.val) ++ utf8 s).length
    have hpos := (Char.ofNat c.val).utf8Size_pos
    rw [List.length_append, String.length_utf8EncodeChar, List.length_cons]
    omega

theorem length_utf8_eq {s : Str} (hs : ∀ c ∈ s, isSurrogate c = false) :
    (utf8 s).length = s.length ↔ ∀ c ∈ s, c.val < 128 := by
  induction s with
  | nil => simp [utf8]
  | cons c s ih =>
    have hpos := (Char.ofNat c.val).utf8Size_pos
    have hle := length_le_utf8 s
    have hone := utf8Size_eq_one (hs c (by simp))
    change (String.utf8EncodeChar (Char.ofNat c.val) ++ utf8 s).length = _ ↔ _
    rw [List.forall_mem_cons, ← hone, ← ih fun d hd => hs d (by simp [hd]), List.length_append,
      String.length_utf8EncodeChar, List.length_cons]
    omega

theorem encode_eq_some {s : Str} {b : Bytes} :
    encode s = some b ↔ (∀ c ∈ s, isSurrogate c = false) ∧ utf8 s = b := by
  simp [encode, List.any_eq_true]

/-! ## The line and what follows it -/

/-- A datum with as many bytes as the text has characters, which is what the line speaks of. -/
def Value.declared : Value → TioData
  | .none => .none
  | .int i => .int i
  | .str s => .string (s.map fun c => UInt8.ofNat c.val)

/-- The fields that the client names in its line. -/
def declaredFields (key value metadata : Value) : List (Bytes × TioData) :=
  (Text.namedData key.declared value.declared metadata.declared).filter fun field => !field.2.isNull

def line (command handle : Word) (key value metadata : Value) : Bytes :=
  command.text ++ [handle.text].flatMap (32 :: ·) ++
    (declaredFields key value metadata).flatMap (Text.fieldSpec fun _ => [])

def payload (key value metadata : Value) : Str :=
  fieldData (serializeData key) ++ fieldData (serializeData value) ++ fieldData (serializeData metadata)

variable {command handle : Word} {key value metadata : Value}

theorem str_append (a b : Bytes) : str (a ++ b) = str a ++ str b := List.map_append

theorem length_str (b : Bytes) : (str b).length = b.length := List.length_map _

theorem flatMap_declaredFields {α : Type} (f : Bytes × TioData → List α) :
    (declaredFields key value metadata).flatMap f =
      (if key.declared.isNull then [] else f (ascii "key", key.declared)) ++
        (if value.declared.isNull then [] else f (ascii "value", value.declared)) ++
          (if metadata.declared.isNull then [] else f (ascii "metadata", metadata.declared)) := by
  cases key <;> cases value <;> cases metadata <;>
    simp [declaredFields, Text.namedData, List.filter, Value.declared, TioData.isNull]

theorem getFieldSpec_eq (name : Bytes) (v : Value) :
    getFieldSpec name (serializeData v) =
      str (if v.declared.isNull then [] else Text.fieldSpec (fun _ => []) (name, v.declared)) := by
  cases v with
  | none => rfl
  | int i =>
    simp [serializeData, getFieldSpec, Value.declared, TioData.isNull, Text.fieldSpec, Text.dataTypeAsString,
      Text.dataText, str_append, length_str]
  | str s =>
    simp [serializeData, getFieldSpec, Value.declared, TioData.isNull, Text.fieldSpec, Text.dataTypeAsString,
      Text.dataText, str_append]

theorem commandText_eq :
    commandText (str command.text) (some (str handle.text)) key value metadata =
      str (line command handle key value metadata ++ Text.lineEnd) ++ payload key value metadata := by
  have hpos : 0 < (str handle.text).length := by
    rw [length_str]
    exact List.length_pos_of_ne_nil handle.ne_nil
  have hblank (b : Bytes) : str (ascii " ") ++ str b = str (32 :: b) := rfl
  unfold commandText line payload
  rw [getFieldSpec_eq, getFieldSpec_eq, getFieldSpec_eq, flatMap_declaredFields]
  simp only [if_pos hpos, hblank, str_append, List.flatMap_singleton, List.append_assoc]

theorem lineEnd_suffix :
    str Text.lineEnd <:+ commandText (str command.text) (some (str handle.text)) key value metadata := by
  have hstep {a : Str} (h : str Text.lineEnd <:+ a) (v : Value) :
      str Text.lineEnd <:+ a ++ fieldData (serializeData v) := by
    cases v with
    | none => simpa [serializeData, fieldData] using h
    | int i => exact ((List.suffix_append _ _).trans (List.suffix_append _ _))
    | str s => exact ((List.suffix_append _ _).trans (List.suffix_append _ _))
  unfold commandText
  exact hstep (hstep (hstep (List.suffix_append _ _) key) value) metadata

theorem length_fieldData (v : Value) (name : Bytes) :
    (fieldData (serializeData v)).length =
      (if v.declared.isNull then [] else Text.fieldBytes (fun _ => []) (name, v.declared)).length := by
  cases v <;>
    simp [serializeData, fieldData, Value.declared, TioData.isNull, Text.fieldBytes, Text.dataText, length_str]

theorem length_payload :
    (payload key value metadata).length =
      ((declaredFields key value metadata).flatMap (Text.fieldBytes fun _ => [])).length := by
  rw [flatMap_declaredFields]
  simp only [payload, List.length_append, length_fieldData key (ascii "key"), length_fieldData value (ascii "value"),
    length_fieldData metadata (ascii "metadata")]

theorem declaredFields_sent
    (h : (commandText (str command.text) (some (str handle.text)) key value metadata).length ≤ maxSize) :
    ∀ field ∈ declaredFields key value metadata, Text.Sent (fun _ => []) field := by
  have hwhole (v : Value) : v.declared.isDouble = false := by cases v <;> rfl
  refine Text.sent_namedData ⟨hwhole key, hwhole value, hwhole metadata⟩ (fun d (hd : !d.isNull) => by simpa using hd)
    fun field hf => ?_
  have hle : (Text.dataText (fun _ => []) field.2).length ≤
      ((declaredFields key value metadata).flatMap (Text.fieldBytes fun _ => [])).length := Text.dataText_length_le hf
  rw [commandText_eq, List.length_append, length_payload] at h
  unfold maxSize at h
  unfold Text.maxStringSize
  omega

/-- The line is ASCII without line ends, and splits at its blanks into the command, the handle and the fields. -/
theorem line_spec (command handle : Word)
    (h : ∀ field ∈ declaredFields key value metadata, Text.Sent (fun _ => []) field) :
    (∀ c ∈ line command handle key value metadata, 32 ≤ c ∧ c < 127) ∧
      (line command handle key value metadata).splitOn 32 =
        command.text :: handle.text :: (declaredFields key value metadata).flatMap (Text.fieldWords fun _ => []) := by
  have hline : line command handle key value metadata =
      command.text ++ (handle.text ::
        (declaredFields key value metadata).flatMap (Text.fieldWords fun _ => [])).flatMap (32 :: ·) := by
    unfold line
    rw [Text.flatMap_fieldSpec, List.append_assoc, ← List.flatMap_append]
    rfl
  have hwords : ∀ w ∈ handle.text :: (declaredFields key value metadata).flatMap (Text.fieldWords fun _ => []),
      ∀ c ∈ w, 32 < c ∧ c < 127 := by
    intro w hw
    rcases List.mem_cons.mp hw with rfl | hw
    · exact handle.plain
    · obtain ⟨field, hf, hw⟩ := List.mem_flatMap.mp hw
      exact Text.plain_of_mem_fieldWords (h field hf) w hw
  have hblank {w : Bytes} (hw : ∀ c ∈ w, 32 < c ∧ c < 127) : 32 ∉ w := fun hmem =>
    absurd (hw 32 hmem).1 (by simp)
  rw [hline]
  refine ⟨?_, splitOn_words (hblank command.plain) fun w hw => hblank (hwords w hw)⟩
  intro c hc
  rcases List.mem_append.mp hc with hc | hc
  · exact ⟨UInt8.le_of_lt (command.plain c hc).1, (command.plain c hc).2⟩
  · obtain ⟨w, hw, hc⟩ := List.mem_flatMap.mp hc
    rcases List.mem_cons.mp hc with rfl | hc
    · simp
    · exact ⟨UInt8.le_of_lt (hwords w hw c hc).1, (hwords w hw c hc).2⟩

theorem sendDataCommand_eq_some {bytes : Bytes} :
    sendDataCommand (str command.text) (some (str handle.text)) key value metadata = some bytes ↔
      (commandText (str command.text) (some (str handle.text)) key value metadata).length ≤ maxSize ∧
        (∀ c ∈ payload key value metadata, isSurrogate c = false) ∧
          line command handle key value metadata ++ Text.lineEnd ++ utf8 (payload key value metadata) = bytes := by
  unfold sendDataCommand sendCommand
  rw [if_pos lineEnd_suffix]
  by_cases hfits : (commandText (str command.text) (some (str handle.text)) key value metadata).length ≤ maxSize
  · have hlow : ∀ c ∈ line command handle key value metadata ++ Text.lineEnd, c < 128 :=
      Text.ascii_append_lineEnd fun c hc =>
        UInt8.lt_trans ((line_spec command handle (declaredFields_sent hfits)).1 c hc).2 (by simp)
    have hplain : ∀ c ∈ str (line command handle key value metadata ++ Text.lineEnd), isSurrogate c = false := by
      intro c hc
      obtain ⟨d, hd, rfl⟩ := List.mem_map.mp hc
      exact isSurrogate_of_lt (UInt8.lt_iff_toNat_lt.mp (hlow d hd))
    rw [if_neg (Nat.not_lt.mpr hfits), encode_eq_some]
    rw [commandText_eq] at hfits ⊢
    rw [utf8_append, utf8_str hlow]
    constructor
    · rintro ⟨hs, rfl⟩
      exact ⟨hfits, fun c hc => hs c (List.mem_append_right _ hc), rfl⟩
    · rintro ⟨-, hs, rfl⟩
      refine ⟨fun c hc => ?_, rfl⟩
      exact (List.mem_append.mp hc).elim (hplain c) (hs c)
  · rw [if_pos (Nat.not_le.mp hfits)]
    simp [hfits]

/-! ## What the server makes of it -/

theorem nextLine_of_plain {l : Bytes} (h : ∀ c ∈ l, 32 ≤ c) (rest : Bytes) :
    Connection.nextLine (l ++ Text.lineEnd ++ rest) = l ∧
      ((l ++ Text.lineEnd ++ rest).dropWhile (· ≠ 10)).tail = rest ∧ cstr l = l := by
  have hfree {c : UInt8} (hc : c < 32) : c ∉ l := fun hmem => absurd (h c hmem) (UInt8.not_le.mpr hc)
  have hbytes : l ++ Text.lineEnd ++ rest = l ++ [13] ++ 10 :: rest := by simp [Text.lineEnd]
  obtain ⟨htake, hdrop⟩ := takeWhile_append_cons (a := (10 : UInt8)) (x := l ++ [13]) (by simp [hfree]) rest
  rw [hbytes, Connection.nextLine, htake, hdrop]
  refine ⟨?_, rfl, cstr_eq_self (hfree (by simp))⟩
  simp only [List.getLast?_concat, if_true, List.dropLast_concat]

theorem parse_line (command handle : Word)
    (h : ∀ field ∈ declaredFields key value metadata, Text.Sent (fun _ => []) field) (rest : Bytes) :
    let bytes := line command handle key value metadata ++ Text.lineEnd ++ rest
    (Command.parse (Connection.nextLine bytes)).params.tail =
        (declaredFields key value metadata).flatMap (Text.fieldWords fun _ => []) ∧
      (bytes.dropWhile (· ≠ 10)).tail = rest := by
  intro bytes
  obtain ⟨hplain, hwords⟩ := line_spec command handle h
  obtain ⟨hline, hrest, hcstr⟩ := nextLine_of_plain (fun c hc => (hplain c hc).1) rest
  refine ⟨?_, hrest⟩
  rw [hline, Command.parse, hcstr, hwords]
  rfl

theorem receive_eq (hlex : ReadsNumbers lex)
    (h : (commandText (str command.text) (some (str handle.text)) key value metadata).length ≤ maxSize)
    (rest : Bytes) :
    receive lex (line command handle key value metadata ++ Text.lineEnd ++ rest) =
      match Text.extractFieldsFromBuffer lex ((declaredFields key value metadata).map (Text.fieldInfo fun _ => []))
          rest {} with
      | some (.ok data) => some ⟨(payload key value metadata).length, rest.length, data⟩
      | _ => none := by
  have hsent := declaredFields_sent h
  obtain ⟨hparams, hrest⟩ := parse_line command handle hsent rest
  have htotal : (UInt64.ofNat (payload key value metadata).length).toNat = (payload key value metadata).length := by
    rw [commandText_eq, List.length_append] at h
    unfold maxSize at h
    rw [UInt64.toNat_ofNat']
    omega
  rw [receive, hparams, hrest, Text.extractFields_words hlex hsent, ← length_payload]
  dsimp only
  rw [htotal]

theorem ascii_fieldData (v : Value) : (∀ c ∈ fieldData (serializeData v), c.val < 128) ↔ v.Ascii := by
  have hstr {b : Bytes} (h : ∀ c ∈ b, c < 128) : ∀ c ∈ str b, c.val < 128 := by
    intro c hc
    obtain ⟨d, hd, rfl⟩ := List.mem_map.mp hc
    exact UInt8.lt_iff_toNat_lt.mp (h d hd)
  have hend : ∀ c ∈ str Text.lineEnd, c.val < 128 := hstr (by simp [Text.lineEnd])
  cases v with
  | none => simp [serializeData, fieldData, Value.Ascii]
  | str s =>
    simp only [serializeData, fieldData, List.forall_mem_append, Value.Ascii]
    exact and_iff_left hend
  | int i =>
    refine iff_of_true ?_ trivial
    simp only [serializeData, fieldData, List.forall_mem_append]
    refine ⟨hstr fun c hc => ?_, hend⟩
    by_contra hlow
    rw [UInt8.lt_iff_toNat_lt] at hlow
    have hdigit : isDigit c = false := by
      simp only [isDigit, Bool.and_eq_false_iff, decide_eq_false_iff_not, UInt8.le_iff_toNat_le]
      simp at hlow ⊢
      omega
    refine not_mem_intDigits hdigit ?_ hc
    rintro rfl
    simp at hlow

theorem ascii_payload :
    (∀ c ∈ payload key value metadata, c.val < 128) ↔ key.Ascii ∧ value.Ascii ∧ metadata.Ascii := by
  simp only [payload, List.forall_mem_append, ascii_fieldData, and_assoc]

theorem encoded_of_ascii {v : Value} (h : v.Ascii) : v.encoded = some v.declared := by
  cases v with
  | none => rfl
  | int i => rfl
  | str s =>
    have hs : encode s = some (s.map fun c => UInt8.ofNat c.val) :=
      encode_eq_some.mpr ⟨fun c hc => isSurrogate_of_lt (h c hc), utf8_of_ascii h⟩
    rw [Value.encoded, hs]
    rfl

theorem utf8_payload (h : ∀ c ∈ payload key value metadata, c.val < 128) :
    utf8 (payload key value metadata) =
      (declaredFields key value metadata).flatMap (Text.fieldBytes fun _ => []) := by
  have hfield (v : Value) (name : Bytes) : (fieldData (serializeData v)).map (fun c => UInt8.ofNat c.val) =
      if v.declared.isNull then [] else Text.fieldBytes (fun _ => []) (name, v.declared) := by
    have hstr (b : Bytes) : (str b).map (fun c => UInt8.ofNat c.val) = b := by
      rw [str, List.map_map]
      exact List.map_id'' (fun c => UInt8.ofNat_toNat) b
    cases v <;>
      simp [serializeData, fieldData, Value.declared, TioData.isNull, Text.fieldBytes, Text.dataText, hstr]
  rw [utf8_of_ascii h, flatMap_declaredFields]
  simp only [payload, List.map_append, hfield key (ascii "key"), hfield value (ascii "value"),
    hfield metadata (ascii "metadata")]

/-- The server gets what the client was given exactly if every text is ASCII, and the command is one that Python
can hold. -/
theorem delivers_iff (hlex : ReadsNumbers lex) (command handle : Word) (key value metadata : Value) :
    Delivers lex (str command.text) (some (str handle.text)) key value metadata ↔
      (key.Ascii ∧ value.Ascii ∧ metadata.Ascii) ∧
        (commandText (str command.text) (some (str handle.text)) key value metadata).length ≤ maxSize := by
  constructor
  · rintro ⟨bytes, hbytes, r, hr, hsize, -⟩
    obtain ⟨hfits, hs, rfl⟩ := sendDataCommand_eq_some.mp hbytes
    rw [Option.mem_def, receive_eq hlex hfits] at hr
    refine ⟨ascii_payload.mp ((length_utf8_eq hs).mp ?_), hfits⟩
    split at hr
    · cases hr
      exact hsize.symm
    · cases hr
  · rintro ⟨hascii, hfits⟩
    obtain ⟨hk, hv, hm⟩ := hascii
    have hlow := ascii_payload.mpr ⟨hk, hv, hm⟩
    refine ⟨_, sendDataCommand_eq_some.mpr ⟨hfits, fun c hc => isSurrogate_of_lt (hlow c hc), rfl⟩, ?_⟩
    have hnull (v : Value) : (if !v.declared.isNull then v.declared else .none) = v.declared := by
      cases v <;> rfl
    rw [receive_eq hlex hfits, utf8_payload hlow,
      Text.extractFieldsFromBuffer_bytes hlex (declaredFields_sent hfits), declaredFields,
      Text.foldl_namedData (fun d => !d.isNull), hnull, hnull, hnull]
    refine ⟨_, rfl, ?_, encoded_of_ascii hk, encoded_of_ascii hv, encoded_of_ascii hm⟩
    exact length_payload

theorem delivers_pop_key :
    Delivers .signed (str (ascii "wnp_key")) (some (str (ascii "1"))) (.str (str (ascii "a b\r\n"))) (.int (-5))
      .none :=
  (delivers_iff signed_readsNumbers ⟨ascii "wnp_key", by simp [ascii], by simp [ascii]⟩
    ⟨ascii "1", by simp [ascii], by simp [ascii]⟩ (.str (str (ascii "a b\r\n"))) (.int (-5)) .none).mpr
    ⟨⟨by simp [Value.Ascii, str, ascii], trivial, trivial⟩, by decide +kernel⟩

/-- The key `é` is one character for the line and two bytes for the socket. -/
theorem accent_is_cut :
    ¬Delivers .signed (str (ascii "set")) (some (str (ascii "1"))) (.str [0xE9]) (.str (str (ascii "b"))) .none := by
  decide +kernel

end Tiodb.Python
