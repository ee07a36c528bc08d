import Tiodb.Lib.Decimal
import Tiodb.Lib.Lists
import Tiodb.Protocol.Text

/-!
# Answers and events as text

`SerializeData`, `MakeEventAnswer`, `MakeDataAnswer` and `ParseAnswerLine` of
`TioTcpProtocol.h`: a line with the name, the type and the size of each datum, and the
data after it, each with a line end.
-/

namespace Tiodb

open Lib

/-! ## Casts from text -/

/-- `lexical_cast` reads back the numbers that a stream writes. -/
structure ReadsNumbers (lex : LexicalCast) : Prop where
  toInt : ∀ i : Int32, lex.toInt (intDigits i.toInt) = some i
  toSize : ∀ n < 2 ^ 64, lex.toSize (digits n) = some (UInt64.ofNat n)

/-- The casts to integers. A minus before an unsigned number counts down from zero. -/
def LexicalCast.signed : LexicalCast where
  toInt b :=
    (decimal (takeSign b).2).bind fun n =>
      let v : Int := if (takeSign b).1 then -n else n
      if -2 ^ 31 ≤ v ∧ v < 2 ^ 31 then some (Int32.ofInt v) else none
  toUnsigned b :=
    (decimal (takeSign b).2).bind fun n =>
      if n < 2 ^ 32 then some (if (takeSign b).1 then 0 - UInt32.ofNat n else UInt32.ofNat n) else none
  toSize b :=
    (decimal (takeSign b).2).bind fun n =>
      if n < 2 ^ 64 then some (if (takeSign b).1 then 0 - UInt64.ofNat n else UInt64.ofNat n) else none
  toDouble _ := none

theorem decimal_digits (n : Nat) : decimal (digits n) = some n := by
  unfold decimal
  rw [if_neg, ← digitsValue, digitsValue_digits]
  rintro (h | ⟨c, hc, hrange⟩)
  · exact digits_ne_nil n h
  · have hdigit := isDigit_of_mem_digits hc
    simp only [isDigit, Bool.and_eq_true, decide_eq_true_eq] at hdigit
    rcases hrange with h | h
    · exact absurd hdigit.1 (UInt8.not_le.mpr h)
    · exact absurd hdigit.2 (UInt8.not_le.mpr h)

theorem signed_toSize {n : Nat} (h : n < 2 ^ 64) : LexicalCast.signed.toSize (digits n) = some (UInt64.ofNat n) := by
  change (decimal (takeSign (digits n)).2).bind _ = _
  rw [takeSign_digits, decimal_digits, Option.bind_some, if_pos h]
  rfl

theorem signed_toInt (i : Int32) : LexicalCast.signed.toInt (intDigits i.toInt) = some i := by
  have hle := i.le_toInt
  have hlt := i.toInt_lt
  by_cases hneg : i.toInt < 0
  · have hv : -(i.toInt.natAbs : Int) = i.toInt := by omega
    rw [intDigits, if_pos hneg]
    change (decimal (digits i.toInt.natAbs)).bind _ = _
    rw [decimal_digits, Option.bind_some]
    change (if -2 ^ 31 ≤ -(i.toInt.natAbs : Int) ∧ -(i.toInt.natAbs : Int) < 2 ^ 31 then _ else _) = _
    rw [hv, if_pos ⟨hle, hlt⟩]
    exact congrArg some i.ofInt_toInt
  · have hv : (i.toInt.natAbs : Int) = i.toInt := by omega
    rw [intDigits, if_neg hneg]
    change (decimal (takeSign (digits i.toInt.natAbs)).2).bind _ = _
    rw [takeSign_digits, decimal_digits, Option.bind_some]
    change (if -2 ^ 31 ≤ (i.toInt.natAbs : Int) ∧ (i.toInt.natAbs : Int) < 2 ^ 31 then _ else _) = _
    rw [hv, if_pos ⟨hle, hlt⟩]
    exact congrArg some i.ofInt_toInt

theorem signed_readsNumbers : ReadsNumbers LexicalCast.signed := ⟨signed_toInt, fun _ => signed_toSize⟩

def TioData.isDouble : TioData → Bool
  | .double _ => true
  | _ => false

namespace Text

/-! ## What is written -/

/-- `GetDataTypeAsString` -/
def dataTypeAsString : TioData → Bytes
  | .int _ => ascii "int"
  | .double _ => ascii "double"
  | .string _ => ascii "string"
  | .none => ascii "INTERNAL_ERROR"

section Writer

/- How a stream writes a `double`. -/
variable (doubles : UInt64 → Bytes)

/-- What `stream << data` writes. -/
def dataText : TioData → Bytes
  | .int i => intDigits i.toInt
  | .double bits => doubles bits
  | .string s => s
  | .none => ascii "**NULL**"

def lineEnd : Bytes := [13, 10]

theorem ascii_append_lineEnd {text : Bytes} (htext : ∀ c ∈ text, c < 128) : ∀ c ∈ text ++ lineEnd, c < 128 := by
  have hend : ∀ c ∈ lineEnd, c < 128 := by simp [lineEnd]
  exact List.forall_mem_append.mpr ⟨htext, hend⟩

/-- The data of a message with their names, in the order of the text. -/
def namedData (key value metadata : TioData) : List (Bytes × TioData) :=
  [(ascii "key", key), (ascii "value", value), (ascii "metadata", metadata)]

def fieldSpec (field : Bytes × TioData) : Bytes :=
  ascii " " ++ field.1 ++ ascii " " ++ dataTypeAsString field.2 ++ ascii " " ++
    digits (dataText doubles field.2).length

def fieldBytes (field : Bytes × TioData) : Bytes := dataText doubles field.2 ++ lineEnd

def serializeData (key value metadata : TioData) : Bytes :=
  if key.isNull && value.isNull && metadata.isNull then []
  else
    let fields := (namedData key value metadata).filter fun field => !field.2.isNull
    fields.flatMap (fieldSpec doubles) ++ lineEnd ++ fields.flatMap (fieldBytes doubles)

def makeEventAnswer (eventName : Bytes) (handle : UInt32) (key value metadata : TioData) : Bytes :=
  ascii "event " ++ digits handle.toNat ++ ascii " " ++ eventName ++ serializeData doubles key value metadata

inductive AnswerType where
  | success
  | error
  deriving DecidableEq, Repr

def makeAnswerStart (type : AnswerType) (answer : Bytes) : Bytes :=
  ascii "answer " ++ (if type = .success then ascii "ok" else ascii "error") ++ ascii " " ++ cstr answer

def makeDataAnswer (key value metadata : TioData) : Bytes :=
  makeAnswerStart .success (ascii "data") ++ serializeData doubles key value metadata

end Writer

/-! ## What is read -/

inductive ProtocolAnswerType where
  | undefined
  | answer
  | event
  deriving DecidableEq, Repr

/-- `ProtocolAnswer`, as `Reset` leaves it. The three data are read by `ExtractFieldsFromBuffer`. -/
structure ProtocolAnswer where
  pendingDataSize : UInt64 := 0
  type : ProtocolAnswerType := .undefined
  rawAnswerLine : Bytes := []
  eventName : Bytes := []
  parameter : Bytes := []
  parameterType : Bytes := []
  fieldSet : List FieldInfo := []
  error : Bool := false
  errorMessage : Bytes := []
  deriving DecidableEq, Repr

variable (lex : LexicalCast)

def withFieldSet (answer : ProtocolAnswer) (params : List Bytes) : Except Exc ProtocolAnswer :=
  match extractFields lex params with
  | .error e => .error e
  | .ok (fieldSet, pendingDataSize) => .ok { answer with fieldSet, pendingDataSize }

/-- The words after `answer ok`. -/
def parseOkAnswer (answer : ProtocolAnswer) : List Bytes → Except Exc ProtocolAnswer
  | [] => .ok answer
  | answerType :: params =>
    -- maybe a final space...
    if answerType = [] then .ok answer
    else if answerType = ascii "data" then withFieldSet lex answer params
    else if answerType = ascii "handle" ∨ answerType = ascii "count" ∨ answerType = ascii "type" then
      match params with
      | [] => .error (invalidArgument "invalid answer. dataType specified but no data.")
      | parameter :: _ => .ok { answer with parameterType := answerType, parameter }
    else .ok answer

/-- The words of the line. `none` is the one after `answer` where there is none, which is read past the end. -/
def parseParams (answer : ProtocolAnswer) : List Bytes → Option (Except Exc ProtocolAnswer)
  | [] => none
  | answerType :: params =>
    if answerType = ascii "answer" then
      match params with
      | [] => none
      | result :: params =>
        if result = ascii "ok" then some (parseOkAnswer lex { answer with type := .answer } params)
        else if result = ascii "error" then
          let errorMessage := params.flatMap (· ++ ascii " ")
          some (.ok { answer with type := .answer, error := true, errorMessage })
        else some (.error (invalidArgument "invalid line. Result must be \"ok\" or \"error\""))
    else if answerType = ascii "event" then
      match params with
      | [] => some (.error (runtimeError "invalid answer: no handle value"))
      | [_] => some (.error (runtimeError "invalid answer: no data"))
      | parameter :: eventName :: params =>
        let answer := { answer with type := .event, parameterType := ascii "handle", parameter, eventName }
        some (withFieldSet lex answer params)
    else some (.ok answer)

def parseAnswerLine (line : Bytes) : Option (Except Exc ProtocolAnswer) :=
  if line = [] then some (.error (invalidArgument "empty command line"))
  else
    let line := if line.getLast? = some 13 then line.dropLast else line
    parseParams lex { rawAnswerLine := line } (line.splitOn 32)

/-- The text before the first line end, and the text after it. -/
def splitLine : Bytes → Option (Bytes × Bytes)
  | 13 :: 10 :: rest => some ([], rest)
  | c :: rest => (splitLine rest).map fun p => (c :: p.1, p.2)
  | [] => none

/-! ## Reading back what was written -/

section RoundTrip

variable (doubles : UInt64 → Bytes)

def fieldWords (field : Bytes × TioData) : List Bytes :=
  [field.1, dataTypeAsString field.2, digits (dataText doubles field.2).length]

def fieldInfo (field : Bytes × TioData) : FieldInfo :=
  ⟨field.1, dataTypeAsString field.2, UInt64.ofNat (dataText doubles field.2).length⟩

/-- A datum that a message has a field for. -/
structure Sent (field : Bytes × TioData) : Prop where
  name : isValidFieldName field.1
  present : field.2.isNull = false
  whole : field.2.isDouble = false
  size : (dataText doubles field.2).length ≤ maxStringSize

variable {doubles} {lex} {field : Bytes × TioData} {fields : List (Bytes × TioData)}

theorem Sent.size_lt (h : Sent doubles field) : (dataText doubles field.2).length < 2 ^ 64 :=
  lt_of_le_of_lt h.size (by decide)

theorem fieldSpec_eq (field : Bytes × TioData) :
    fieldSpec doubles field = (fieldWords doubles field).flatMap (32 :: ·) := by
  simp [fieldSpec, fieldWords, ascii]

theorem flatMap_fieldSpec (fields : List (Bytes × TioData)) :
    fields.flatMap (fieldSpec doubles) = (fields.flatMap (fieldWords doubles)).flatMap (32 :: ·) := by
  rw [List.flatMap_assoc]
  exact List.flatMap_congr fun field _ => fieldSpec_eq field

theorem isDigit_of_isSpace {c : UInt8} (h : isSpace c) : isDigit c = false := by
  simp only [isSpace, isDigit, Bool.or_eq_true, Bool.and_eq_true, decide_eq_true_eq, Bool.and_eq_false_iff,
    decide_eq_false_iff_not, UInt8.le_iff_toNat_le, ← UInt8.toNat_inj] at h ⊢
  simp at h ⊢
  omega

theorem plain_of_mem_fieldWords (h : Sent doubles field) :
    ∀ w ∈ fieldWords doubles field, ∀ c ∈ w, 32 < c ∧ c < 127 := by
  have hwords : ∀ w ∈ [ascii "key", ascii "value", ascii "metadata", ascii "int", ascii "double", ascii "string",
      ascii "INTERNAL_ERROR"], ∀ c ∈ w, 32 < c ∧ c < 127 := by simp [ascii]
  have hname : ∀ c ∈ field.1, 32 < c ∧ c < 127 := by
    have hnames := h.name
    simp only [isValidFieldName, Bool.or_eq_true, decide_eq_true_eq] at hnames
    rcases hnames with (hn | hn) | hn <;> exact hwords _ (by simp [hn])
  have htype : ∀ c ∈ dataTypeAsString field.2, 32 < c ∧ c < 127 := by
    cases field.2 <;> exact hwords _ (by simp [dataTypeAsString])
  simp only [fieldWords, List.mem_cons, List.not_mem_nil, or_false]
  rintro w (rfl | rfl | rfl)
  · exact hname
  · exact htype
  · exact fun c hc => plain_of_mem_digits hc

theorem space_not_mem_fieldWords (h : Sent doubles field) {c : UInt8} (hc : isSpace c) :
    ∀ w ∈ fieldWords doubles field, c ∉ w := by
  intro w hw hmem
  have hplain := (plain_of_mem_fieldWords h w hw c hmem).1
  simp only [isSpace, Bool.or_eq_true, Bool.and_eq_true, decide_eq_true_eq, UInt8.le_iff_toNat_le,
    UInt8.lt_iff_toNat_lt, ← UInt8.toNat_inj] at hc hplain
  simp at hc hplain
  omega

theorem extractFields_words (hlex : ReadsNumbers lex) (h : ∀ field ∈ fields, Sent doubles field) :
    extractFields lex (fields.flatMap (fieldWords doubles)) =
      .ok (fields.map (fieldInfo doubles), UInt64.ofNat (fields.flatMap (fieldBytes doubles)).length) := by
  induction fields with
  | nil => rfl
  | cons field fields ih =>
    have hsent := h field (by simp)
    have hrest := ih fun g hg => h g (by simp [hg])
    change extractFields lex (field.1 :: dataTypeAsString field.2 :: digits (dataText doubles field.2).length ::
      fields.flatMap (fieldWords doubles)) = _
    rw [extractFields, if_pos hsent.name, hlex.toSize _ hsent.size_lt]
    simp only [hrest, List.map_cons, List.flatMap_cons, List.length_append, fieldBytes, lineEnd, List.length_cons,
      List.length_nil, UInt64.ofNat_add]
    rfl

theorem setTioData_text (hlex : ReadsNumbers lex) (h : Sent doubles field) :
    setTioData lex (dataTypeAsString field.2) (dataText doubles field.2) = .ok field.2 := by
  have hpresent := h.present
  have hwhole := h.whole
  cases hd : field.2 with
  | none => simp [hd, TioData.isNull] at hpresent
  | double bits => simp [hd, TioData.isDouble] at hwhole
  | int i =>
    rw [dataTypeAsString, dataText, setTioData, if_pos rfl, hlex.toInt]
  | string s =>
    rw [dataTypeAsString, dataText, setTioData, if_neg (by decide), if_neg (by decide), if_pos rfl]

def setField (f : Fields) (field : Bytes × TioData) : Fields := f.set field.1 field.2

theorem extractFieldsFromBuffer_bytes (hlex : ReadsNumbers lex) (h : ∀ field ∈ fields, Sent doubles field)
    (f : Fields) :
    extractFieldsFromBuffer lex (fields.map (fieldInfo doubles)) (fields.flatMap (fieldBytes doubles)) f =
      some (.ok (fields.foldl setField f)) := by
  induction fields generalizing f with
  | nil => rfl
  | cons field fields ih =>
    have hsent := h field (by simp)
    have hsize : (fieldInfo doubles field).size.toNat = (dataText doubles field.2).length :=
      UInt64.toNat_ofNat_of_lt' hsent.size_lt
    have htake : ((field :: fields).flatMap (fieldBytes doubles)).take (dataText doubles field.2).length =
        dataText doubles field.2 := by
      simp [fieldBytes]
    have hdrop : ((field :: fields).flatMap (fieldBytes doubles)).drop ((dataText doubles field.2).length + 2) =
        fields.flatMap (fieldBytes doubles) := by
      simp [fieldBytes, lineEnd]
    have hroom : ¬((field :: fields).flatMap (fieldBytes doubles)).length < (dataText doubles field.2).length := by
      simp [fieldBytes]
    rw [List.map_cons, extractFieldsFromBuffer, hsize, if_neg (Nat.not_lt.mpr hsent.size), if_neg hroom, htake,
      fieldInfo, setTioData_text hlex hsent]
    simp only [hdrop]
    exact ih (fun g hg => h g (by simp [hg])) _

theorem foldl_namedData (sends : TioData → Bool) (key value metadata : TioData) :
    ((namedData key value metadata).filter fun field => sends field.2).foldl setField {} =
      ⟨if sends key then key else .none, if sends value then value else .none,
        if sends metadata then metadata else .none⟩ := by
  cases hk : sends key <;> cases hv : sends value <;> cases hm : sends metadata <;>
    simp [namedData, List.filter, hk, hv, hm, setField, Fields.set, ascii]

theorem splitLine_append {line : Bytes} (h : 10 ∉ line) (rest : Bytes) :
    splitLine (line ++ lineEnd ++ rest) = some (line, rest) := by
  induction line with
  | nil => rfl
  | cons c line ih =>
    have hrest := ih fun hmem => h (by simp [hmem])
    have hline : line ++ lineEnd ++ rest ≠ [] := by simp [lineEnd]
    rw [List.cons_append, List.cons_append, splitLine, hrest]
    · rfl
    · rintro tail rfl htail
      cases line with
      | nil => simp [lineEnd] at htail
      | cons d line =>
        obtain ⟨rfl, -⟩ := List.cons.inj htail
        exact h (by simp)

theorem line_spec {w : Bytes} {ws : List Bytes} (hw : ∀ v ∈ w :: ws, ∀ c ∈ v, isSpace c = false)
    (h : ∀ field ∈ fields, Sent doubles field) (rest : Bytes) :
    let line := w ++ ws.flatMap (32 :: ·) ++ fields.flatMap (fieldSpec doubles)
    splitLine (line ++ lineEnd ++ rest) = some (line, rest) ∧
      line.splitOn 32 = w :: (ws ++ fields.flatMap (fieldWords doubles)) ∧ 13 ∉ line := by
  have hwords (c : UInt8) (hc : isSpace c) : ∀ v ∈ ws ++ fields.flatMap (fieldWords doubles), c ∉ v := by
    intro v hv hmem
    rcases List.mem_append.mp hv with hv | hv
    · rw [hw v (by simp [hv]) c hmem] at hc
      cases hc
    · obtain ⟨field, hf, hv⟩ := List.mem_flatMap.mp hv
      exact space_not_mem_fieldWords (h field hf) hc v hv hmem
  have hfirst (c : UInt8) (hc : isSpace c) : c ∉ w := fun hmem => by
    rw [hw w (by simp) c hmem] at hc
    cases hc
  have hline : w ++ ws.flatMap (32 :: ·) ++ fields.flatMap (fieldSpec doubles) =
      w ++ (ws ++ fields.flatMap (fieldWords doubles)).flatMap (32 :: ·) := by
    rw [flatMap_fieldSpec, List.flatMap_append, List.append_assoc]
  have hnot (c : UInt8) (hc : isSpace c) (hblank : c ≠ 32) :
      c ∉ w ++ (ws ++ fields.flatMap (fieldWords doubles)).flatMap (32 :: ·) := by
    rw [List.mem_append, List.mem_flatMap]
    rintro (hmem | ⟨v, hv, hmem⟩)
    · exact hfirst c hc hmem
    · exact hwords c hc v hv ((List.mem_cons.mp hmem).resolve_left hblank)
  dsimp only
  rw [hline]
  exact ⟨splitLine_append (hnot 10 rfl (by decide)) rest, splitOn_words (hfirst 32 rfl) (hwords 32 rfl),
    hnot 13 rfl (by decide)⟩

theorem parseAnswerLine_return {line : Bytes} (hne : line ≠ []) (h : 13 ∉ line) :
    parseAnswerLine lex (line ++ [13]) = parseAnswerLine lex line := by
  have hlast : line.getLast? ≠ some 13 := fun hl => h (List.mem_of_getLast? hl)
  unfold parseAnswerLine
  rw [if_neg (by simp), if_neg hne, if_pos (by simp), if_neg hlast, List.dropLast_concat]

variable (lex) in
/-- The message splits at its first line end into a line and a payload that give the three data back. -/
def RoundTrips (message : Bytes) (key value metadata : TioData) : Prop :=
  ∃ line payload answer, splitLine message = some (line, payload) ∧
    parseAnswerLine lex line = some (.ok answer) ∧ parseAnswerLine lex (line ++ [13]) = some (.ok answer) ∧
    answer.pendingDataSize.toNat = payload.length ∧
    extractFieldsFromBuffer lex answer.fieldSet payload {} = some (.ok ⟨key, value, metadata⟩)

variable {key value metadata : TioData}

theorem sent_namedData (hdoubles : key.isDouble = false ∧ value.isDouble = false ∧ metadata.isDouble = false)
    {sends : TioData → Bool} (hsends : ∀ d, sends d → d.isNull = false)
    (hsize : ∀ field ∈ (namedData key value metadata).filter fun field => sends field.2,
      (dataText doubles field.2).length ≤ maxStringSize) :
    ∀ field ∈ (namedData key value metadata).filter fun field => sends field.2, Sent doubles field := by
  intro field hf
  obtain ⟨hmem, hsend⟩ := List.mem_filter.mp hf
  simp only [namedData, List.mem_cons, List.not_mem_nil, or_false] at hmem
  refine ⟨?_, hsends _ hsend, ?_, hsize field hf⟩
  · rcases hmem with rfl | rfl | rfl <;> rfl
  · rcases hmem with rfl | rfl | rfl
    · exact hdoubles.1
    · exact hdoubles.2.1
    · exact hdoubles.2.2

theorem dataText_length_le (h : field ∈ fields) :
    (dataText doubles field.2).length ≤ (fields.flatMap (fieldBytes doubles)).length := by
  obtain ⟨before, after, rfl⟩ := List.append_of_mem h
  simp [fieldBytes]
  omega

/-- The words before the fields of a message with data, and what the parser makes of them. -/
theorem roundTrips_of_words (hlex : ReadsNumbers lex) {w : Bytes} {ws : List Bytes}
    (hw : ∀ v ∈ w :: ws, ∀ c ∈ v, isSpace c = false) (hne : w ≠ []) (answer : Bytes → ProtocolAnswer)
    (hparse : ∀ line params, line.splitOn 32 = w :: (ws ++ params) → line ≠ [] → 13 ∉ line →
      parseAnswerLine lex line = some (withFieldSet lex (answer line) params))
    (hdoubles : key.isDouble = false ∧ value.isDouble = false ∧ metadata.isDouble = false)
    (hsome : ¬(key.isNull ∧ value.isNull ∧ metadata.isNull))
    (hsize : (w ++ ws.flatMap (32 :: ·) ++ serializeData doubles key value metadata).length ≤ maxStringSize) :
    RoundTrips lex (w ++ ws.flatMap (32 :: ·) ++ serializeData doubles key value metadata) key value metadata := by
  let sends : TioData → Bool := fun d => !d.isNull
  let fields := (namedData key value metadata).filter fun field => sends field.2
  have hdata : serializeData doubles key value metadata =
      fields.flatMap (fieldSpec doubles) ++ lineEnd ++ fields.flatMap (fieldBytes doubles) := by
    rw [serializeData, if_neg (by simpa [and_assoc] using hsome)]
  have hpayload : (fields.flatMap (fieldBytes doubles)).length ≤ maxStringSize := by
    rw [hdata] at hsize
    simp only [List.length_append] at hsize
    omega
  have hsent : ∀ field ∈ fields, Sent doubles field :=
    sent_namedData hdoubles (by simp [sends]) fun field hf => (dataText_length_le hf).trans hpayload
  obtain ⟨hsplit, hwords, hreturn⟩ := line_spec hw hsent (fields.flatMap (fieldBytes doubles))
  have hmessage : w ++ ws.flatMap (32 :: ·) ++ serializeData doubles key value metadata =
      w ++ ws.flatMap (32 :: ·) ++ fields.flatMap (fieldSpec doubles) ++ lineEnd ++
        fields.flatMap (fieldBytes doubles) := by
    rw [hdata]
    simp only [List.append_assoc]
  have hnonempty : w ++ ws.flatMap (32 :: ·) ++ fields.flatMap (fieldSpec doubles) ≠ [] := by simp [hne]
  have hline := hparse _ _ hwords hnonempty hreturn
  rw [withFieldSet, extractFields_words hlex hsent] at hline
  refine ⟨_, _, _, hmessage ▸ hsplit, hline, (parseAnswerLine_return hnonempty hreturn).trans hline,
    UInt64.toNat_ofNat_of_lt' (lt_of_le_of_lt hpayload (by decide)), ?_⟩
  change extractFieldsFromBuffer lex (fields.map (fieldInfo doubles)) _ _ = _
  rw [extractFieldsFromBuffer_bytes hlex hsent, foldl_namedData]
  cases key <;> cases value <;> cases metadata <;> rfl

/-- What `MakeDataAnswer` and `MakeEventAnswer` write, `ParseAnswerLine` and `ExtractFieldsFromBuffer` give back. -/
theorem data_round_trip (hlex : ReadsNumbers lex)
    (hdoubles : key.isDouble = false ∧ value.isDouble = false ∧ metadata.isDouble = false)
    (hsome : ¬(key.isNull ∧ value.isNull ∧ metadata.isNull)) :
    ((makeDataAnswer doubles key value metadata).length ≤ maxStringSize →
      RoundTrips lex (makeDataAnswer doubles key value metadata) key value metadata) ∧
    ∀ (eventName : Bytes) (handle : UInt32), (∀ c ∈ eventName, isSpace c = false) →
      (makeEventAnswer doubles eventName handle key value metadata).length ≤ maxStringSize →
      RoundTrips lex (makeEventAnswer doubles eventName handle key value metadata) key value metadata := by
  constructor
  · have hstart : makeDataAnswer doubles key value metadata =
        ascii "answer" ++ [ascii "ok", ascii "data"].flatMap (32 :: ·) ++ serializeData doubles key value metadata := by
      rfl
    rw [hstart]
    refine roundTrips_of_words hlex (by simp [ascii, isSpace]) (by decide)
      (fun line => { rawAnswerLine := line, type := .answer }) ?_ hdoubles hsome
    intro line params hwords hne hreturn
    have hlast : line.getLast? ≠ some 13 := fun hl => hreturn (List.mem_of_getLast? hl)
    rw [parseAnswerLine, if_neg hne, if_neg hlast]
    change parseParams lex _ (line.splitOn 32) = _
    rw [hwords]
    rfl
  · intro eventName handle hname
    have hstart : makeEventAnswer doubles eventName handle key value metadata =
        ascii "event" ++ [digits handle.toNat, eventName].flatMap (32 :: ·) ++
          serializeData doubles key value metadata := by
      simp [makeEventAnswer, ascii]
    rw [hstart]
    let answer (line : Bytes) : ProtocolAnswer :=
      { rawAnswerLine := line, type := .event, parameterType := ascii "handle", parameter := digits handle.toNat,
        eventName }
    refine roundTrips_of_words hlex ?_ (by decide) answer ?_ hdoubles hsome
    · intro v hv c hc
      simp only [List.mem_cons, List.not_mem_nil, or_false] at hv
      rcases hv with rfl | rfl | rfl
      · revert c
        simp [ascii, isSpace]
      · by_contra hspace
        exact not_mem_digits (isDigit_of_isSpace (by simpa using hspace)) hc
      · exact hname c hc
    · intro line params hwords hne hreturn
      have hlast : line.getLast? ≠ some 13 := fun hl => hreturn (List.mem_of_getLast? hl)
      rw [parseAnswerLine, if_neg hne, if_neg hlast]
      change parseParams lex _ (line.splitOn 32) = _
      rw [hwords]
      rfl

theorem data_round_trip_line_ends :
    RoundTrips .signed (makeDataAnswer (fun _ => []) (.string [13, 10, 0, 32]) (.int (-5)) .none)
      (.string [13, 10, 0, 32]) (.int (-5)) .none :=
  (data_round_trip signed_readsNumbers ⟨rfl, rfl, rfl⟩ (by decide)).1 (by decide +kernel)

end RoundTrip

end Text

end Tiodb
