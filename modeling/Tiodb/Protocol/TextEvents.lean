import Tiodb.Protocol.PyReader

/-!
# Events and query records as text

`SendTextEvent` and `SendTextResultSetItem` of `TioTcpSession.cpp` write the fields of
a message in their own way, beside `SerializeData`. A datum whose text is empty is not
written by them; a message without data has no line end from `SerializeData`. The text
is read by `ExtractFieldSet` and by `ReceiveDataAnswer` of `tioclient.py`, which counts
characters where the sizes are bytes.
-/

namespace Tiodb

open Lib
open Python (pyDecode datum ReadsDatum)

namespace Text

/-! ## The writers -/

section Writer

variable (doubles : UInt64 → Bytes)

def tioDataToString (data : TioData) : Bytes := if data.isNull then [] else dataText doubles data

/-- The fields of `SendTextEvent` and of `SendTextResultSetItem`, which have the same code. -/
def sendTextFields (key value metadata : TioData) : Bytes :=
  let fields := (namedData key value metadata).filter fun field => tioDataToString doubles field.2 ≠ []
  fields.flatMap (fieldSpec doubles) ++ lineEnd ++ fields.flatMap (fieldBytes doubles)

def eventCodeToEventName : ContainerEventCode → Bytes
  | .pushBack => ascii "push_back"
  | .pushFront => ascii "push_front"
  | .set => ascii "set"
  | .delete => ascii "delete"
  | .insert => ascii "insert"
  | .clear => ascii "clear"
  | .snapshotEnd => ascii "snapshot_end"

def sendTextEvent (handle : UInt32) (eventCode : ContainerEventCode) (key value metadata : TioData) : Bytes :=
  ascii "event " ++ digits handle.toNat ++ ascii " " ++ eventCodeToEventName eventCode ++
    sendTextFields doubles key value metadata

def sendTextResultSetItem (queryID : UInt32) (key value metadata : TioData) : Bytes :=
  ascii "query " ++ digits queryID.toNat ++ ascii " item" ++ sendTextFields doubles key value metadata

end Writer

/-! ## The readers -/

/-- The fields after the first three words of the line, as `ExtractFieldSet` reads them. -/
def decode (lex : LexicalCast) (message : Bytes) : Option Fields := do
  let (line, payload) ← splitLine message
  match extractFieldSet lex ((line.splitOn 32).drop 3) payload with
  | some (.ok (.fields f)) => some f
  | _ => none

variable {doubles : UInt64 → Bytes} {lex : LexicalCast} {toDecimal : Bytes → Option Rat}
  {field : Bytes × TioData} {fields : List (Bytes × TioData)} {key value metadata : TioData}

/-! ## What a message gives back -/

/-- The chunks are the text, cut in any way. -/
structure CutFrom (text : Bytes) (chunks : List Bytes) : Prop where
  text : chunks.flatten = text
  filled : ∀ chunk ∈ chunks, chunk ≠ []

variable (lex toDecimal) in
/-- Both readers make the three data of the message that comes in the chunks. -/
def Gives (chunks : List Bytes) (key value metadata : TioData) : Prop :=
  decode lex chunks.flatten = some ⟨key, value, metadata⟩ ∧
    pyDecode toDecimal chunks = some ⟨PyData.of key, PyData.of value, PyData.of metadata⟩

theorem pyValue_text (h : Sent doubles field) :
    pyValue toDecimal (dataTypeAsString field.2) (dataText doubles field.2) = some (PyData.of field.2) := by
  have hpresent := h.present
  have hwhole := h.whole
  cases hd : field.2 with
  | none => simp [hd, TioData.isNull] at hpresent
  | double bits => simp [hd, TioData.isDouble] at hwhole
  | int i => rw [dataTypeAsString, dataText, pyValue, if_pos rfl, pyInt_intDigits]; rfl
  | string s => rw [dataTypeAsString, dataText, pyValue, if_neg (by decide), if_neg (by decide), if_pos rfl]; rfl

/-- A word without white space, of ASCII. -/
def Plain (w : Bytes) : Prop := ∀ c ∈ w, isSpace c = false ∧ c < 128

instance : DecidablePred Plain := fun w => inferInstanceAs (Decidable (∀ c ∈ w, _))

theorem plain_digits (n : Nat) : Plain (digits n) := by
  intro c hc
  refine ⟨?_, UInt8.lt_trans (plain_of_mem_digits hc).2 (by decide)⟩
  by_contra hspace
  exact not_mem_digits (isDigit_of_isSpace (by simpa using hspace)) hc

theorem plain_eventName (eventCode : ContainerEventCode) : Plain (eventCodeToEventName eventCode) := by
  cases eventCode <;> decide +kernel

theorem ascii_fieldWords (h : field ∈ namedData key value metadata) :
    ∀ w ∈ fieldWords doubles field, ∀ c ∈ w, c < 128 := by
  have hname : ∀ c ∈ field.1, c < 128 := by
    simp only [namedData, List.mem_cons, List.not_mem_nil, or_false] at h
    rcases h with rfl | rfl | rfl <;> simp [ascii]
  have htype : ∀ c ∈ dataTypeAsString field.2, c < 128 := by
    cases field.2 <;> simp [dataTypeAsString, ascii]
  simp only [fieldWords, List.forall_mem_cons, List.not_mem_nil, false_implies, implies_true, and_true]
  exact ⟨hname, htype, fun c hc => (plain_digits _ c hc).2⟩

/-- A message that has a field for each of some of the three data gives back the three exactly if the others are
none and the text of each field is ASCII. -/
theorem gives_sent (hlex : ReadsNumbers lex) {w₁ w₂ w₃ : Bytes} (hw : ∀ v ∈ [w₁, w₂, w₃], Plain v)
    (hdoubles : key.isDouble = false ∧ value.isDouble = false ∧ metadata.isDouble = false)
    (hsize : ∀ d ∈ [key, value, metadata], (dataText doubles d).length ≤ maxStringSize) (sends : TioData → Bool)
    (hsends : ∀ d, sends d → d.isNull = false) {chunks : List Bytes} :
    let fields := (namedData key value metadata).filter fun field => sends field.2
    let kept (d : TioData) := if sends d then d else .none
    CutFrom (w₁ ++ [w₂, w₃].flatMap (32 :: ·) ++
        (fields.flatMap (fieldSpec doubles) ++ lineEnd ++ fields.flatMap (fieldBytes doubles))) chunks →
      (Gives lex toDecimal chunks key value metadata ↔
        (kept key = key ∧ kept value = value ∧ kept metadata = metadata) ∧
          ∀ field ∈ fields, ∀ c ∈ dataText doubles field.2, c < 128) := by
  intro fields kept hcut
  have hsent : ∀ field ∈ fields, Sent doubles field := by
    refine sent_namedData hdoubles hsends fun field hf => hsize _ ?_
    have hmem := List.mem_of_mem_filter hf
    simp only [namedData, List.mem_cons, List.not_mem_nil, or_false] at hmem
    rcases hmem with rfl | rfl | rfl <;> simp
  let line := w₁ ++ [w₂, w₃].flatMap (32 :: ·) ++ fields.flatMap (fieldSpec doubles)
  have htext : chunks.flatten = line ++ lineEnd ++ fields.flatMap (fieldBytes doubles) := by
    rw [hcut.text, ← List.append_assoc, ← List.append_assoc]
  obtain ⟨hsplit, hwords, -⟩ := line_spec (fun v hv c hc => (hw v hv c hc).1) hsent (fields.flatMap (fieldBytes doubles))
  rw [← htext] at hsplit
  have hdrop : (line.splitOn 32).drop 3 = fields.flatMap (fieldWords doubles) := by
    rw [hwords]
    rfl
  have hline : ∀ c ∈ line, c < 128 := by
    have hspec : ∀ c ∈ fields.flatMap (fieldSpec doubles), c < 128 := by
      rw [flatMap_fieldSpec]
      intro c hc
      obtain ⟨w, hwords, hc⟩ := List.mem_flatMap.mp hc
      obtain ⟨field, hfield, hmem⟩ := List.mem_flatMap.mp hwords
      rcases List.mem_cons.mp hc with rfl | hc
      · decide
      · exact ascii_fieldWords (List.mem_of_mem_filter hfield) w hmem c hc
    have hwide (v : Bytes) (hv : v ∈ [w₁, w₂, w₃]) : ∀ c ∈ v, c < 128 := fun c hc => (hw v hv c hc).2
    have hblank : (32 : UInt8) < 128 := by decide
    simp only [line, List.flatMap_cons, List.flatMap_nil, List.append_nil, List.forall_mem_append,
      List.forall_mem_cons]
    exact ⟨⟨hwide w₁ (by simp), ⟨hblank, hwide w₂ (by simp)⟩, hblank, hwide w₃ (by simp)⟩, hspec⟩
  have hdecode : decode lex chunks.flatten = some ⟨kept key, kept value, kept metadata⟩ := by
    have htotal : ¬(fields.flatMap (fieldBytes doubles)).length <
        (UInt64.ofNat (fields.flatMap (fieldBytes doubles)).length).toNat := by
      rw [UInt64.toNat_ofNat']
      exact Nat.not_lt.mpr (Nat.mod_le _ _)
    rw [decode, hsplit]
    simp only [Option.bind_eq_bind, Option.bind_some]
    rw [hdrop, extractFieldSet, extractFields_words hlex hsent]
    dsimp only
    rw [if_neg htotal, extractFieldsFromBuffer_bytes hlex hsent, foldl_namedData]
    rfl
  have hpy (hascii : ∀ field ∈ fields, ∀ c ∈ dataText doubles field.2, c < 128) : pyDecode toDecimal chunks =
      some ⟨PyData.of (kept key), PyData.of (kept value), PyData.of (kept metadata)⟩ := by
    have hreads : ∀ field ∈ fields, ReadsDatum doubles toDecimal field.2 := fun field hf =>
      ⟨hascii field hf, by rw [pyValue_text (hsent field hf)]; rfl⟩
    have hdatum (name : Bytes) (d : TioData) (hmem : (name, d) ∈ namedData key value metadata) :
        (if sends d then datum doubles toDecimal d else PyData.none) = PyData.of (kept d) := by
      cases hd : sends d with
      | false => simp [kept, hd, PyData.of]
      | true =>
        have hfield : (name, d) ∈ fields := List.mem_filter.mpr ⟨hmem, hd⟩
        rw [if_pos rfl, datum, pyValue_text (hsent _ hfield)]
        simp [kept, hd]
    have hwhole : ∀ c ∈ chunks.flatten, c < 128 := by
      rw [htext, List.forall_mem_append]
      refine ⟨ascii_append_lineEnd hline, fun c hc => ?_⟩
      obtain ⟨field, hf, hc⟩ := List.mem_flatMap.mp hc
      exact ascii_append_lineEnd (hascii field hf) c hc
    have hdata := Python.run_receiveDataAnswer hreads {} []
    rw [List.append_nil, Python.foldl_set_namedData sends (datum doubles toDecimal) ⟨key, value, metadata⟩,
      hdatum (ascii "key") key (by simp [namedData]), hdatum (ascii "value") value (by simp [namedData]),
      hdatum (ascii "metadata") metadata (by simp [namedData])] at hdata
    have hrun : (Python.receiveMessage toDecimal).run Python.textServer chunks.flatten =
        some (.ok ⟨PyData.of (kept key), PyData.of (kept value), PyData.of (kept metadata)⟩, []) := by
      refine (Calling.run_bind_of ((Calling.run_ask _ _).trans hsplit) _).trans ?_
      rw [hdrop]
      exact hdata
    exact Python.pyDecode_of_text hcut.filled hwhole hrun
  rw [Gives, hdecode, Option.some.injEq, Fields.mk.injEq]
  constructor
  · rintro ⟨hkept, hgives⟩
    have hascii := Python.ascii_of_pyDecode hline htext hsplit hdrop hgives
    refine ⟨hkept, fun field hf c hc => hascii c ?_⟩
    rw [htext, List.mem_append]
    exact .inr (List.mem_flatMap.mpr ⟨field, hf, List.mem_append_left _ hc⟩)
  · rintro ⟨hkept, hascii⟩
    refine ⟨hkept, ?_⟩
    rw [hpy hascii, hkept.1, hkept.2.1, hkept.2.2]

theorem splitLine_none {line : Bytes} (h : 10 ∉ line) : splitLine line = none := by
  induction line with
  | nil => rfl
  | cons c line ih =>
    rw [splitLine, ih fun hmem => h (by simp [hmem])]
    · rfl
    · rintro tail rfl rfl
      exact h (by simp)

/-- A string of ASCII, or none. -/
def Ascii : TioData → Prop
  | .string s => ∀ c ∈ s, c < 128
  | _ => True

instance : DecidablePred Ascii
  | .none => isTrue trivial
  | .int _ => isTrue trivial
  | .double _ => isTrue trivial
  | .string s => inferInstanceAs (Decidable (∀ c ∈ s, c < 128))

theorem ascii_intDigits (i : Int) : ∀ c ∈ intDigits i, c < 128 := by
  have hdigits (n : Nat) : ∀ c ∈ digits n, c < 128 := fun c hc => (plain_digits n c hc).2
  unfold intDigits
  split_ifs
  · exact List.forall_mem_cons.mpr ⟨by decide, hdigits _⟩
  · exact hdigits _

theorem intDigits_ne_nil (i : Int) : intDigits i ≠ [] := by
  unfold intDigits
  split_ifs
  · exact List.cons_ne_nil _ _
  · exact digits_ne_nil _

section Sends

variable {d : TioData}

theorem kept_text (h : d.isDouble = false) :
    (if decide (tioDataToString doubles d ≠ []) then d else .none) = d ↔ d ≠ .string [] := by
  cases d with
  | none => simp [tioDataToString, TioData.isNull]
  | int i => simp [tioDataToString, TioData.isNull, dataText, intDigits_ne_nil]
  | double bits => simp [TioData.isDouble] at h
  | string s =>
    by_cases hs : s = []
    · simp [tioDataToString, TioData.isNull, dataText, hs]
    · simp [tioDataToString, TioData.isNull, dataText, hs]

theorem ascii_text (h : d.isDouble = false) :
    (tioDataToString doubles d ≠ [] → ∀ c ∈ dataText doubles d, c < 128) ↔ Ascii d := by
  cases d with
  | none => simp [tioDataToString, TioData.isNull, Ascii]
  | int i => exact iff_of_true (fun _ => ascii_intDigits i.toInt) trivial
  | double bits => simp [TioData.isDouble] at h
  | string s =>
    refine ⟨fun hsent c hc => hsent ?_ c hc, fun hascii _ => hascii⟩
    exact List.ne_nil_of_mem hc

theorem ascii_datum (h : d.isDouble = false) :
    (d.isNull = false → ∀ c ∈ dataText doubles d, c < 128) ↔ Ascii d := by
  cases d with
  | none => simp [TioData.isNull, Ascii]
  | int i => exact iff_of_true (fun _ => ascii_intDigits i.toInt) trivial
  | double bits => simp [TioData.isDouble] at h
  | string s => exact ⟨fun hsent => hsent rfl, fun hascii _ => hascii⟩

end Sends

theorem forall_mem_sent (sends : TioData → Bool) (P : TioData → Prop) :
    (∀ field ∈ (namedData key value metadata).filter fun field => sends field.2, P field.2) ↔
      (sends key → P key) ∧ (sends value → P value) ∧ (sends metadata → P metadata) := by
  simp [namedData, List.mem_filter]

variable (key value metadata) in
/-- There is a datum, and each string is of ASCII and not empty. -/
def Texted : Prop :=
  (∀ d ∈ [key, value, metadata], d ≠ .string [] ∧ Ascii d) ∧ ¬(key.isNull ∧ value.isNull ∧ metadata.isNull)

instance : Decidable (Texted key value metadata) :=
  inferInstanceAs (Decidable ((∀ d ∈ [key, value, metadata], d ≠ .string [] ∧ Ascii d) ∧ ¬_))

theorem gives_texted_iff (hlex : ReadsNumbers lex) {w₁ w₂ w₃ : Bytes} (hw : ∀ v ∈ [w₁, w₂, w₃], Plain v)
    (hdoubles : key.isDouble = false ∧ value.isDouble = false ∧ metadata.isDouble = false)
    (hsize : ∀ d ∈ [key, value, metadata], (dataText doubles d).length ≤ maxStringSize) {chunks chunks' : List Bytes} :
    let head := w₁ ++ [w₂, w₃].flatMap (32 :: ·)
    CutFrom (head ++ sendTextFields doubles key value metadata) chunks →
      CutFrom (head ++ serializeData doubles key value metadata) chunks' →
        (Gives lex toDecimal chunks key value metadata ∧ Gives lex toDecimal chunks' key value metadata ↔
          Texted key value metadata) := by
  intro head hcut hcut'
  have hsend : Gives lex toDecimal chunks key value metadata ↔ ∀ d ∈ [key, value, metadata], d ≠ .string [] ∧ Ascii d := by
    have hsends (d : TioData) (hd : decide (tioDataToString doubles d ≠ [])) : d.isNull = false := by
      by_contra hnull
      exact of_decide_eq_true hd (if_pos (by simpa using hnull))
    have hgives : Gives lex toDecimal chunks key value metadata ↔ _ :=
      gives_sent hlex hw hdoubles hsize (fun d => decide (tioDataToString doubles d ≠ [])) hsends hcut
    rw [hgives, forall_mem_sent (fun d => decide (tioDataToString doubles d ≠ []))
      (fun d => ∀ c ∈ dataText doubles d, c < 128), kept_text hdoubles.1, kept_text hdoubles.2.1,
      kept_text hdoubles.2.2]
    simp only [decide_eq_true_eq, ascii_text hdoubles.1, ascii_text hdoubles.2.1, ascii_text hdoubles.2.2,
      List.forall_mem_cons, List.not_mem_nil, false_implies, implies_true, and_true]
    tauto
  have hserialize : Gives lex toDecimal chunks' key value metadata ↔
      (∀ d ∈ [key, value, metadata], Ascii d) ∧ ¬(key.isNull ∧ value.isNull ∧ metadata.isNull) := by
    by_cases hnull : key.isNull ∧ value.isNull ∧ metadata.isNull
    · refine iff_of_false ?_ (fun h => h.2 hnull)
      rintro ⟨hdecode, -⟩
      have hline : 10 ∉ head := by
        have hfree (v : Bytes) (hv : v ∈ [w₁, w₂, w₃]) : 10 ∉ v := fun hmem => by cases (hw v hv 10 hmem).1
        simp [head, hfree]
      rw [hcut'.text, serializeData, if_pos (by simp [hnull]), List.append_nil, decode, splitLine_none hline] at hdecode
      cases hdecode
    · rw [serializeData, if_neg (by simpa [and_assoc] using hnull)] at hcut'
      have hkept (d : TioData) : (if d.isNull = false then d else .none) = d := by
        cases d <;> rfl
      have hgives : Gives lex toDecimal chunks' key value metadata ↔ _ :=
        gives_sent hlex hw hdoubles hsize (fun d => !d.isNull) (by simp) hcut'
      rw [hgives, forall_mem_sent (fun d => !d.isNull) (fun d => ∀ c ∈ dataText doubles d, c < 128)]
      simp only [Bool.not_eq_true', hkept, ascii_datum hdoubles.1, ascii_datum hdoubles.2.1, ascii_datum hdoubles.2.2,
        List.forall_mem_cons, List.not_mem_nil, false_implies, implies_true, and_true, true_and, hnull,
        not_false_eq_true]
  rw [hsend, hserialize, Texted]
  constructor
  · rintro ⟨htexted, -, hsome⟩
    exact ⟨htexted, hsome⟩
  · rintro ⟨htexted, hsome⟩
    exact ⟨htexted, fun d hd => (htexted d hd).2, hsome⟩

/-- For every event and every record of a query, in whatever chunks they come. -/
theorem text_event_iff (hlex : ReadsNumbers lex)
    (hdoubles : key.isDouble = false ∧ value.isDouble = false ∧ metadata.isDouble = false)
    (hsize : ∀ d ∈ [key, value, metadata], (dataText doubles d).length ≤ maxStringSize) :
    (∀ handle eventCode chunks chunks', CutFrom (sendTextEvent doubles handle eventCode key value metadata) chunks →
      CutFrom (makeEventAnswer doubles (eventCodeToEventName eventCode) handle key value metadata) chunks' →
        (Gives lex toDecimal chunks key value metadata ∧ Gives lex toDecimal chunks' key value metadata ↔
          Texted key value metadata)) ∧
    ∀ (queryID : UInt32) chunks chunks',
      CutFrom (sendTextResultSetItem doubles queryID key value metadata) chunks →
      CutFrom (ascii "query " ++ digits queryID.toNat ++ ascii " item" ++ serializeData doubles key value metadata)
          chunks' →
        (Gives lex toDecimal chunks key value metadata ∧ Gives lex toDecimal chunks' key value metadata ↔
          Texted key value metadata) := by
  constructor
  · intro handle eventCode chunks chunks'
    have hwords : ∀ v ∈ [ascii "event", digits handle.toNat, eventCodeToEventName eventCode], Plain v := by
      have hevent : Plain (ascii "event") := by decide +kernel
      simp only [List.forall_mem_cons, List.not_mem_nil, false_imp_iff, implies_true, and_true]
      exact ⟨hevent, plain_digits _, plain_eventName _⟩
    have hhead : ascii "event " ++ digits handle.toNat ++ ascii " " ++ eventCodeToEventName eventCode =
        ascii "event" ++ [digits handle.toNat, eventCodeToEventName eventCode].flatMap (32 :: ·) := by
      simp [ascii]
    rw [sendTextEvent, makeEventAnswer, hhead]
    exact gives_texted_iff hlex hwords hdoubles hsize
  · intro queryID chunks chunks'
    have hwords : ∀ v ∈ [ascii "query", digits queryID.toNat, ascii "item"], Plain v := by
      have hquery : Plain (ascii "query") := by decide +kernel
      have hitem : Plain (ascii "item") := by decide +kernel
      simp only [List.forall_mem_cons, List.not_mem_nil, false_imp_iff, implies_true, and_true]
      exact ⟨hquery, plain_digits _, hitem⟩
    have hhead : ascii "query " ++ digits queryID.toNat ++ ascii " item" =
        ascii "query" ++ [digits queryID.toNat, ascii "item"].flatMap (32 :: ·) := by
      simp [ascii]
    rw [sendTextResultSetItem, hhead]
    exact gives_texted_iff hlex hwords hdoubles hsize

def blankKey : Bytes := ascii "event 7 set key string 1 value int 2\r\n \r\n-1\r\n"

/-- An event with the key " ", in three pieces and in one. -/
theorem text_event_blank_key :
    Gives .signed (fun _ => none) [blankKey.take 20, (blankKey.drop 20).take 20, blankKey.drop 40]
        (.string [32]) (.int (-1)) .none ∧
      Gives .signed (fun _ => none) [blankKey] (.string [32]) (.int (-1)) .none :=
  have hcut : CutFrom (sendTextEvent (fun _ => []) 7 .set (.string [32]) (.int (-1)) .none)
      [blankKey.take 20, (blankKey.drop 20).take 20, blankKey.drop 40] := ⟨by decide +kernel, by decide +kernel⟩
  ((text_event_iff signed_readsNumbers ⟨rfl, rfl, rfl⟩ (by decide +kernel)).1 7 .set _ _ hcut
    ⟨by decide +kernel, by decide +kernel⟩).mpr (by decide +kernel)

/-- An event with an empty string is read as one without the datum, one without data as no line, and one with a string
of two bytes and one character not at all. -/
theorem empty_value_is_dropped :
    decode .signed (sendTextEvent (fun _ => []) 7 .set (.string [97]) (.string []) .none) =
        some ⟨.string [97], .none, .none⟩ ∧
      pyDecode (fun _ => none) [sendTextEvent (fun _ => []) 7 .set (.string [97]) (.string []) .none] =
        some ⟨.str [97], .none, .none⟩ ∧
      decode .signed (makeEventAnswer (fun _ => []) (ascii "set") 7 (.string [97]) (.string []) .none) =
        some ⟨.string [97], .string [], .none⟩ ∧
      decode .signed (makeEventAnswer (fun _ => []) (ascii "clear") 7 .none .none .none) = none ∧
      ∀ chunks, CutFrom (sendTextEvent (fun _ => []) 7 .set (.string [0xC3, 0xA9]) .none .none) chunks →
        ∀ f, pyDecode (fun _ => none) chunks ≠ some f := by
  refine ⟨by decide +kernel, ?_, by decide +kernel, by decide +kernel, fun chunks hcut f hf => ?_⟩
  · have hrun : (Python.receiveMessage fun _ => none).run Python.textServer
        [sendTextEvent (fun _ => []) 7 .set (.string [97]) (.string []) .none].flatten =
          some (.ok ⟨.str [97], .none, .none⟩, []) := by decide +kernel
    exact Python.pyDecode_of_text (by decide +kernel) (by decide +kernel) hrun
  · have hfields : chunks.flatten = ascii "event 7 set key string 2" ++ lineEnd ++
        [(ascii "key", TioData.string [0xC3, 0xA9])].flatMap (fieldBytes fun _ => []) := by
      rw [hcut.text]
      decide +kernel
    have hascii := Python.ascii_of_pyDecode (by decide +kernel) hfields (by rw [hfields]; decide +kernel)
      (by decide +kernel) hf
    rw [hfields] at hascii
    exact absurd hascii (by decide +kernel)

end Text

end Tiodb
