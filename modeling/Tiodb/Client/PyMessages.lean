import Tiodb.Client.PyAnswer
import Tiodb.Server.OneReply

/-!
# The text of a connection, as the Python client reads it

Answers, result sets, events and containers of groups, as `TioTcpSession.cpp` and
`TioTcpProtocol.h` write them one behind the other. Each is read as one turn of the loop of
`ReceiveAnswer`, and takes its own text and no other.
-/

namespace Tiodb.Python

open Lib
open Text

/-- What a text session is sent. -/
inductive Message where
  | simpleOk
  | answer (a : Tiodb.Answer)
  | resultSetStart (queryId : UInt32)
  | resultSetItem (queryId : UInt32) (record : Fields)
  | resultSetEnd (queryId : UInt32)
  | event (handle : UInt32) (eventCode : ContainerEventCode) (data : Fields)
  | groupContainer (groupName containerName containerType : Bytes) (handle : UInt32)
  deriving DecidableEq

section Texts

variable (doubles : UInt64 → Bytes)

def answerText : Tiodb.Answer → Bytes
  | .ok text => makeAnswerStart .success text ++ lineEnd
  | .error text => makeAnswerStart .error text ++ lineEnd
  | .data key value metadata => makeDataAnswer doubles key value metadata

/-- `GenerateSimpleOkAnswer`, `SendTextResultSetStart`, `SendTextResultSetEnd` and `PublishNewGroupContainer` write the
lines that have no function of their own. -/
def Message.text : Message → Bytes
  | .simpleOk => ascii "answer ok" ++ lineEnd
  | .answer a => answerText doubles a
  | .resultSetStart queryId => ascii "answer ok query " ++ digits queryId.toNat ++ lineEnd
  | .resultSetItem queryId r => sendTextResultSetItem doubles queryId r.key r.value r.metadata
  | .resultSetEnd queryId => ascii "query " ++ digits queryId.toNat ++ ascii " end" ++ lineEnd
  | .event handle eventCode data => sendTextEvent doubles handle eventCode data.key data.value data.metadata
  | .groupContainer groupName containerName containerType handle =>
    ascii "group_container " ++ groupName ++ ascii " " ++ containerName ++ ascii " " ++ containerType ++ ascii " " ++
      digits handle.toNat ++ lineEnd

/-! ## What the client makes of a message -/

variable (toDecimal : Bytes → Option Rat)

def answerFields (f : Fields) : PyFields :=
  ⟨datum doubles toDecimal f.key, datum doubles toDecimal f.value, datum doubles toDecimal f.metadata⟩

/-- Events and records have no field for a datum without text. -/
def textDatum (d : TioData) : PyData := if tioDataToString doubles d = [] then .none else datum doubles toDecimal d

def textFields (f : Fields) : PyFields :=
  ⟨textDatum doubles toDecimal f.key, textDatum doubles toDecimal f.value, textDatum doubles toDecimal f.metadata⟩

/-- The client reads no data of these events. -/
def withoutData (eventCode : ContainerEventCode) : Bool := eventCode = .clear || eventCode = .snapshotEnd

def answerResult : Tiodb.Answer → Except PyError PyAnswer
  | .ok text =>
    let params := (cstr text).splitOn 32
    (lineAnswer params).getD (.error (.exception (ascii "invalid parameter type: " ++ params.headD [])))
  | .error text => .error (.exception (ascii "answer error " ++ cstr text))
  | .data key value metadata => .ok (.data (answerFields doubles toDecimal ⟨key, value, metadata⟩))

def Message.deliver (waitUntilAnswer : Bool) (c : ServerConnection) : Message → Turn
  | .simpleOk => (c, some (.ok .none))
  | .answer a => (c, some (answerResult doubles toDecimal a))
  | .resultSetStart queryId => (c.registerQuery (digits queryId.toNat), none)
  | .resultSetItem queryId r =>
    match c.addToQuery (digits queryId.toNat) (textFields doubles toDecimal r) with
    | some c => (c, none)
    | none => (c, some (.error .key))
  | .resultSetEnd queryId =>
    match c.finishQuery (digits queryId.toNat) with
    | some (items, c) => (c, some (.ok (.query items)))
    | none => (c, some (.error .key))
  | .event handle eventCode data =>
    (c.handleEvent handle.toNat (eventCodeToEventName eventCode)
        (if withoutData eventCode then {} else textFields doubles toDecimal data),
      if waitUntilAnswer then none else some (.ok .none))
  | .groupContainer groupName containerName containerType handle =>
    let c := c.addContainer handle.toNat containerType containerName
    match c.groupSinks groupName with
    | some sink => (c.addSink handle.toNat sink, none)
    | none => (c, some (.error .key))

/-! ## Messages that can be read -/

def ReadsText (f : Fields) : Prop :=
  ∀ d ∈ [f.key, f.value, f.metadata], tioDataToString doubles d ≠ [] → ReadsDatum doubles toDecimal d

/-- A line is one line, with as many words as were written, and a data answer has an end. -/
def Message.Readable : Message → Prop
  | .answer (.ok text) =>
    10 ∉ cstr text ∧ ∀ parameterType ∈ ((cstr text).splitOn 32).head?,
      parameterType ≠ ascii "data" ∧ parameterType ≠ ascii "query"
  | .answer (.error text) => 10 ∉ cstr text
  | .answer (.data key value metadata) =>
    (Answer.data key value metadata).Ended ∧
      ∀ d ∈ [key, value, metadata], d.isNull = false → ReadsDatum doubles toDecimal d
  | .resultSetItem _ r => ReadsText doubles toDecimal r
  | .event _ eventCode data =>
    if withoutData eventCode then ∀ d ∈ [data.key, data.value, data.metadata], tioDataToString doubles d = []
    else ReadsText doubles toDecimal data
  | .groupContainer groupName containerName containerType _ =>
    ∀ w ∈ [groupName, containerName, containerType], 32 ∉ w ∧ 10 ∉ w
  | _ => True

instance (f : Fields) : Decidable (ReadsText doubles toDecimal f) := inferInstanceAs (Decidable (∀ _ ∈ _, _))

instance : ∀ m : Message, Decidable (m.Readable doubles toDecimal)
  | .simpleOk => isTrue trivial
  | .answer (.ok _) => inferInstanceAs (Decidable (_ ∧ _))
  | .answer (.error _) => inferInstanceAs (Decidable (_ ∉ _))
  | .answer (.data key value metadata) =>
    inferInstanceAs (Decidable (¬ (key.isNull ∧ value.isNull ∧ metadata.isNull) ∧ ∀ _ ∈ _, _))
  | .resultSetStart _ => isTrue trivial
  | .resultSetItem _ r => inferInstanceAs (Decidable (ReadsText doubles toDecimal r))
  | .resultSetEnd _ => isTrue trivial
  | .event _ eventCode data =>
    inferInstanceAs (Decidable (if withoutData eventCode then
      ∀ d ∈ [data.key, data.value, data.metadata], tioDataToString doubles d = []
      else ReadsText doubles toDecimal data))
  | .groupContainer _ _ _ _ => inferInstanceAs (Decidable (∀ _ ∈ _, _))

end Texts

variable {doubles : UInt64 → Bytes} {toDecimal : Bytes → Option Rat}

/-! ## Lines -/

/-- A word of a line. -/
def Word.Plain (w : Bytes) : Prop := 32 ∉ w ∧ 10 ∉ w

theorem line_of_words {w : Bytes} {ws : List Bytes} (h : ∀ v ∈ w :: ws, Word.Plain v) (rest : Bytes) :
    splitLine (w ++ ws.flatMap (32 :: ·) ++ lineEnd ++ rest) = some (w ++ ws.flatMap (32 :: ·), rest) ∧
      (w ++ ws.flatMap (32 :: ·)).splitOn 32 = w :: ws := by
  have hw := h w List.mem_cons_self
  have hws (v : Bytes) (hv : v ∈ ws) : Word.Plain v := h v (List.mem_cons_of_mem w hv)
  refine ⟨splitLine_append ?_ rest, splitOn_words hw.1 fun v hv => (hws v hv).1⟩
  rw [List.mem_append, List.mem_flatMap]
  rintro (hmem | ⟨v, hv, hmem⟩)
  · exact hw.2 hmem
  · exact (hws v hv).2 ((List.mem_cons.mp hmem).resolve_left (by decide))

theorem plain_digits (n : Nat) : Word.Plain (digits n) :=
  ⟨fun h => absurd (plain_of_mem_digits h).1 (by decide), fun h => absurd (plain_of_mem_digits h).1 (by decide)⟩

theorem plain_eventName (eventCode : ContainerEventCode) : Word.Plain (eventCodeToEventName eventCode) := by
  cases eventCode <;> exact ⟨by decide, by decide⟩

theorem plain_fieldWords {f : Fields} {field : Bytes × TioData} (h : field ∈ namedData f.key f.value f.metadata) :
    ∀ w ∈ fieldWords doubles field, Word.Plain w := by
  have hname : Word.Plain field.1 := by
    simp only [namedData, List.mem_cons, List.not_mem_nil, or_false] at h
    rcases h with rfl | rfl | rfl <;> exact ⟨by simp [ascii], by simp [ascii]⟩
  have htype : Word.Plain (dataTypeAsString field.2) := by
    cases field.2 <;> exact ⟨by simp [dataTypeAsString, ascii], by simp [dataTypeAsString, ascii]⟩
  simp only [fieldWords, List.mem_cons, List.not_mem_nil, or_false]
  rintro w (rfl | rfl | rfl)
  · exact hname
  · exact htype
  · exact plain_digits _

section Fields

variable (doubles toDecimal) (f : Fields) (sends : TioData → Bool)

theorem line_of_fields {w : Bytes} {ws : List Bytes} (hw : ∀ v ∈ w :: ws, Word.Plain v) (rest : Bytes) :
    let fields := (namedData f.key f.value f.metadata).filter fun field => sends field.2
    let line := w ++ (ws ++ fields.flatMap (fieldWords doubles)).flatMap (32 :: ·)
    splitLine (w ++ ws.flatMap (32 :: ·) ++ (fields.flatMap (fieldSpec doubles) ++ lineEnd ++
        fields.flatMap (fieldBytes doubles)) ++ rest) = some (line, fields.flatMap (fieldBytes doubles) ++ rest) ∧
      line.splitOn 32 = w :: (ws ++ fields.flatMap (fieldWords doubles)) := by
  intro fields line
  have hwords : ∀ v ∈ w :: (ws ++ fields.flatMap (fieldWords doubles)), Word.Plain v := by
    intro v hv
    rcases List.mem_cons.mp hv with rfl | hv
    · exact hw _ List.mem_cons_self
    rcases List.mem_append.mp hv with hv | hv
    · exact hw v (List.mem_cons_of_mem _ hv)
    · obtain ⟨field, hfield, hv⟩ := List.mem_flatMap.mp hv
      exact plain_fieldWords (List.mem_of_mem_filter hfield) v hv
  have htext : w ++ ws.flatMap (32 :: ·) ++ (fields.flatMap (fieldSpec doubles) ++ lineEnd ++
      fields.flatMap (fieldBytes doubles)) ++ rest =
      line ++ lineEnd ++ (fields.flatMap (fieldBytes doubles) ++ rest) := by
    simp only [line, flatMap_fieldSpec, List.flatMap_append, List.append_assoc]
  rw [htext]
  exact line_of_words hwords _

theorem run_dataOf (h : ∀ d ∈ [f.key, f.value, f.metadata], sends d → ReadsDatum doubles toDecimal d) (rest : Bytes) :
    let fields := (namedData f.key f.value f.metadata).filter fun field => sends field.2
    let sent (d : TioData) := if sends d then datum doubles toDecimal d else .none
    (receiveDataAnswer toDecimal (fields.flatMap (fieldWords doubles)) {}).run textServer
        (fields.flatMap (fieldBytes doubles) ++ rest) =
      some (.ok ⟨sent f.key, sent f.value, sent f.metadata⟩, rest) := by
  intro fields sent
  have hreads : ∀ field ∈ fields, ReadsDatum doubles toDecimal field.2 := by
    intro field hfield
    obtain ⟨hmem, hsends⟩ := List.mem_filter.mp hfield
    refine h field.2 ?_ hsends
    simp only [namedData, List.mem_cons, List.not_mem_nil, or_false] at hmem
    rcases hmem with rfl | rfl | rfl <;> simp
  rw [run_receiveDataAnswer hreads, foldl_set_namedData]

end Fields

theorem sent_textFields (f : Fields) :
    (⟨if tioDataToString doubles f.key ≠ [] then datum doubles toDecimal f.key else .none,
      if tioDataToString doubles f.value ≠ [] then datum doubles toDecimal f.value else .none,
      if tioDataToString doubles f.metadata ≠ [] then datum doubles toDecimal f.metadata else .none⟩ : PyFields) =
      textFields doubles toDecimal f := by
  simp only [textFields, textDatum, ite_not]

/-! ## A turn for each message -/

section Turns

variable {waitUntilAnswer : Bool} {c : ServerConnection} {line : Bytes} {params : List Bytes}

theorem onLine_ok (h : line.splitOn 32 = ascii "answer" :: ascii "ok" :: params) :
    onLine toDecimal waitUntilAnswer c line = onOk toDecimal c params := by
  rw [onLine, h]
  rfl

theorem onLine_error (h : line.splitOn 32 = ascii "answer" :: ascii "error" :: params) :
    onLine toDecimal waitUntilAnswer c line = pure (c, some (.error (.exception line))) := by
  rw [onLine, h]
  rfl

theorem onLine_query (h : line.splitOn 32 = ascii "query" :: params) :
    onLine toDecimal waitUntilAnswer c line = onQuery toDecimal c params := by
  rw [onLine, h]
  rfl

theorem onLine_groupContainer (h : line.splitOn 32 = ascii "group_container" :: params) :
    onLine toDecimal waitUntilAnswer c line = pure (onGroupContainer c params) := by
  rw [onLine, h]
  rfl

theorem onLine_event (h : line.splitOn 32 = ascii "event" :: params) :
    onLine toDecimal waitUntilAnswer c line = onEvent toDecimal waitUntilAnswer c params := by
  rw [onLine, h]
  rfl

theorem onEvent_digits (handle : Nat) (name : Bytes) :
    onEvent toDecimal waitUntilAnswer c (digits handle :: name :: params) = (
      let left := if waitUntilAnswer then none else some (.ok .none)
      if name = ascii "clear" ∨ name = ascii "snapshot_end" then pure (c.handleEvent handle name {}, left)
      else do
        match ← receiveDataAnswer toDecimal params {} with
        | .ok fields => pure (c.handleEvent handle name fields, left)
        | .error e => pure (c.handleEvent handle name {}, some (.error e)) : PyM Turn) := by
  unfold onEvent
  dsimp only
  rewrite [pyInt_digits]
  rfl

theorem withoutData_iff (eventCode : ContainerEventCode) :
    eventCodeToEventName eventCode = ascii "clear" ∨ eventCodeToEventName eventCode = ascii "snapshot_end" ↔
      withoutData eventCode := by
  cases eventCode <;> simp [eventCodeToEventName, withoutData, ascii]

/-- The first line of the text, and what its turn does with the text after it. -/
def TakenBy (text rest : Bytes) (turn : Bytes → PyM Turn) (t : Turn) : Prop :=
  ∃ line after, splitLine (text ++ rest) = some (line, after) ∧ (turn line).run textServer after = some (t, rest)

theorem takenBy_line (w : Bytes) (ws : List Bytes) (h : ∀ v ∈ w :: ws, Word.Plain v) {turn : Bytes → PyM Turn}
    {t : Turn} {text : Bytes} (htext : text = w ++ ws.flatMap (32 :: ·) ++ lineEnd) (rest : Bytes)
    (hturn : ∀ line : Bytes, line.splitOn 32 = w :: ws → (turn line).run textServer rest = some (t, rest)) :
    TakenBy text rest turn t := by
  obtain ⟨hsplit, hwords⟩ := line_of_words h rest
  exact ⟨_, rest, htext ▸ hsplit, hturn _ hwords⟩

theorem takenBy_event {handle : UInt32} {eventCode : ContainerEventCode} {data : Fields}
    (h : (Message.event handle eventCode data).Readable doubles toDecimal) (rest : Bytes) :
    TakenBy ((Message.event handle eventCode data).text doubles) rest (onLine toDecimal waitUntilAnswer c)
      ((Message.event handle eventCode data).deliver doubles toDecimal waitUntilAnswer c) := by
  have hw : ∀ v ∈ [ascii "event", digits handle.toNat, eventCodeToEventName eventCode], Word.Plain v := by
    simp only [List.forall_mem_cons, List.not_mem_nil, false_implies, implies_true, and_true]
    exact ⟨⟨by decide, by decide⟩, plain_digits _, plain_eventName _⟩
  obtain ⟨hsplit, hwords⟩ := line_of_fields doubles data (fun d => tioDataToString doubles d ≠ []) hw rest
  have htext : (Message.event handle eventCode data).text doubles =
      ascii "event" ++ [digits handle.toNat, eventCodeToEventName eventCode].flatMap (32 :: ·) ++
        sendTextFields doubles data.key data.value data.metadata := by
    simp [Message.text, sendTextEvent, ascii]
  refine ⟨_, _, (congrArg (fun t => splitLine (t ++ rest)) htext).trans hsplit, ?_⟩
  rw [onLine_event hwords, List.cons_append, List.cons_append, onEvent_digits]
  dsimp only
  rw [Message.Readable] at h
  rw [Message.deliver]
  by_cases hwithout : withoutData eventCode
  · rw [if_pos hwithout] at h ⊢
    rw [if_pos ((withoutData_iff eventCode).mpr hwithout)]
    have hnone : (namedData data.key data.value data.metadata).filter
        (fun field => tioDataToString doubles field.2 ≠ []) = [] := by
      simpa [namedData, List.filter_eq_nil_iff] using h
    rw [hnone]
    rfl
  · rw [if_neg hwithout] at h ⊢
    rw [if_neg (mt (withoutData_iff eventCode).mp hwithout)]
    have hdata := run_dataOf doubles toDecimal data (fun d => tioDataToString doubles d ≠ [])
      (fun d hd hsends => h d hd (of_decide_eq_true hsends)) rest
    refine (Calling.run_bind_of hdata _).trans ?_
    simp only [decide_eq_true_eq, sent_textFields]
    rfl

/-! ### Result sets -/

theorem takenBy_resultSetItem {queryId : UInt32} {r : Fields}
    (h : (Message.resultSetItem queryId r).Readable doubles toDecimal) (rest : Bytes) :
    TakenBy ((Message.resultSetItem queryId r).text doubles) rest (onLine toDecimal waitUntilAnswer c)
      ((Message.resultSetItem queryId r).deliver doubles toDecimal waitUntilAnswer c) := by
  have hw : ∀ v ∈ [ascii "query", digits queryId.toNat, ascii "item"], Word.Plain v := by
    simp only [List.forall_mem_cons, List.not_mem_nil, false_implies, implies_true, and_true]
    exact ⟨⟨by decide, by decide⟩, plain_digits _, by decide, by decide⟩
  obtain ⟨hsplit, hwords⟩ := line_of_fields doubles r (fun d => tioDataToString doubles d ≠ []) hw rest
  have htext : (Message.resultSetItem queryId r).text doubles =
      ascii "query" ++ [digits queryId.toNat, ascii "item"].flatMap (32 :: ·) ++
        sendTextFields doubles r.key r.value r.metadata := by
    simp [Message.text, sendTextResultSetItem, ascii]
  refine ⟨_, _, (congrArg (fun t => splitLine (t ++ rest)) htext).trans hsplit, ?_⟩
  rw [onLine_query hwords, List.cons_append, List.cons_append, onQuery, if_pos rfl]
  rw [Message.Readable] at h
  have hdata := run_dataOf doubles toDecimal r (fun d => tioDataToString doubles d ≠ [])
    (fun d hd hsends => h d hd (of_decide_eq_true hsends)) rest
  refine (Calling.run_bind_of hdata _).trans ?_
  simp only [decide_eq_true_eq, sent_textFields]
  rw [Message.deliver]
  cases c.addToQuery (digits queryId.toNat) (textFields doubles toDecimal r) <;> rfl

theorem takenBy_resultSetStart (queryId : UInt32) (rest : Bytes) :
    TakenBy ((Message.resultSetStart queryId).text doubles) rest (onLine toDecimal waitUntilAnswer c)
      ((Message.resultSetStart queryId).deliver doubles toDecimal waitUntilAnswer c) := by
  refine takenBy_line (ascii "answer") [ascii "ok", ascii "query", digits queryId.toNat] ?_
    (by simp [Message.text, ascii]) rest fun line hline => ?_
  · simp only [List.forall_mem_cons, List.not_mem_nil, false_implies, implies_true, and_true]
    exact ⟨⟨by decide, by decide⟩, ⟨by decide, by decide⟩, ⟨by decide, by decide⟩, plain_digits _⟩
  · rw [onLine_ok hline]
    rfl

theorem takenBy_resultSetEnd (queryId : UInt32) (rest : Bytes) :
    TakenBy ((Message.resultSetEnd queryId).text doubles) rest (onLine toDecimal waitUntilAnswer c)
      ((Message.resultSetEnd queryId).deliver doubles toDecimal waitUntilAnswer c) := by
  refine takenBy_line (ascii "query") [digits queryId.toNat, ascii "end"] ?_
    (by simp [Message.text, ascii]) rest fun line hline => ?_
  · simp only [List.forall_mem_cons, List.not_mem_nil, false_implies, implies_true, and_true]
    exact ⟨⟨by decide, by decide⟩, plain_digits _, by decide, by decide⟩
  · rw [onLine_query hline, onQuery, if_neg (by simp [ascii]), if_pos rfl, Message.deliver]
    cases c.finishQuery (digits queryId.toNat) <;> rfl

theorem takenBy_groupContainer {groupName containerName containerType : Bytes} {handle : UInt32}
    (h : (Message.groupContainer groupName containerName containerType handle).Readable doubles toDecimal)
    (rest : Bytes) :
    TakenBy ((Message.groupContainer groupName containerName containerType handle).text doubles) rest
      (onLine toDecimal waitUntilAnswer c)
      ((Message.groupContainer groupName containerName containerType handle).deliver doubles toDecimal
        waitUntilAnswer c) := by
  refine takenBy_line (ascii "group_container") [groupName, containerName, containerType, digits handle.toNat] ?_
    (by simp [Message.text, ascii]) rest fun line hline => ?_
  · intro v hv
    rw [Message.Readable] at h
    simp only [List.mem_cons, List.not_mem_nil, or_false] at hv h
    rcases hv with rfl | rfl | rfl | rfl | rfl
    · exact ⟨by decide, by decide⟩
    · exact h _ (.inl rfl)
    · exact h _ (.inr (.inl rfl))
    · exact h _ (.inr (.inr rfl))
    · exact plain_digits _
  · rw [onLine_groupContainer hline, onGroupContainer, pyInt_digits, Message.deliver]
    dsimp only
    cases (c.addContainer handle.toNat containerType containerName).groupSinks groupName <;> rfl

/-! ### Answers -/

theorem takenBy_simpleOk (rest : Bytes) :
    TakenBy (Message.simpleOk.text doubles) rest (onLine toDecimal waitUntilAnswer c)
      (Message.simpleOk.deliver doubles toDecimal waitUntilAnswer c) := by
  refine takenBy_line (ascii "answer") [ascii "ok"] ?_ rfl rest fun line hline => ?_
  · simp only [List.forall_mem_cons, List.not_mem_nil, false_implies, implies_true, and_true]
    exact ⟨⟨by decide, by decide⟩, by decide, by decide⟩
  · rw [onLine_ok hline]
    rfl

theorem onOk_line {parameterType : Bytes} (hdata : parameterType ≠ ascii "data") (hquery : parameterType ≠ ascii "query") :
    onOk toDecimal c (parameterType :: params) =
      pure (c, some ((lineAnswer (parameterType :: params)).getD
        (.error (.exception (ascii "invalid parameter type: " ++ parameterType))))) := by
  unfold onOk
  cases lineAnswer (parameterType :: params) with
  | some r => rfl
  | none =>
    dsimp only
    rw [if_neg hdata, if_neg hquery]
    rfl

theorem splitOn_two {w v text : Bytes} (hw : 32 ∉ w) (hv : 32 ∉ v) :
    (w ++ 32 :: (v ++ 32 :: text)).splitOn 32 = w :: v :: text.splitOn 32 := by
  rw [List.splitOn_append_cons_self_of_not_mem hw, List.splitOn_append_cons_self_of_not_mem hv]

theorem takenBy_ok {text : Bytes} (h : (Message.answer (.ok text)).Readable doubles toDecimal) (rest : Bytes) :
    TakenBy ((Message.answer (.ok text)).text doubles) rest (onLine toDecimal waitUntilAnswer c)
      ((Message.answer (.ok text)).deliver doubles toDecimal waitUntilAnswer c) := by
  obtain ⟨hline, hfirst⟩ := h
  have hstart : makeAnswerStart .success text = ascii "answer" ++ 32 :: (ascii "ok" ++ 32 :: cstr text) := by
    simp [makeAnswerStart, ascii]
  have hnot : 10 ∉ ascii "answer" ++ 32 :: (ascii "ok" ++ 32 :: cstr text) := by
    simp [ascii, hline]
  refine ⟨ascii "answer" ++ 32 :: (ascii "ok" ++ 32 :: cstr text), rest, ?_, ?_⟩
  · rw [Message.text, answerText, hstart]
    exact splitLine_append hnot rest
  · rw [onLine_ok (splitOn_two (by decide) (by decide)), Message.deliver, answerResult]
    obtain ⟨parameterType, params, hparams⟩ := List.exists_cons_of_ne_nil (List.splitOn_ne_nil 32 (cstr text))
    rw [hparams] at hfirst ⊢
    obtain ⟨hdata, hquery⟩ := hfirst parameterType rfl
    rw [onOk_line hdata hquery]
    rfl

theorem takenBy_error {text : Bytes} (h : (Message.answer (.error text)).Readable doubles toDecimal) (rest : Bytes) :
    TakenBy ((Message.answer (.error text)).text doubles) rest (onLine toDecimal waitUntilAnswer c)
      ((Message.answer (.error text)).deliver doubles toDecimal waitUntilAnswer c) := by
  rw [Message.Readable] at h
  have hstart : makeAnswerStart .error text = ascii "answer" ++ 32 :: (ascii "error" ++ 32 :: cstr text) := by
    simp [makeAnswerStart, ascii]
  have hnot : 10 ∉ ascii "answer" ++ 32 :: (ascii "error" ++ 32 :: cstr text) := by
    simp [ascii, h]
  refine ⟨ascii "answer" ++ 32 :: (ascii "error" ++ 32 :: cstr text), rest, ?_, ?_⟩
  · rw [Message.text, answerText, hstart]
    exact splitLine_append hnot rest
  · have hline : ascii "answer" ++ 32 :: (ascii "error" ++ 32 :: cstr text) = ascii "answer error " ++ cstr text := by
      simp [ascii]
    rw [onLine_error (splitOn_two (by decide) (by decide)), hline]
    rfl

theorem takenBy_data {key value metadata : TioData}
    (h : (Message.answer (.data key value metadata)).Readable doubles toDecimal) (rest : Bytes) :
    TakenBy ((Message.answer (.data key value metadata)).text doubles) rest (onLine toDecimal waitUntilAnswer c)
      ((Message.answer (.data key value metadata)).deliver doubles toDecimal waitUntilAnswer c) := by
  obtain ⟨hended, hreads⟩ := h
  have hw : ∀ v ∈ [ascii "answer", ascii "ok", ascii "data"], Word.Plain v := by
    simp only [List.forall_mem_cons, List.not_mem_nil, false_implies, implies_true, and_true]
    exact ⟨⟨by decide, by decide⟩, ⟨by decide, by decide⟩, by decide, by decide⟩
  obtain ⟨hsplit, hwords⟩ := line_of_fields doubles ⟨key, value, metadata⟩ (fun d => !d.isNull) hw rest
  have hserialize : Text.serializeData doubles key value metadata =
      ((namedData key value metadata).filter fun field => !field.2.isNull).flatMap (fieldSpec doubles) ++ lineEnd ++
        ((namedData key value metadata).filter fun field => !field.2.isNull).flatMap (fieldBytes doubles) := by
    unfold Text.serializeData
    rw [if_neg]
    simpa [Answer.Ended, and_assoc] using hended
  have htext : (Message.answer (.data key value metadata)).text doubles =
      ascii "answer" ++ [ascii "ok", ascii "data"].flatMap (32 :: ·) ++
        Text.serializeData doubles key value metadata := by
    simp [Message.text, answerText, makeDataAnswer, makeAnswerStart, ascii, cstr]
  rw [hserialize] at htext
  refine ⟨_, _, (congrArg (fun t => splitLine (t ++ rest)) htext).trans hsplit, ?_⟩
  rw [onLine_ok hwords]
  have hdata := run_dataOf doubles toDecimal ⟨key, value, metadata⟩ (fun d => !d.isNull)
    (fun d hd hsends => hreads d hd (by simpa using hsends)) rest
  have hnull (d : TioData) : (if (!d.isNull) = true then datum doubles toDecimal d else .none) =
      datum doubles toDecimal d := by
    cases d <;> rfl
  refine (Calling.run_bind_of hdata _).trans ?_
  simp only [hnull]
  rfl

/-- Every message is read as what it is, and nothing behind it is touched. -/
theorem takenBy_message {m : Message} (h : m.Readable doubles toDecimal) (waitUntilAnswer : Bool)
    (c : ServerConnection) (rest : Bytes) :
    TakenBy (m.text doubles) rest (onLine toDecimal waitUntilAnswer c)
      (m.deliver doubles toDecimal waitUntilAnswer c) := by
  cases m with
  | simpleOk => exact takenBy_simpleOk rest
  | answer a =>
    cases a with
    | ok text => exact takenBy_ok h rest
    | error text => exact takenBy_error h rest
    | data key value metadata => exact takenBy_data h rest
  | resultSetStart queryId => exact takenBy_resultSetStart queryId rest
  | resultSetItem queryId r => exact takenBy_resultSetItem h rest
  | resultSetEnd queryId => exact takenBy_resultSetEnd queryId rest
  | event handle eventCode data => exact takenBy_event h rest
  | groupContainer groupName containerName containerType handle => exact takenBy_groupContainer h rest

end Turns

end Tiodb.Python
