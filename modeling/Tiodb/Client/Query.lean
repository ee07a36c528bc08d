import Tiodb.Protocol.Message
import Tiodb.Storage.Slices

/-!
# The conversation of a query

`TIO_COMMAND_QUERY` of `TioTcpServer.cpp` and `SendBinaryResultSet` of
`TioTcpSession.cpp` on one side, `tio_container_query` of `tioclient.c` on the other.
A message is the list of its fields; the socket of the client is the list of the
messages that have come and are not received.
-/

namespace Tiodb.Query

open Lib

/-- The fields of a message in their order, each under its id. -/
abbrev Fields := List (UInt16 × TioData)

/-- `MESSAGE_FIELD_ID_COMMAND`, and the other fields of the messages of a query. -/
def fieldCommand : UInt16 := 0x1
def fieldHandle : UInt16 := 0x2
def fieldKey : UInt16 := 0x3
def fieldValue : UInt16 := 0x4
def fieldMetadata : UInt16 := 0x5
def fieldStartRecord : UInt16 := 0xB
def fieldEnd : UInt16 := 0xC
def fieldQueryId : UInt16 := 0xD
def fieldQueryExpression : UInt16 := 0x11

/-- `TIO_COMMAND_ANSWER`, and the other commands that the client is sent. -/
def commandAnswer : Int32 := 0x1
def commandEvent : Int32 := 0x2
def commandQueryItem : Int32 := 0x3
def commandNewGroupContainer : Int32 := 0x4
def commandQuery : Int32 := 0x20

/-- `pr1_message_field_find_by_id`: the first field with the id. -/
def fieldFindById (m : Fields) (fieldId : UInt16) : Option TioData := (m.find? fun f => f.1 = fieldId).map Prod.snd

/-- `pr1_message_field_get_as_tio_data` -/
def fieldGetAsTioData (m : Fields) (fieldId : UInt16) : TioData := (fieldFindById m fieldId).getD .none

/-- `pr1_message_field_get_int` takes the first four bytes of any field, which must be there. -/
def fieldGetInt (d : TioData) : Option Int32 :=
  if 4 ≤ (Pr1.raw d).length then some (Int32.ofNat (ofLE ((Pr1.raw d).take 4))) else none

/-- On the bytes of a message, `pr1_message_field_get_as_tio_data` reads what the list of its fields says. -/
theorem fieldGetAsTioData_bytes {payload : Bytes} {offsets : List Nat} {m : Fields}
    (h : List.Forall₂ (Pr1.FieldAt payload) offsets m) (fieldId : UInt16) :
    ((Pr1.findById payload fieldId.toUInt32 offsets).bind fun field =>
      (field.map (Pr1.fieldToTioData payload)).getD (some .none)) = some (fieldGetAsTioData m fieldId) := by
  rw [Pr1.findById_fields h, Option.bind_some]
  unfold fieldGetAsTioData fieldFindById
  induction h with
  | nil => rfl
  | @cons offset f offsets m hf _ ih =>
    rw [List.zip_cons_cons, List.find?_cons, List.find?_cons]
    by_cases hid : f.1 = fieldId
    · simp [hid, Pr1.fieldToTioData_eq, hf.toCppTioData]
    · have hid' : f.1.toUInt32 ≠ fieldId.toUInt32 := fun h => hid (UInt16.toUInt32_inj.mp h)
      simpa [hid, hid'] using ih

/-! ## The server -/

/-- `Pr1MessageAddFields` -/
def addFields (m : Fields) (key value metadata : TioData) : Fields :=
  m ++ ([(fieldKey, key), (fieldValue, value), (fieldMetadata, metadata)].filter fun f => !f.2.isNull)

/-- The item without data that ends a result set. -/
def queryEnd (queryId : Int32) : Fields := [(fieldCommand, .int commandQueryItem), (fieldQueryId, .int queryId)]

/-- A record of a result set. -/
def queryItem (queryId : Int32) (r : Record) : Fields := addFields (queryEnd queryId) r.key r.value r.metadata

/-- The answer that says the number of the query. -/
def queryAnswer (queryId : Int32) : Fields := [(fieldCommand, .int commandAnswer), (fieldQueryId, .int queryId)]

/-- The loop over the result set, which stands at the records that are left. -/
def sendItems (queryId : Int32) (filterFunction : Option (TioData → Bool)) (maxRecords : UInt32) :
    List Record → UInt32 → List Fields
  | [], _ => []
  | r :: rest, a =>
    if a < maxRecords then
      if filterFunction.all fun f => f r.key then
        queryItem queryId r :: sendItems queryId filterFunction maxRecords rest (a + 1)
      else sendItems queryId filterFunction maxRecords rest a
    else []

/-- `SendBinaryResultSet`. A bound of 0 is none. -/
def sendBinaryResultSet (resultSet : List Record) (queryId : Int32) (filterFunction : Option (TioData → Bool))
    (maxRecords : UInt32) : List Fields :=
  let maxRecords := if maxRecords = 0 then 0xFFFFFFFF else maxRecords
  queryAnswer queryId :: (sendItems queryId filterFunction maxRecords resultSet 0 ++ [queryEnd queryId])

/-- `Pr1MessageGetField` into an `int` that has a default. -/
def getInt (m : Fields) (fieldId : UInt16) (default : Int32) : Int32 :=
  match fieldFindById m fieldId with
  | some (.int i) => i
  | _ => default

/-- What a query has of the container, and how much of it is sent. -/
structure ResultSet where
  records : List Record
  filterFunction : Option (TioData → Bool)
  maxRecords : UInt32

/-- The messages of the result set, once it has a number. -/
def ResultSet.messages (resultSet : ResultSet) (queryId : Int32) : List Fields :=
  sendBinaryResultSet resultSet.records queryId resultSet.filterFunction resultSet.maxRecords

/-- `regex` makes a `boost::regex` of an expression, or throws; `query` is that of the container. -/
def queryResultSet {σ : Type} (regex : Bytes → Except Exc (Bytes → Bool))
    (query : Int32 → Int32 → TioData → Prog Exc σ (List Record)) (message : Fields) : Prog Exc σ ResultSet := do
  let start := getInt message fieldStartRecord 0
  let stop := getInt message fieldEnd 0
  let maxRecords := stop.toUInt32
  let queryExpression := match fieldFindById message fieldQueryExpression with
    | some (.string s) => s
    | _ => []
  if queryExpression = [] then return ⟨← query start stop .none, none, maxRecords⟩
  else
    let e ← Prog.ofExcept (regex queryExpression)
    let filterFunction (key : TioData) : Bool := match key with
      | .string k => e (cstr k)
      | _ => false
    return ⟨← query 0 0 .none, some filterFunction, maxRecords⟩

/-- `TIO_COMMAND_QUERY` as a whole, with the number that the query gets. -/
def onQuery {σ : Type} (regex : Bytes → Except Exc (Bytes → Bool))
    (query : Int32 → Int32 → TioData → Prog Exc σ (List Record)) (queryId : Int32) (message : Fields) :
    Prog Exc σ (List Fields) := do
  let resultSet ← queryResultSet regex query message
  return resultSet.messages queryId

/-! ## The client -/

/-- The arguments of a `query_callback_t` call. -/
structure Callback where
  queryId : Int32
  key : TioData
  value : TioData
  metadata : TioData
  deriving DecidableEq, Repr

structure Connection where
  inbox : List Fields
  /-- What went to `on_event_receive` and `on_group_new_container`. -/
  events : List Fields
  callbacks : List Callback
  deriving DecidableEq, Repr

/-- How a call ends that does not succeed; `waiting` is no end, the socket has nothing to read. -/
inductive Failure where
  | errorProtocol
  | waiting
  deriving DecidableEq, Repr

/-- A function of the client reads messages, and returns or fails. -/
abbrev ClientM := Prog Failure Connection

/-- The loop of `tio_receive_until_not_event` over what has come. -/
def untilNotEvent (c : Connection) : List Fields → Outcome Failure Connection Fields
  | [] => .throws .waiting { c with inbox := [] }
  | m :: rest =>
    match fieldFindById m fieldCommand with
    | none => .throws .errorProtocol { c with inbox := rest }
    | some commandField =>
      match fieldGetInt commandField with
      | none => .undefined
      | some command =>
        if command = commandEvent ∨ command = commandNewGroupContainer then
          untilNotEvent { c with events := c.events ++ [m] } rest
        else .ok m { c with inbox := rest }

/-- `tio_receive_until_not_event` -/
def receiveUntilNotEvent : ClientM Fields := ⟨fun c => untilNotEvent c c.inbox⟩

/-- What a message is to `tio_container_query` while it waits for records. -/
inductive Item where
  | noItem
  | last
  | record (r : Record)

/-- What the loop of `tio_container_query` finds in a message. An item without a key is the end. -/
def itemOf (m : Fields) : Item :=
  if fieldFindById m fieldCommand ≠ some (.int commandQueryItem) then .noItem
  else
    let key := fieldGetAsTioData m fieldKey
    if key = .none then .last
    else .record ⟨key, fieldGetAsTioData m fieldValue, fieldGetAsTioData m fieldMetadata⟩

/-- The arguments of `query_callback`. -/
def callback (queryId : Int32) (r : Record) : Callback := ⟨queryId, r.key, r.value, r.metadata⟩

/-- The loop that receives the items; each turn takes a message, so there are no more turns than messages. -/
def receiveItems (queryId : Int32) : Nat → ClientM Unit
  | 0 => throw .waiting
  | turns + 1 => do
    let item ← receiveUntilNotEvent
    match itemOf item with
    | .noItem => throw .errorProtocol
    | .last => return ()
    | .record r =>
      modify fun c => { c with callbacks := c.callbacks ++ [callback queryId r] }
      receiveItems queryId turns

/-- What `tio_container_query` sends. -/
def request (handle start stop : Int32) (regex : Option Bytes) : Fields :=
  [(fieldCommand, .int commandQuery), (fieldHandle, .int handle), (fieldStartRecord, .int start),
    (fieldEnd, .int stop)] ++ (regex.map fun e => (fieldQueryExpression, .string e)).toList

/-- The number of the query, if the answer has one. -/
def answerQueryId (response : Fields) : Option Int32 :=
  match fieldFindById response fieldQueryId with
  | some (.int queryId) => some queryId
  | _ => none

/-- The first message that `tio_container_query` takes. On an error it goes to `clean_up_and_return`, which frees a key,
a value and metadata that are initialized only behind the answer. -/
def receiveQueryAnswer : ClientM Int32 :=
  ⟨fun c => match receiveUntilNotEvent.run c with
    | .ok response c' => (answerQueryId response).elim .undefined fun queryId => .ok queryId c'
    | .throws .waiting c' => .throws .waiting c'
    | _ => .undefined⟩

/-- `tio_container_query` once the request is sent. -/
def tioContainerQuery : ClientM Unit := do
  let queryId ← receiveQueryAnswer
  receiveItems queryId ((← get).inbox.length + 1)

/-! ## The messages of the server -/

variable (queryId : Int32)

theorem fieldGetInt_int (i : Int32) : fieldGetInt (.int i) = some i := by
  have hlen : (Pr1.raw (.int i)).length = 4 := length_toLE ..
  rw [fieldGetInt, if_pos hlen.ge, List.take_of_length_le hlen.le]
  exact congrArg some ((congrArg Int32.ofNat (ofLE_toLE i.toUInt32.toNat_lt)).trans (Pr1.ofNat_toUInt32_toNat i))

theorem queryItem_command (r : Record) :
    fieldFindById (queryItem queryId r) fieldCommand = some (.int commandQueryItem) := rfl

theorem queryItem_data (r : Record) :
    fieldGetAsTioData (queryItem queryId r) fieldKey = r.key ∧
    fieldGetAsTioData (queryItem queryId r) fieldValue = r.value ∧
    fieldGetAsTioData (queryItem queryId r) fieldMetadata = r.metadata := by
  obtain ⟨key, value, metadata⟩ := r
  cases key <;> cases value <;> cases metadata <;> exact ⟨rfl, rfl, rfl⟩

theorem itemOf_queryItem {r : Record} (h : r.key ≠ .none) : itemOf (queryItem queryId r) = .record r := by
  obtain ⟨hkey, hvalue, hmetadata⟩ := queryItem_data queryId r
  unfold itemOf
  rw [if_neg (not_not.mpr (queryItem_command queryId r)), hkey, hvalue, hmetadata]
  exact if_neg h

theorem queryEnd_command : fieldFindById (queryEnd queryId) fieldCommand = some (.int commandQueryItem) := rfl

theorem itemOf_queryEnd : itemOf (queryEnd queryId) = .last := rfl

/-- The cap counts what is sent, so a result set within it is sent whole. -/
theorem sendItems_all {maxRecords : UInt32} {records : List Record} {a : UInt32}
    (h : a.toNat + records.length ≤ maxRecords.toNat) :
    sendItems queryId none maxRecords records a = records.map (queryItem queryId) := by
  induction records generalizing a with
  | nil => rfl
  | cons r rest ih =>
    have hmax := maxRecords.toNat_lt
    rw [List.length_cons] at h
    have ha : a < maxRecords := UInt32.lt_iff_toNat_lt.mpr (by omega)
    have hnext : (a + 1).toNat = a.toNat + 1 := by
      rw [UInt32.toNat_add]
      exact Nat.mod_eq_of_lt (by simp; omega)
    rw [sendItems, if_pos ha]
    simp only [Option.all_none, if_true, List.map_cons]
    rw [ih (by omega)]

/-- As a cap the end is no less than as a bound: 0 is no cap, and a negative end is a large one. -/
theorem length_slice_le_cap (records : List Record) (start stop : Int32) (h : records.length < 2 ^ 31) :
    (pySlice records start.toInt (queryStop stop)).length ≤
      (if stop.toUInt32 = 0 then 0xFFFFFFFF else stop.toUInt32 : UInt32).toNat := by
  have hlast := lastOf_le stop records.length
  have hlen : (pySlice records start.toInt (queryStop stop)).length ≤ lastOf stop records.length := by
    unfold pySlice
    rw [List.length_take]
    exact (min_le_left _ _).trans (Nat.sub_le ..)
  have hunsigned : stop.toInt = if 2 * stop.toUInt32.toNat < 2 ^ 32 then (stop.toUInt32.toNat : Int)
      else stop.toUInt32.toNat - 2 ^ 32 := BitVec.toInt_eq_toNat_cond stop.toBitVec
  have hlt := stop.toUInt32.toNat_lt
  have hzero : stop.toUInt32 = 0 ↔ stop.toUInt32.toNat = 0 := by
    rw [← UInt32.toNat_inj]
    rfl
  refine hlen.trans ?_
  split_ifs with h0
  · have hcap : (0xFFFFFFFF : UInt32).toNat = 2 ^ 32 - 1 := rfl
    omega
  · rw [hzero] at h0
    by_cases hneg : stop.toInt < 0
    · split_ifs at hunsigned <;> omega
    · have hne : stop ≠ 0 := by
        rw [Ne, zero_iff]
        split_ifs at hunsigned <;> omega
      have hbound : lastOf stop records.length = min stop.toInt.toNat records.length := by
        simp [lastOf, queryStop, hne, pyBound, hneg]
      rw [hbound]
      split_ifs at hunsigned <;> omega

/-! ## The stream -/

/-- The messages that `tio_receive_until_not_event` puts aside. -/
def isEvent (m : Fields) : Bool :=
  fieldFindById m fieldCommand = some (.int commandEvent) ∨
  fieldFindById m fieldCommand = some (.int commandNewGroupContainer)

/-- The messages of a conversation as they come: the server may put events before each of them. -/
inductive Stream : List Fields → List Fields → Prop where
  | last (m : Fields) : Stream [m] [m]
  | event {e : Fields} {sent stream : List Fields} (he : isEvent e) (h : Stream sent stream) : Stream sent (e :: stream)
  | send (m : Fields) {sent stream : List Fields} (h : Stream sent stream) : Stream (m :: sent) (m :: stream)

theorem Stream.ne_nil {sent stream : List Fields} (h : Stream sent stream) : sent ≠ [] := by
  induction h with
  | event _ _ ih => exact ih
  | _ => simp

theorem Stream.length_le {sent stream : List Fields} (h : Stream sent stream) : sent.length ≤ stream.length := by
  induction h with
  | last => rfl
  | event _ _ ih => exact ih.trans (Nat.le_succ _)
  | send _ _ ih => exact Nat.succ_le_succ ih

theorem isEvent_command {m : Fields} (h : isEvent m) :
    ∃ command, fieldFindById m fieldCommand = some (.int command) ∧
      (command = commandEvent ∨ command = commandNewGroupContainer) := by
  rcases of_decide_eq_true h with h | h
  · exact ⟨_, h, .inl rfl⟩
  · exact ⟨_, h, .inr rfl⟩

theorem untilNotEvent_event (c : Connection) {m : Fields} (h : isEvent m) (rest : List Fields) :
    untilNotEvent c (m :: rest) = untilNotEvent { c with events := c.events ++ [m] } rest := by
  obtain ⟨command, hm, hcommand⟩ := isEvent_command h
  rw [untilNotEvent, hm]
  dsimp only
  rw [fieldGetInt_int]
  exact if_pos hcommand

theorem untilNotEvent_answer (c : Connection) {m : Fields} {command : Int32} (rest : List Fields)
    (h : fieldFindById m fieldCommand = some (.int command))
    (hcommand : ¬ (command = commandEvent ∨ command = commandNewGroupContainer)) :
    untilNotEvent c (m :: rest) = .ok m { c with inbox := rest } := by
  rw [untilNotEvent, h]
  dsimp only
  rw [fieldGetInt_int]
  exact if_neg hcommand

theorem receive_stream {m : Fields} {command : Int32} {sent stream : List Fields} (hs : Stream (m :: sent) stream)
    (h : fieldFindById m fieldCommand = some (.int command))
    (hcommand : ¬ (command = commandEvent ∨ command = commandNewGroupContainer)) (c : Connection) (rest : List Fields) :
    ∃ before after, stream = before ++ m :: after ∧ before.filter isEvent = before ∧ isEvent m = false ∧
      (sent = [] ∧ after = [] ∨ Stream sent after) ∧
      untilNotEvent c (stream ++ rest) = .ok m { c with inbox := after ++ rest, events := c.events ++ before } := by
  have hanswer : isEvent m = false := by
    simp only [isEvent, h, Option.some.injEq, TioData.int.injEq, hcommand, decide_false]
  generalize hms : m :: sent = ms at hs
  induction hs generalizing c with
  | last m' =>
    obtain ⟨rfl, rfl⟩ := List.cons.inj hms
    refine ⟨[], [], rfl, rfl, hanswer, .inl ⟨rfl, rfl⟩, ?_⟩
    rw [List.singleton_append, untilNotEvent_answer c rest h hcommand]
    simp
  | send m' hs _ =>
    obtain ⟨rfl, rfl⟩ := List.cons.inj hms
    refine ⟨[], _, rfl, rfl, hanswer, .inr hs, ?_⟩
    rw [List.cons_append, untilNotEvent_answer c _ h hcommand]
    simp
  | @event e _ _ he hs ih =>
    obtain ⟨before, after, rfl, hbefore, -, hafter, hrun⟩ := ih { c with events := c.events ++ [e] } hms
    refine ⟨e :: before, after, rfl, ?_, hanswer, hafter, ?_⟩
    · rw [List.filter_cons_of_pos he, hbefore]
    · rw [List.cons_append, untilNotEvent_event c he, hrun]
      simp

theorem receiveItems_stream {records : List Record} (hkeys : ∀ r ∈ records, r.key ≠ .none) {stream : List Fields}
    (hs : Stream (records.map (queryItem queryId) ++ [queryEnd queryId]) stream) {turns : Nat}
    (hturns : records.length < turns) (c : Connection) {rest : List Fields} (hc : c.inbox = stream ++ rest) :
    (receiveItems queryId turns).run c =
      .ok () ⟨rest, c.events ++ stream.filter isEvent, c.callbacks ++ records.map (callback queryId)⟩ := by
  obtain ⟨turns, rfl⟩ := Nat.exists_eq_succ_of_ne_zero (Nat.ne_of_gt (Nat.zero_lt_of_lt hturns))
  induction records generalizing stream turns c with
  | nil =>
    obtain ⟨before, after, rfl, hbefore, hend, hafter, hrun⟩ :=
      receive_stream hs (queryEnd_command queryId) (by decide) c rest
    obtain rfl : after = [] := by
      rcases hafter with hafter | hafter
      · exact hafter.2
      · exact absurd rfl hafter.ne_nil
    rw [← hc] at hrun
    rw [receiveItems, Prog.run_bind_ok receiveUntilNotEvent _ hrun, itemOf_queryEnd]
    simp [hbefore, hend]
  | cons r records ih =>
    obtain ⟨before, after, rfl, hbefore, hitem, hafter, hrun⟩ :=
      receive_stream hs (queryItem_command queryId r) (by decide) c rest
    have hstream : Stream (records.map (queryItem queryId) ++ [queryEnd queryId]) after := by
      rcases hafter with hafter | hafter
      · simp at hafter
      · exact hafter
    obtain ⟨turns, rfl⟩ : ∃ k, turns = k + 1 := Nat.exists_eq_succ_of_ne_zero (by simp at hturns; omega)
    rw [← hc] at hrun
    rw [receiveItems, Prog.run_bind_ok receiveUntilNotEvent _ hrun, itemOf_queryItem queryId (hkeys r (by simp))]
    dsimp only
    rw [Prog.run_modify_bind, ih (fun r' hr' => hkeys r' (by simp [hr'])) hstream _ rfl turns (by simpa using hturns)]
    simp [hbefore, hitem, callback]

/-! ## Both sides -/

theorem tioContainerQuery_stream {records : List Record} (hkeys : ∀ r ∈ records, r.key ≠ .none) {stream : List Fields}
    (hs : Stream (queryAnswer queryId :: (records.map (queryItem queryId) ++ [queryEnd queryId])) stream)
    (c : Connection) (rest : List Fields) :
    tioContainerQuery.run { c with inbox := stream ++ rest } =
      .ok () ⟨rest, c.events ++ stream.filter isEvent, c.callbacks ++ records.map (callback queryId)⟩ := by
  have hcommand : fieldFindById (queryAnswer queryId) fieldCommand = some (.int commandAnswer) := rfl
  have hid : answerQueryId (queryAnswer queryId) = some queryId := rfl
  obtain ⟨before, after, rfl, hbefore, hanswer, hafter, hrun⟩ :=
    receive_stream hs hcommand (by decide) { c with inbox := stream ++ rest } rest
  have hitems : Stream (records.map (queryItem queryId) ++ [queryEnd queryId]) after := by
    rcases hafter with hafter | hafter
    · simp at hafter
    · exact hafter
  have hlen := hitems.length_le
  rw [List.length_append, List.length_map] at hlen
  have hreceived : receiveQueryAnswer.run { c with inbox := before ++ queryAnswer queryId :: after ++ rest } =
      .ok queryId ⟨after ++ rest, c.events ++ before, c.callbacks⟩ := by
    rw [receiveQueryAnswer, receiveUntilNotEvent]
    dsimp only
    rw [hrun]
    dsimp only
    rw [hid]
    rfl
  rw [tioContainerQuery, Prog.run_bind_ok receiveQueryAnswer _ hreceived, Prog.run_get_bind]
  rw [receiveItems_stream queryId hkeys hitems (by simp; omega) _ rfl]
  simp [hbefore, hanswer]

/-- What the call of the client does with the messages of a query, whatever events come before each of them: it passes
the records of the query to the callback and stops right behind the end marker. -/
def Delivers {σ : Type} (regex : Bytes → Except Exc (Bytes → Bool))
    (query : Int32 → Int32 → TioData → Prog Exc σ (List Record)) (s : σ) (queryId handle start stop : Int32) : Prop :=
  ∃ records sent, (query start stop .none).run s = .ok records s ∧
    (onQuery regex query queryId (request handle start stop none)).run s = .ok sent s ∧
    ∀ (c : Connection) (stream rest : List Fields), Stream sent stream →
      tioContainerQuery.run { c with inbox := stream ++ rest } =
        .ok () ⟨rest, c.events ++ stream.filter isEvent, c.callbacks ++ records.map (callback queryId)⟩

theorem mem_pySlice {α : Type} {l : List α} {start : Int} {stop : Option Int} {a : α} (h : a ∈ pySlice l start stop) :
    a ∈ l := List.mem_of_mem_drop (List.mem_of_mem_take h)

theorem delivers_of_slice {σ : Type} {s : σ} {records : List Record}
    (regex : Bytes → Except Exc (Bytes → Bool)) (query : Int32 → Int32 → TioData → Prog Exc σ (List Record))
    (handle start stop : Int32) (hlen : records.length < 2 ^ 31) (hkeys : ∀ r ∈ records, r.key ≠ .none)
    (hquery : (query start stop .none).run s = .ok (pySlice records start.toInt (queryStop stop)) s) :
    Delivers regex query s queryId handle start stop := by
  have hcap := length_slice_le_cap records start stop hlen
  let slice := pySlice records start.toInt (queryStop stop)
  refine ⟨slice, sendBinaryResultSet slice queryId none stop.toUInt32, hquery, ?_, fun c stream rest hs => ?_⟩
  · have hstart : getInt (request handle start stop none) fieldStartRecord 0 = start := rfl
    have hstop : getInt (request handle start stop none) fieldEnd 0 = stop := rfl
    have hexpression : fieldFindById (request handle start stop none) fieldQueryExpression = none := rfl
    have hresultSet : (queryResultSet regex query (request handle start stop none)).run s =
        .ok ⟨slice, none, stop.toUInt32⟩ s := by
      unfold queryResultSet
      rw [hstart, hstop, hexpression]
      dsimp only
      rw [if_pos rfl, Prog.run_bind_ok _ _ hquery]
      rfl
    unfold onQuery
    rw [Prog.run_bind_ok _ _ hresultSet]
    rfl
  · rw [sendBinaryResultSet, sendItems_all queryId (by simpa using hcap)] at hs
    exact tioContainerQuery_stream queryId (fun r hr => hkeys r (mem_pySlice hr)) hs c rest

end Tiodb.Query
