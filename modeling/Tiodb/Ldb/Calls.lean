import Tiodb.Ldb.Recovery

/-!
# The calls of `AppendLogRecord`

A command calls `AppendLogRecord` once or not at all. Which call it makes, and which log
record the call writes, follow from the database before it; runs that remember these
records are what the history of a file is told by.
-/

namespace Tiodb.Logdb

open Lib

structure Call where
  operation : Operation
  recordIndex : UInt32
  key : Option Bytes
  value : Option Bytes
  metadata : Option Bytes
  deriving DecidableEq, Repr

namespace Call

def run (call : Call) (s : Space) (t : TableInfo) : Option (Space × TableInfo) :=
  s.appendLogRecord t call.operation call.recordIndex call.key call.value call.metadata

/-- The `logRecord` that `AppendLogRecord` writes: its part up to the first of these writes. -/
def logRecord (call : Call) (s : Space) (t : TableInfo) : Option LogRecord := do
  let recordID := s.lastRecordID + 1
  let (s, _) ← { s with lastRecordID := recordID }.createNewBlockIfNeeded t.lastBlockHeaderInfo
  let (s, keyField) ← s.writeLdbData call.key
  let (s, valueField) ← s.writeLdbData call.value
  let (_, metadataField) ← s.writeLdbData call.metadata
  setFields call.operation call.recordIndex call.key call.value call.metadata t.records
    ⟨call.operation.code, call.recordIndex, recordID, keyField, valueField, metadataField⟩

end Call

/-! ## The call of each operation -/

namespace TableInfo

variable (t : TableInfo) (f : File)

def appendCall (key value metadata : Option Bytes) : Call :=
  ⟨.append, UInt32.ofNat t.records.length, key, value, metadata⟩

def setByIndexCall (index : UInt32) (key value metadata : Option Bytes) : Option Call :=
  if index.toNat < t.records.length then some ⟨.set, index, key, value, metadata⟩ else none

def setCall (startIndex : UInt32) (key : Bytes) (value metadata : Option Bytes) : Option Call :=
  (findKey f t startIndex key).bind fun
    | none => some (t.appendCall (some key) value metadata)
    | some index => t.setByIndexCall index (some key) value metadata

def deleteByIndexCall (index : UInt32) : Option Call :=
  if index.toNat < t.records.length then some ⟨.delete, index, none, none, none⟩ else none

def deleteCall (startIndex : UInt32) (key : Bytes) : Option Call :=
  (findKey f t startIndex key).bind fun found => found.bind t.deleteByIndexCall

def insertByIndexCall (index : UInt32) (key value metadata : Option Bytes) : Option Call :=
  if index ≠ 0 ∧ ¬ index.toNat < t.records.length then none else some ⟨.insert, index, key, value, metadata⟩

end TableInfo

def clearCall : Call := ⟨.clear, 0, none, none, none⟩

/-- The call that a command makes, and the table it is on. -/
def Command.call (s : Ldb) : Command → Option (Option Bytes × Call)
  | .createTable name =>
    if s.tables.contains name then none
    else some (none, s.metatable.appendCall (some name) (some Ldb.createdBuffer) none)
  | .deleteTable name =>
    s.tables[name]?.bind fun t => (s.metatable.deleteCall s.space.file 0 t.name).map fun call => (none, call)
  | .append name key value metadata =>
    s.tables[name]?.bind fun t => some (some name, t.appendCall key value metadata)
  | .set name startIndex key value metadata =>
    s.tables[name]?.bind fun t =>
      (t.setCall s.space.file startIndex key value metadata).map fun call => (some name, call)
  | .setByIndex name index key value metadata =>
    s.tables[name]?.bind fun t => (t.setByIndexCall index key value metadata).map fun call => (some name, call)
  | .insertByIndex name index key value metadata =>
    s.tables[name]?.bind fun t => (t.insertByIndexCall index key value metadata).map fun call => (some name, call)
  | .delete name startIndex key =>
    s.tables[name]?.bind fun t => (t.deleteCall s.space.file startIndex key).map fun call => (some name, call)
  | .deleteByIndex name index =>
    s.tables[name]?.bind fun t => (t.deleteByIndexCall index).map fun call => (some name, call)
  | .clearAllRecords name => s.tables[name]?.bind fun _ => some (some name, clearCall)

/-- The table that a command adds. -/
def Command.created (s : Ldb) : Command → Option Bytes
  | .createTable name => if s.tables.contains name then none else some name
  | _ => none

/-- The record that a command logs, and the table that it is logged for. -/
def Command.logged (s : Ldb) (c : Command) : Option (Option Bytes × LogRecord) :=
  (c.call s).bind fun (o, call) => (s.table? o).bind fun t => (call.logRecord s.space t).map fun r => (o, r)

/-- An operation that makes this call, or none. -/
def Makes (s : Space) (t : TableInfo) (call : Option Call) (out : Outcome) : Prop :=
  match call with
  | none => out.1 = s ∧ out.2.1 = t
  | some call => call.run s t = some (out.1, out.2.1)

section Makes

variable {s : Space} {t : TableInfo} {out : Outcome} {key value metadata : Option Bytes} {index startIndex : UInt32}
  {k : Bytes}

theorem makes_append (h : s.append t key value metadata = some out) :
    Makes s t (some (t.appendCall key value metadata)) out := by
  obtain ⟨r, hr, rfl⟩ := Option.map_eq_some_iff.mp h
  exact hr

theorem makes_clearAllRecords (h : s.clearAllRecords t = some out) : Makes s t (some clearCall) out := by
  obtain ⟨r, hr, rfl⟩ := Option.map_eq_some_iff.mp h
  exact hr

theorem makes_setByIndex (h : s.setByIndex t index key value metadata = some out) :
    Makes s t (t.setByIndexCall index key value metadata) out := by
  unfold Space.setByIndex at h
  unfold TableInfo.setByIndexCall
  split_ifs at h ⊢
  · obtain ⟨r, hr, rfl⟩ := Option.map_eq_some_iff.mp h
    exact hr
  · obtain rfl := Option.some.inj h
    exact ⟨rfl, rfl⟩

theorem makes_deleteByIndex (h : s.deleteByIndex t index = some out) :
    Makes s t (t.deleteByIndexCall index) out := by
  unfold Space.deleteByIndex at h
  unfold TableInfo.deleteByIndexCall
  split_ifs at h ⊢
  · obtain ⟨r, hr, rfl⟩ := Option.map_eq_some_iff.mp h
    exact hr
  · obtain rfl := Option.some.inj h
    exact ⟨rfl, rfl⟩

theorem makes_insertByIndex (h : s.insertByIndex t index key value metadata = some out) :
    Makes s t (t.insertByIndexCall index key value metadata) out := by
  unfold Space.insertByIndex at h
  unfold TableInfo.insertByIndexCall
  split_ifs at h ⊢
  · obtain rfl := Option.some.inj h
    exact ⟨rfl, rfl⟩
  · obtain ⟨r, hr, rfl⟩ := Option.map_eq_some_iff.mp h
    exact hr

theorem makes_set (h : s.set t startIndex k value metadata = some out) :
    Makes s t (t.setCall s.file startIndex k value metadata) out := by
  obtain ⟨found, hfound, h⟩ := Option.bind_eq_some_iff.mp h
  rw [TableInfo.setCall, hfound, Option.bind_some]
  cases found with
  | none => exact makes_append h
  | some index => exact makes_setByIndex h

theorem makes_delete (h : s.delete t startIndex k = some out) : Makes s t (t.deleteCall s.file startIndex k) out := by
  obtain ⟨found, hfound, h⟩ := Option.bind_eq_some_iff.mp h
  rw [TableInfo.deleteCall, hfound, Option.bind_some]
  cases found with
  | none =>
    obtain rfl := Option.some.inj h
    exact ⟨rfl, rfl⟩
  | some index => exact makes_deleteByIndex h

end Makes

/-! ## The call of a command -/

/-- What a table is after a call: tables that the command does not touch stay, and a new one is empty. -/
structure Called (s s' : Ldb) (c : Command) (o : Option Bytes) (made : Call) (t t' : TableInfo) : Prop where
  call : c.call s = some (o, made)
  before : s.table? o = some t
  run : made.run s.space t = some (s'.space, t')
  after : s'.table? o = some t'
  others : ∀ o' t₀, o' ≠ o → s'.table? o' = some t₀ →
    s.table? o' = some t₀ ∨ (o'.isSome ∧ c.created s = o') ∧ logOf t₀.blocks = []

namespace Ldb

variable {s s' : Ldb} {c : Command}

theorem called_of_onTable {name : Bytes} {op : Space → TableInfo → Option Outcome} {call : TableInfo → Option Call}
    (hmakes : ∀ t out, op s.space t = some out → Makes s.space t (call t) out)
    (hcall : c.call s = s.tables[name]?.bind fun t => (call t).map fun call => (some name, call))
    (h : s.onTable name op = some s') :
    c.call s = none ∧ s' = s ∨ ∃ o call t t', Called s s' c o call t t' := by
  obtain ⟨t, ht, h⟩ := Option.bind_eq_some_iff.mp h
  obtain ⟨out, hout, rfl⟩ := Option.map_eq_some_iff.mp h
  have hout := hmakes t out hout
  rw [ht, Option.bind_some] at hcall
  cases hc : call t with
  | none =>
    rw [hc] at hcall hout
    obtain ⟨hsp, ht'⟩ := hout
    exact .inl ⟨hcall, by rw [hsp, ht', insert_of_getElem? ht]⟩
  | some made =>
    rw [hc] at hcall hout
    refine .inr ⟨some name, made, t, out.2.1, hcall, ht, hout, Std.ExtTreeMap.getElem?_insert_self,
      fun o' t₀ hne h₀ => ?_⟩
    rcases table?_insert_cases h₀ with ⟨heq, -⟩ | ⟨-, h₀⟩
    · exact absurd heq hne
    · exact .inl h₀

theorem called_of_createTable {name : Bytes} (h : s.createTable name = some s') :
    (Command.createTable name).call s = none ∧ s' = s ∨
      ∃ o call t t', Called s s' (.createTable name) o call t t' := by
  unfold Ldb.createTable at h
  split_ifs at h with hnew
  · exact .inl ⟨if_pos hnew, (Option.some.inj h).symm⟩
  · obtain ⟨out, hout, h⟩ := Option.bind_eq_some_iff.mp h
    obtain ⟨record, -, rfl⟩ := Option.map_eq_some_iff.mp h
    refine .inr ⟨none, _, s.metatable, out.2.1, if_neg hnew, rfl, makes_append hout, rfl, fun o' t₀ hne h₀ => ?_⟩
    cases o' with
    | none => exact absurd rfl hne
    | some n =>
      rcases insert_cases h₀ with ⟨rfl, rfl⟩ | ⟨-, h₀⟩
      · exact .inr ⟨⟨rfl, if_neg hnew⟩, rfl⟩
      · exact .inl h₀

theorem called_of_deleteTable {name : Bytes} (h : s.deleteTable name = some s') :
    (Command.deleteTable name).call s = none ∧ s' = s ∨
      ∃ o call t t', Called s s' (.deleteTable name) o call t t' := by
  obtain ⟨t, ht, h⟩ := Option.bind_eq_some_iff.mp h
  obtain ⟨found, hfound, h⟩ := Option.bind_eq_some_iff.mp h
  have hcall : (Command.deleteTable name).call s = (found.bind s.metatable.deleteByIndexCall).map fun call => (none, call) := by
    simp only [Command.call, ht, Option.bind_some, TableInfo.deleteCall, hfound]
  cases found with
  | none => exact .inl ⟨hcall, (Option.some.inj h).symm⟩
  | some index =>
    obtain ⟨out, hout, rfl⟩ := Option.map_eq_some_iff.mp h
    have hout := makes_deleteByIndex hout
    rw [Option.bind_some] at hcall
    cases hc : s.metatable.deleteByIndexCall index with
    | none =>
      -- the index that was found is one of a record
      obtain ⟨i, r, hr, rfl, -⟩ := findKey_sound hfound
      have hi : i < s.metatable.records.length := (List.getElem?_eq_some_iff.mp hr).1
      have hlt : (UInt32.ofNat i).toNat < s.metatable.records.length := by
        rw [UInt32.toNat_ofNat']
        exact (Nat.mod_le _ _).trans_lt hi
      rw [TableInfo.deleteByIndexCall, if_pos hlt] at hc
      cases hc
    | some made =>
      rw [hc] at hcall hout
      refine .inr ⟨none, made, s.metatable, out.2.1, hcall, rfl, hout, rfl, fun o' t₀ hne h₀ => ?_⟩
      cases o' with
      | none => exact absurd rfl hne
      | some n => exact .inl (erase_some h₀).2

theorem called_of_apply (h : s.apply c = some s') :
    c.call s = none ∧ s' = s ∨ ∃ o call t t', Called s s' c o call t t' := by
  unfold apply at h
  cases c with
  | createTable name => exact called_of_createTable h
  | deleteTable name => exact called_of_deleteTable h
  | append name key value metadata =>
    exact called_of_onTable (fun t out => makes_append) rfl h
  | set => exact called_of_onTable (fun t out => makes_set) rfl h
  | setByIndex => exact called_of_onTable (fun t out => makes_setByIndex) rfl h
  | insertByIndex => exact called_of_onTable (fun t out => makes_insertByIndex) rfl h
  | delete => exact called_of_onTable (fun t out => makes_delete) rfl h
  | deleteByIndex => exact called_of_onTable (fun t out => makes_deleteByIndex) rfl h
  | clearAllRecords name =>
    exact called_of_onTable (fun t out => makes_clearAllRecords) rfl h

theorem appended_of_called {o : Option Bytes} {made : Call} {t t' : TableInfo} (hframe : s.Frame)
    (hcalled : Called s s' c o made t t')
    (hset : made.operation = .set → made.recordIndex.toNat < t.records.length) :
    ∃ bs b r, t.blocks = bs ++ [b] ∧ 0 < b.offset ∧ b.stop ≤ s.space.nextDataOffset ∧
      Appended s.space s'.space t t' bs b made.operation made.recordIndex made.key made.value made.metadata r := by
  obtain ⟨sp, t₁, r, bs, b, heq, hblocks, happ⟩ :=
    hframe.append_spec hcalled.before hset made.key made.value made.metadata
  obtain ⟨rfl, rfl⟩ := Prod.mk.inj (Option.some.inj (heq.symm.trans hcalled.run))
  have hlast : s.layout.blocks o = some (bs ++ [b]) := by rw [layout_blocks, hcalled.before, Option.map_some, hblocks]
  have hchain := hframe.chain hcalled.before
  rw [hblocks] at hchain
  have hb := linked_singleton.mp (linked_append.mp hchain.linked).2
  exact ⟨bs, b, r, hblocks, hb.pos, hframe.framed.below_block hlast (by simp), happ⟩

end Ldb

/-! ## The record of a call -/

section Record

variable {s s' : Space} {t t' : TableInfo} {call : Call}

theorem write_lastRecordID {offset : Nat} {bytes : Bytes} (h : s.write offset bytes = some s') :
    s'.lastRecordID = s.lastRecordID := by
  obtain ⟨f, -, rfl⟩ := Option.map_eq_some_iff.mp h
  rfl

theorem ensureSpace_lastRecordID (s : Space) (n : Nat) : (s.ensureSpace n).lastRecordID = s.lastRecordID := by
  simp only [Space.ensureSpace]
  split <;> rfl

theorem writeLdbData_lastRecordID {data : Option Bytes} {field : Field}
    (h : s.writeLdbData data = some (s', field)) : s'.lastRecordID = s.lastRecordID := by
  cases data with
  | none =>
    obtain ⟨rfl, -⟩ := Prod.mk.inj (Option.some.inj h)
    rfl
  | some data =>
    obtain ⟨s₁, hs₁, heq⟩ := Option.map_eq_some_iff.mp h
    obtain ⟨rfl, -⟩ := Prod.mk.inj heq
    exact (write_lastRecordID hs₁).trans (ensureSpace_lastRecordID s _)

theorem createNewBlockIfNeeded_lastRecordID {info current : BlockHeaderInfo} {new : Option BlockHeaderInfo}
    (h : s.createNewBlockIfNeeded info = some (s', current, new)) : s'.lastRecordID = s.lastRecordID := by
  unfold Space.createNewBlockIfNeeded at h
  split_ifs at h
  · obtain ⟨rfl, -⟩ := Prod.mk.inj (Option.some.inj h)
    rfl
  · obtain ⟨s₁, hs₁, heq⟩ := Option.map_eq_some_iff.mp h
    obtain ⟨rfl, -⟩ := Prod.mk.inj heq
    exact (write_lastRecordID hs₁).trans (ensureSpace_lastRecordID s _)

theorem writeLogRecord_lastRecordID {info current : BlockHeaderInfo} {new : Option BlockHeaderInfo} {r : LogRecord}
    (h : s.writeLogRecord info new r = some (s', current)) : s'.lastRecordID = s.lastRecordID := by
  simp only [Space.writeLogRecord, Option.bind_eq_bind, Option.bind_eq_some_iff] at h
  obtain ⟨s₁, hs₁, s₂, hs₂, h⟩ := h
  have hsame : s₂.lastRecordID = s.lastRecordID := (write_lastRecordID hs₂).trans (write_lastRecordID hs₁)
  cases new with
  | none =>
    obtain ⟨rfl, -⟩ := Prod.mk.inj (Option.some.inj h)
    exact hsame
  | some new =>
    obtain ⟨s₃, hs₃, heq⟩ := Option.map_eq_some_iff.mp h
    obtain ⟨rfl, -⟩ := Prod.mk.inj heq
    exact (write_lastRecordID hs₃).trans hsame

theorem recordID_of_setFields {operation : Operation} {recordIndex : UInt32} {key value metadata : Option Bytes}
    {records : List LogRecord} {written r : LogRecord}
    (h : setFields operation recordIndex key value metadata records written = some r) : r.recordID = written.recordID := by
  unfold setFields at h
  split_ifs at h
  · obtain ⟨old, -, rfl⟩ := Option.map_eq_some_iff.mp h
    rfl
  · rw [Option.some.inj h]

theorem logOf_addRecord {blocks : List Block} (h : blocks ≠ []) (r : LogRecord) :
    logOf (addRecord r blocks) = logOf blocks ++ [r] := by
  rw [← List.dropLast_append_getLast h, addRecord_concat]
  simp [logOf, Block.add]

theorem logOf_logTo {blocks : List Block} (h : blocks ≠ []) (new : Option BlockHeaderInfo) (r : LogRecord) :
    logOf (logTo new r blocks) = logOf blocks ++ [r] := by
  cases new with
  | none => exact logOf_addRecord h r
  | some new => simp [logTo, logOf]

theorem Call.run_spec (h : call.run s t = some (s', t')) :
    ∃ r, call.logRecord s t = some r ∧ r.recordID = s.lastRecordID + 1 ∧ s'.lastRecordID = s.lastRecordID + 1 ∧
      (t.blocks ≠ [] → logOf t'.blocks = logOf t.blocks ++ [r]) := by
  simp only [Call.run, Space.appendLogRecord, Option.bind_eq_bind, Option.bind_eq_some_iff] at h
  obtain ⟨⟨s₀, current, new⟩, h₀, ⟨s₁, k⟩, h₁, ⟨s₂, v⟩, h₂, ⟨s₃, m⟩, h₃, r, hr, ⟨s₄, info⟩, h₄, h⟩ := h
  obtain ⟨rfl, rfl⟩ := Prod.mk.inj (Option.some.inj h)
  refine ⟨r, ?_, recordID_of_setFields hr, ?_, fun hne => logOf_logTo hne new r⟩
  · dsimp only at h₀ h₁ h₂ h₃ hr
    simp only [Call.logRecord, Option.bind_eq_bind, h₀, h₁, h₂, h₃, Option.bind_some]
    exact hr
  · calc s₄.lastRecordID
        _ = s₃.lastRecordID := writeLogRecord_lastRecordID h₄
        _ = s₂.lastRecordID := writeLdbData_lastRecordID h₃
        _ = s₁.lastRecordID := writeLdbData_lastRecordID h₂
        _ = s₀.lastRecordID := writeLdbData_lastRecordID h₁
        _ = s.lastRecordID + 1 := createNewBlockIfNeeded_lastRecordID h₀

end Record

/-! ## Runs that remember -/

/-- A database with its history: what was logged for each table since it was created, and the numbers of all log
records. -/
structure Traced where
  ldb : Ldb
  logs : Option Bytes → List LogRecord
  ids : List UInt32

def Command.logs (c : Command) (s : Ldb) (logs : Option Bytes → List LogRecord) (o : Option Bytes) : List LogRecord :=
  if o.isSome ∧ c.created s = o then []
  else
    match c.logged s with
    | none => logs o
    | some (o', r) => if o' = o then logs o ++ [r] else logs o

def Command.ids (c : Command) (s : Ldb) : List UInt32 := (c.logged s).toList.map fun logged => logged.2.recordID

def Traced.step (s : Traced) (a : Action) : Option Traced :=
  (s.ldb.step a).map fun ldb =>
    match a with
    | .command c => ⟨ldb, c.logs s.ldb s.logs, s.ids ++ c.ids s.ldb⟩
    | .reload _ => ⟨ldb, s.logs, s.ids⟩

def Traced.start (s : Ldb) : Traced := ⟨s, fun _ => [], []⟩

namespace Ldb

variable {s s' : Ldb} {c : Command}

theorem eq_of_create {growPagesStep : Nat} (h : create growPagesStep = some s) :
    ∃ sp, s = ⟨sp, ⟨[], ⟨⟨defaultBlockSize, 0, 0⟩, 16⟩, [], [⟨16, []⟩]⟩, ∅⟩ ∧ sp.lastRecordID = 0 := by
  obtain ⟨s₁, h₁, h⟩ := Option.bind_eq_some_iff.mp h
  obtain ⟨s₂, h₂, h⟩ := Option.bind_eq_some_iff.mp h
  exact ⟨s₂, (Option.some.inj h).symm, (write_lastRecordID h₂).trans (write_lastRecordID h₁)⟩

theorem not_created (c : Command) {o : Option Bytes} {t : TableInfo} (ht : s.table? o = some t) :
    ¬ (o.isSome ∧ c.created s = o) := by
  rintro ⟨ho, h⟩
  obtain ⟨name, rfl⟩ := Option.isSome_iff_exists.mp ho
  cases c with
  | createTable n =>
    simp only [Command.created] at h
    split_ifs at h with hnew
    obtain rfl := Option.some.inj h
    rw [Std.ExtTreeMap.contains_eq_isSome_getElem?] at hnew
    have ht : s.tables[n]? = some t := ht
    rw [ht] at hnew
    exact hnew rfl
  | deleteTable => cases h
  | append => cases h
  | set => cases h
  | setByIndex => cases h
  | insertByIndex => cases h
  | delete => cases h
  | deleteByIndex => cases h
  | clearAllRecords => cases h

/-- What a command logs, and the numbers of its record. -/
theorem logged_of_called {o : Option Bytes} {call : Call} {t t' : TableInfo} (h : Called s s' c o call t t') :
    ∃ r, c.logged s = some (o, r) ∧ r.recordID = s.space.lastRecordID + 1 ∧
      s'.space.lastRecordID = s.space.lastRecordID + 1 ∧ (t.blocks ≠ [] → logOf t'.blocks = logOf t.blocks ++ [r]) := by
  obtain ⟨r, hr, hid, hlast, hlog⟩ := Call.run_spec h.run
  refine ⟨r, ?_, hid, hlast, hlog⟩
  simp only [Command.logged, h.call, h.before, hr, Option.bind_some, Option.map_some]

/-- Whatever is in a log after a call was in it before, but for the record of the call. -/
theorem mem_log_of_called {o o' : Option Bytes} {call : Call} {t t' t₀ : TableInfo} {r r' : LogRecord}
    (h : Called s s' c o call t t') (hlog : logOf t'.blocks = logOf t.blocks ++ [r]) (ht₀ : s'.table? o' = some t₀)
    (hr' : r' ∈ logOf t₀.blocks) : (∃ t₁, s.table? o' = some t₁ ∧ r' ∈ logOf t₁.blocks) ∨ r' = r := by
  by_cases ho : o' = o
  · subst ho
    obtain rfl := Option.some.inj (ht₀.symm.trans h.after)
    rw [hlog, List.mem_append, List.mem_singleton] at hr'
    exact hr'.imp_left fun hr' => ⟨t, h.before, hr'⟩
  · rcases h.others o' t₀ ho ht₀ with hbefore | ⟨-, hnil⟩
    · exact .inl ⟨t₀, hbefore, hr'⟩
    · rw [hnil] at hr'
      cases hr'

/-- The history is what the tables in memory have. -/
def Remembers (s : Ldb) (logs : Option Bytes → List LogRecord) : Prop :=
  ∀ o t, s.table? o = some t → logOf t.blocks = logs o

theorem remembers_create {growPagesStep : Nat} (h : create growPagesStep = some s) : s.Remembers fun _ => [] := by
  obtain ⟨sp, rfl, -⟩ := eq_of_create h
  intro o t ht
  cases o with
  | none =>
    obtain rfl := Option.some.inj ht
    rfl
  | some name => simp [table?] at ht

theorem Remembers.apply {logs : Option Bytes → List LogRecord} (h : s.Remembers logs) (hframe : s.Frame)
    (hs : s.apply c = some s') : s'.Remembers (c.logs s logs) := by
  rcases called_of_apply hs with ⟨hnone, rfl⟩ | ⟨o, call, t, t', hcalled⟩
  · intro o t ht
    have hold := not_created c ht
    have hlogged : c.logged s' = none := by rw [Command.logged, hnone, Option.bind_none]
    simp only [Command.logs, if_neg hold, hlogged, h o t ht]
  · obtain ⟨r, hlogged, -, -, hlog⟩ := logged_of_called hcalled
    intro o' t₀ ht₀
    by_cases ho : o' = o
    · subst ho
      obtain rfl := Option.some.inj (ht₀.symm.trans hcalled.after)
      have hold := not_created c hcalled.before
      simp only [Command.logs, if_neg hold, hlogged, if_true]
      rw [hlog (hframe.chain hcalled.before).ne_nil, h o' t hcalled.before]
    · rcases hcalled.others o' t₀ ho ht₀ with hbefore | ⟨hcreated, hnil⟩
      · have hold := not_created c hbefore
        simp only [Command.logs, if_neg hold, hlogged, if_neg (Ne.symm ho), h o' t₀ hbefore]
      · rw [Command.logs, if_pos hcreated, hnil]

end Ldb

end Tiodb.Logdb
