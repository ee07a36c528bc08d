import Tiodb.Ldb.RecordIds

/-!
# The asserts

The `ASSERT`s of `AppendLogRecord` and the functions under it, and of a load. They say that
offsets are inside the file and that blocks lie one behind the other with something
between them, which fails for data of no size at the end of the file, and for a block that
was made right behind the one before it.
-/

namespace Tiodb.Logdb

open Lib

/-! ## The asserts of a call -/

namespace Space

def AssertsWriteLdbData (s : Space) : Option Bytes → Prop
  | none => True
  | some data => s.nextDataOffset ≠ 0 ∧ s.nextDataOffset < (s.ensureSpace data.length).file.size

def AssertsCreateNewBlockIfNeeded (s : Space) (current : BlockHeaderInfo) : Prop :=
  checkNeedForNewBlock current.blockHeader = true →
    s.nextDataOffset ≠ 0 ∧ s.nextDataOffset < (s.ensureSpace current.blockHeader.size.toNat).file.size

/-- The asserts around the last writes of `AppendLogRecord`. -/
def AssertsWriteLogRecord (s : Space) (blockHeaderInfo : BlockHeaderInfo)
    (newBlockHeaderInfo : Option BlockHeaderInfo) : Prop :=
  let current := newBlockHeaderInfo.getD blockHeaderInfo
  let logRecordOffset := current.offset + blockHeaderSize + logRecordSize * current.blockHeader.usedCount.toNat
  (logRecordOffset ≠ 0 ∧ current.offset ≠ 0 ∧ logRecordOffset < s.file.size ∧ current.offset < s.file.size) ∧
    (newBlockHeaderInfo.isSome → blockHeaderInfo.offset ≠ 0 ∧ blockHeaderInfo.offset < s.file.size)

end Space

/-- Each assert holds where `AppendLogRecord` comes to it. -/
def Call.Asserts (call : Call) (s : Space) (t : TableInfo) : Prop :=
  (call.operation = .clear ∨ (call.operation = .insert ∧ call.recordIndex = 0) ∨ call.operation = .append ∨
    call.recordIndex.toNat < t.records.length) ∧
  let s := { s with lastRecordID := s.lastRecordID + 1 }
  s.AssertsCreateNewBlockIfNeeded t.lastBlockHeaderInfo ∧
  ∀ b ∈ s.createNewBlockIfNeeded t.lastBlockHeaderInfo, b.1.AssertsWriteLdbData call.key ∧
  ∀ k ∈ b.1.writeLdbData call.key, k.1.AssertsWriteLdbData call.value ∧
  ∀ v ∈ k.1.writeLdbData call.value, v.1.AssertsWriteLdbData call.metadata ∧
  ∀ m ∈ v.1.writeLdbData call.metadata, m.1.AssertsWriteLogRecord b.2.1 b.2.2

instance (s : Space) : ∀ data, Decidable (s.AssertsWriteLdbData data)
  | none => isTrue trivial
  | some _ => inferInstanceAs (Decidable (_ ∧ _))

instance (s : Space) (current : BlockHeaderInfo) : Decidable (s.AssertsCreateNewBlockIfNeeded current) :=
  inferInstanceAs (Decidable (_ → _))

instance (s : Space) (info : BlockHeaderInfo) (new : Option BlockHeaderInfo) :
    Decidable (s.AssertsWriteLogRecord info new) := inferInstanceAs (Decidable (_ ∧ (_ → _)))

instance (call : Call) (s : Space) (t : TableInfo) : Decidable (call.Asserts s t) := by
  unfold Call.Asserts
  infer_instance

/-! ## The asserts of a load -/

/-- `LoadBlock`, for each of the log records. -/
def LogRecord.AssertsLoadBlock (r : LogRecord) : Prop :=
  r.operation = Operation.delete.code ∨ r.operation = Operation.clear.code ∨ lastFieldEnd r ≠ 0

/-- The loop of `LoadAllBlocks`, and what `LoadBlock` asserts in it. -/
def AssertsBlocks (f : File) : Nat → Nat → Prop
  | 0, _ => True
  | fuel + 1, nextTableOffset => nextTableOffset = 0 ∨
    ∀ header ∈ (f.read nextTableOffset blockHeaderSize).bind BlockHeader.decode,
      (∀ records ∈ loadLogRecords f ⟨header, nextTableOffset⟩, ∀ r ∈ records, r.AssertsLoadBlock) ∧
      (header.nextBlockOffset = 0 ∨ nextTableOffset + header.size.toNat < header.nextBlockOffset.toNat) ∧
      AssertsBlocks f fuel header.nextBlockOffset.toNat

def AssertsLoadAllBlocks (f : File) (nextTableOffset : Nat) : Prop :=
  nextTableOffset ≠ 0 ∧ AssertsBlocks f f.size nextTableOffset

/-- `LoadTables`, for a record of the metatable. -/
def AssertsLoadTable (f : File) (record : LogRecord) : Prop :=
  (record.key.dataOffset ≠ 0 ∧ record.value.dataSize ≠ 0) ∧ record.key.dataSize ≠ 0 ∧
    blockHeaderSize < record.value.dataSize.toNat ∧ AssertsLoadAllBlocks f record.value.start

def AssertsLoadFile (f : File) (growPagesStep : Nat) : Prop :=
  ∀ header ∈ (f.read 0 fileHeaderSize).bind FileHeader.decode,
    AssertsLoadAllBlocks f header.tableBlockOffset.toNat ∧
    ∀ metatable ∈ loadAllBlocks f.size header.tableBlockOffset.toNat ⟨f, 0, growPagesStep, 0, []⟩ (unloaded []),
      ∀ record ∈ metatable.2.records, AssertsLoadTable f record

def Ldb.Asserts (s : Ldb) : Action → Prop
  | .command c => ∀ made ∈ c.call s, ∀ t ∈ s.table? made.1, made.2.Asserts s.space t
  | .reload growPagesStep => AssertsLoadFile s.space.file growPagesStep

instance (s : Ldb) (c : Command) : Decidable (s.Asserts (.command c)) :=
  inferInstanceAs (Decidable (∀ made ∈ c.call s, ∀ t ∈ s.table? made.1, made.2.Asserts s.space t))

/-! ## What a run has to avoid -/

/-- The free space after so many bytes are written into it. -/
def roomAfter (growPagesStep room n : Nat) : Nat :=
  let pages := (n - room) / pageSize + 1
  if room < n then room + (if pages < growPagesStep then growPagesStep else pages) * pageSize - n else room - n

/-- No part of no size is written where the file is full. -/
def Call.Careful (call : Call) (s : Space) (t : TableInfo) : Prop :=
  let current := t.lastBlockHeaderInfo.blockHeader
  let room := s.file.size - s.nextDataOffset
  let room := if checkNeedForNewBlock current then roomAfter s.growPagesStep room current.size.toNat else room
  let roomForValue := roomAfter s.growPagesStep room (dataSize call.key)
  let roomForMetadata := roomAfter s.growPagesStep roomForValue (dataSize call.value)
  (call.key = some [] → room ≠ 0) ∧ (call.value = some [] → roomForValue ≠ 0) ∧
    (call.metadata = some [] → roomForMetadata ≠ 0)

/-- No block was made right behind the one before it. -/
def Gapped (blocks : List Block) : Prop := blocks.IsChain fun b c => b.stop ≠ c.offset

def Ldb.Gapped (s : Ldb) : Prop :=
  Logdb.Gapped s.metatable.blocks ∧ ∀ entry ∈ s.tables.toList, Logdb.Gapped entry.2.blocks

def Ldb.Careful (s : Ldb) : Action → Prop
  | .command c => ∀ made ∈ c.call s, ∀ t ∈ s.table? made.1, made.2.Careful s.space t
  | .reload _ => s.Gapped

/-- The commands of a caller that names its tables and gives every record a key and a value. -/
def Action.Proper : Action → Prop
  | .command (.createTable name) => name ≠ []
  | .command (.append _ key value _) => key.isSome ∧ value.isSome
  | .command (.set _ _ _ value _) => value.isSome
  | .command (.setByIndex _ _ key value _) => key.isSome ∧ value.isSome
  | .command (.insertByIndex _ _ key value _) => key.isSome ∧ value.isSome
  | _ => True

instance (call : Call) (s : Space) (t : TableInfo) : Decidable (call.Careful s t) :=
  inferInstanceAs (Decidable ((_ → _) ∧ (_ → _) ∧ (_ → _)))

instance (blocks : List Block) : Decidable (Gapped blocks) := inferInstanceAs (Decidable (List.IsChain _ _))

instance (s : Ldb) : Decidable s.Gapped := inferInstanceAs (Decidable (_ ∧ ∀ entry ∈ s.tables.toList, _))

instance (s : Ldb) : ∀ a, Decidable (s.Careful a)
  | .command c => inferInstanceAs (Decidable (∀ made ∈ c.call s, ∀ t ∈ s.table? made.1, made.2.Careful s.space t))
  | .reload _ => inferInstanceAs (Decidable s.Gapped)

instance : ∀ a : Action, Decidable a.Proper
  | .command (.createTable name) => inferInstanceAs (Decidable (name ≠ []))
  | .command (.append _ key value _) => inferInstanceAs (Decidable (key.isSome ∧ value.isSome))
  | .command (.set _ _ _ value _) => inferInstanceAs (Decidable (value.isSome))
  | .command (.setByIndex _ _ key value _) => inferInstanceAs (Decidable (key.isSome ∧ value.isSome))
  | .command (.insertByIndex _ _ key value _) => inferInstanceAs (Decidable (key.isSome ∧ value.isSome))
  | .command (.deleteTable _) => isTrue trivial
  | .command (.delete _ _ _) => isTrue trivial
  | .command (.deleteByIndex _ _) => isTrue trivial
  | .command (.clearAllRecords _) => isTrue trivial
  | .reload _ => isTrue trivial

/-! ## A call -/

section Call

variable {s : Space} {n : Nat} {data : Option Bytes}

def Space.room (s : Space) : Nat := s.file.size - s.nextDataOffset

theorem roomAfter_zero (growPagesStep room : Nat) : roomAfter growPagesStep room 0 = room := by
  simp [roomAfter]

theorem Space.ensureSpace_room (hnext : s.nextDataOffset ≤ s.file.size) (n : Nat) :
    (s.ensureSpace n).file.size - (s.nextDataOffset + n) = roomAfter s.growPagesStep s.room n := by
  have hroom : s.room = s.file.size - s.nextDataOffset := rfl
  by_cases h : s.room < n
  · have hgrow : s.ensureSpace n = s.leaveRoom (n - s.room) := if_pos h
    rw [hgrow, roomAfter, if_pos h]
    simp only [leaveRoom, growFile, File.grow]
    omega
  · have hsame : s.ensureSpace n = s := if_neg h
    rw [hsame, roomAfter, if_neg h]
    omega

theorem Space.ensureSpace_growPagesStep (s : Space) (n : Nat) : (s.ensureSpace n).growPagesStep = s.growPagesStep := by
  simp only [ensureSpace]
  split <;> rfl

theorem write_growPagesStep {s' : Space} {offset : Nat} {bytes : Bytes} (h : s.write offset bytes = some s') :
    s'.growPagesStep = s.growPagesStep := by
  obtain ⟨f, -, rfl⟩ := Option.map_eq_some_iff.mp h
  rfl

theorem Space.lt_ensureSpace (hnext : s.nextDataOffset ≤ s.file.size) (n : Nat) :
    s.nextDataOffset < (s.ensureSpace n).file.size ↔ (n = 0 → s.room ≠ 0) := by
  have hroom : s.room = s.file.size - s.nextDataOffset := rfl
  by_cases h : s.room < n
  · have hgrow : s.ensureSpace n = s.leaveRoom (n - s.room) := if_pos h
    have hsize := leaveRoom_size s (n - s.room)
    rw [hgrow]
    omega
  · have hsame : s.ensureSpace n = s := if_neg h
    rw [hsame]
    omega

theorem Space.room_of_write {s' : Space} {bytes : Bytes} (hnext : s.nextDataOffset ≤ s.file.size)
    (h : (s.ensureSpace n).write s.nextDataOffset bytes = some s') :
    s'.growPagesStep = s.growPagesStep ∧
      s'.file.size - (s.nextDataOffset + n) = roomAfter s.growPagesStep s.room n := by
  refine ⟨(write_growPagesStep h).trans (ensureSpace_growPagesStep s n), ?_⟩
  rw [size_of_write h]
  exact ensureSpace_room hnext n

/-- What a space is after `n` bytes were written behind its data. -/
structure Wrote (s s' : Space) (n : Nat) : Prop where
  growPagesStep : s'.growPagesStep = s.growPagesStep
  room : s'.room = roomAfter s.growPagesStep s.room n
  next : s'.nextDataOffset = s.nextDataOffset + n
  next_le : s'.nextDataOffset ≤ s'.file.size
  size : s.file.size ≤ s'.file.size

theorem Space.writeLdbData_wrote (hnext : s.nextDataOffset ≤ s.file.size) (data : Option Bytes) :
    ∃ s' field, s.writeLdbData data = some (s', field) ∧ Wrote s s' (dataSize data) := by
  obtain ⟨s', h, hthrough, hn, hle, -⟩ := writeLdbData_spec hnext data
  refine ⟨s', _, h, ?_, ?_, hn, hle, hthrough.keeps.size⟩
  · cases data with
    | none => rw [(Prod.mk.inj (Option.some.inj h)).1]
    | some data =>
      obtain ⟨s₁, hs₁, heq⟩ := Option.map_eq_some_iff.mp h
      obtain ⟨rfl, -⟩ := Prod.mk.inj heq
      exact (room_of_write hnext hs₁).1
  · cases data with
    | none =>
      rw [← (Prod.mk.inj (Option.some.inj h)).1]
      exact (roomAfter_zero _ _).symm
    | some data =>
      obtain ⟨s₁, hs₁, heq⟩ := Option.map_eq_some_iff.mp h
      obtain ⟨rfl, -⟩ := Prod.mk.inj heq
      exact (room_of_write hnext hs₁).2

theorem Space.assertsWriteLdbData_iff (hpos : 0 < s.nextDataOffset) (hnext : s.nextDataOffset ≤ s.file.size)
    (data : Option Bytes) : s.AssertsWriteLdbData data ↔ (data = some [] → s.room ≠ 0) := by
  cases data with
  | none => simp [AssertsWriteLdbData]
  | some data =>
    simp only [AssertsWriteLdbData, lt_ensureSpace hnext, List.length_eq_zero_iff, Option.some.injEq, and_iff_right_iff_imp]
    exact fun _ => Nat.pos_iff_ne_zero.mp hpos

/-- The asserts of the three writes of data, of which the last ones are certain. -/
theorem asserts_data_iff (info : BlockHeaderInfo) (new : Option BlockHeaderInfo) (hpos : 0 < s.nextDataOffset)
    (hnext : s.nextDataOffset ≤ s.file.size)
    (hlast : ∀ s' : Space, s.file.size ≤ s'.file.size → s'.AssertsWriteLogRecord info new)
    (key value metadata : Option Bytes) :
    (s.AssertsWriteLdbData key ∧ ∀ k ∈ s.writeLdbData key, k.1.AssertsWriteLdbData value ∧
        ∀ v ∈ k.1.writeLdbData value, v.1.AssertsWriteLdbData metadata ∧
        ∀ m ∈ v.1.writeLdbData metadata, m.1.AssertsWriteLogRecord info new) ↔
      (key = some [] → s.room ≠ 0) ∧ (value = some [] → roomAfter s.growPagesStep s.room (dataSize key) ≠ 0) ∧
        (metadata = some [] →
          roomAfter s.growPagesStep (roomAfter s.growPagesStep s.room (dataSize key)) (dataSize value) ≠ 0) := by
  obtain ⟨s₁, k, hk, hw₁⟩ := Space.writeLdbData_wrote hnext key
  obtain ⟨s₂, v, hv, hw₂⟩ := Space.writeLdbData_wrote hw₁.next_le value
  obtain ⟨s₃, m, hm, hw₃⟩ := Space.writeLdbData_wrote hw₂.next_le metadata
  have hpos₁ : 0 < s₁.nextDataOffset := by rw [hw₁.next]; omega
  have hpos₂ : 0 < s₂.nextDataOffset := by rw [hw₂.next]; omega
  have hcertain := hlast s₃ ((hw₁.size.trans hw₂.size).trans hw₃.size)
  simp only [hk, hv, hm, Option.mem_some_iff, forall_eq', hcertain, and_true, Space.assertsWriteLdbData_iff hpos hnext,
    Space.assertsWriteLdbData_iff hpos₁ hw₁.next_le, Space.assertsWriteLdbData_iff hpos₂ hw₂.next_le, hw₁.room,
    hw₂.room, hw₁.growPagesStep]

theorem assertsWriteLogRecord_of_block {b : Block} (link : Nat) (info : BlockHeaderInfo) (hpos : 0 < b.offset)
    (hinside : b.stop ≤ s.file.size) (hroom : b.records.length < Block.capacity) :
    (Space.AssertsWriteLogRecord s (b.headerInfo link) none) ∧
      (info.offset ≠ 0 → info.offset < s.file.size →
        Space.AssertsWriteLogRecord s info (some (b.headerInfo link))) := by
  have hcount : (UInt32.ofNat b.records.length).toNat = b.records.length :=
    UInt32.toNat_ofNat_of_lt' (Nat.lt_trans hroom (by decide))
  have hused := Block.used_le_stop (Nat.le_of_lt hroom)
  have hlt : b.used < b.stop := by
    have hsize : defaultBlockSize.toNat = 4096 := rfl
    simp only [Block.used, Block.stop, Block.capacity, blockHeaderSize, logRecordSize] at hroom ⊢
    omega
  have hplace : b.offset + blockHeaderSize + logRecordSize * b.records.length = b.used := rfl
  have hle : b.offset ≤ b.used := by
    rw [← hplace, Nat.add_assoc]
    exact Nat.le_add_right _ _
  simp only [Space.AssertsWriteLogRecord, Option.getD_none, Option.getD_some, Block.headerInfo, hcount, hplace]
  refine ⟨⟨⟨by omega, by omega, by omega, by omega⟩, by simp⟩, fun hne hlt' => ⟨⟨by omega, by omega, by omega, by omega⟩, ?_⟩⟩
  exact fun _ => ⟨hne, hlt'⟩

theorem Space.createNewBlock_wrote {s' : Space} {current info : BlockHeaderInfo} {new : Option BlockHeaderInfo}
    (hnext : s.nextDataOffset ≤ s.file.size) (hneed : checkNeedForNewBlock current.blockHeader = true)
    (h : s.createNewBlockIfNeeded current = some (s', info, new)) : Wrote s s' current.blockHeader.size.toNat := by
  simp only [createNewBlockIfNeeded, hneed, Bool.not_true, Bool.false_eq_true, if_false] at h
  obtain ⟨s₁, hs₁, heq⟩ := Option.map_eq_some_iff.mp h
  obtain ⟨rfl, -⟩ := Prod.mk.inj heq
  obtain ⟨hgrow, hroom⟩ := room_of_write hnext hs₁
  have hsize := size_of_write hs₁
  refine ⟨hgrow, hroom, rfl, ?_, ?_⟩
  · change _ ≤ s₁.file.size
    rw [hsize]
    exact ensureSpace_size hnext _
  · change _ ≤ s₁.file.size
    rw [hsize]
    exact (ensureSpace_through (fun _ => True) s _).keeps.size

theorem Call.asserts_iff {call : Call} {t : TableInfo} {b : Block} (hnext : s.nextDataOffset ≤ s.file.size)
    (hinfo : t.lastBlockHeaderInfo = b.headerInfo 0) (hb : b.At s.file 0) (hstop : b.stop ≤ s.nextDataOffset)
    (hindex : call.operation = .clear ∨ (call.operation = .insert ∧ call.recordIndex = 0) ∨ call.operation = .append ∨
      call.recordIndex.toNat < t.records.length) : call.Asserts s t ↔ call.Careful s t := by
  let s₁ : Space := { s with lastRecordID := s.lastRecordID + 1 }
  have hbpos := hb.pos
  have hpos : 0 < s₁.nextDataOffset := by
    have hoffset : b.offset ≤ b.stop := Nat.le_add_right _ _
    exact hbpos.trans_le (hoffset.trans hstop)
  have hroom₁ : s.file.size - s.nextDataOffset = s₁.room := rfl
  unfold Call.Asserts Call.Careful
  rw [and_iff_right hindex, hinfo]
  by_cases hroom : b.records.length < Block.capacity
  · have hneed : checkNeedForNewBlock (b.headerInfo 0).blockHeader = false := by
      rw [← Bool.not_eq_true, checkNeedForNewBlock_iff hb.room]
      exact not_not.mpr hroom
    have hnew : s₁.createNewBlockIfNeeded (b.headerInfo 0) = some (s₁, b.headerInfo 0, none) := by
      rw [Space.createNewBlockIfNeeded, hneed]
      rfl
    have hnone : s₁.AssertsCreateNewBlockIfNeeded (b.headerInfo 0) := fun hfull => by simp [hneed] at hfull
    have hdata := asserts_data_iff (s := s₁) (b.headerInfo 0) none hpos hnext
      (fun s' hsize => (assertsWriteLogRecord_of_block 0 (b.headerInfo 0) hbpos
        (hb.inside.trans hsize) hroom).1) call.key call.value call.metadata
    simp only [s₁, hnew, hnone, true_and, Option.mem_some_iff, forall_eq', hneed, Bool.false_eq_true, if_false]
    exact hdata
  · have hneed : checkNeedForNewBlock (b.headerInfo 0).blockHeader = true :=
      (checkNeedForNewBlock_iff hb.room 0).mpr hroom
    obtain ⟨s₀, hnew, -⟩ := createNewBlockIfNeeded_full (s := s₁) (b := b) hnext hb.room hroom
    have hwrote := Space.createNewBlock_wrote (s := s₁) hnext hneed hnew
    have hasserts : s₁.AssertsCreateNewBlockIfNeeded (b.headerInfo 0) := fun _ =>
      ⟨Nat.pos_iff_ne_zero.mp hpos, (Space.lt_ensureSpace (s := s₁) hnext _).mpr fun hzero =>
        absurd hzero (show defaultBlockSize.toNat ≠ 0 by decide)⟩
    have hstop₀ : s₀.nextDataOffset = s₁.nextDataOffset + defaultBlockSize.toNat := hwrote.next
    have hdata := asserts_data_iff (s := s₀) (b.headerInfo s₁.nextDataOffset)
      (some (Block.headerInfo ⟨s₁.nextDataOffset, []⟩ 0)) (by omega) hwrote.next_le
      (fun s' hsize => (assertsWriteLogRecord_of_block (b := ⟨s₁.nextDataOffset, []⟩) 0 _ hpos
        (by rw [Block.stop, ← hstop₀]; exact hwrote.next_le.trans hsize) (show 0 < Block.capacity by decide)).2
        (Nat.pos_iff_ne_zero.mp hbpos) (by
          have hoffset : b.offset < b.stop := Nat.lt_add_of_pos_right (by decide)
          have hsize₀ : s₁.file.size ≤ s₀.file.size := hwrote.size
          exact (hoffset.trans_le hstop).trans_le (hnext.trans (hsize₀.trans hsize))))
      call.key call.value call.metadata
    simp only [s₁, hnew, hasserts, true_and, Option.mem_some_iff, forall_eq', hneed, if_true]
    rw [hwrote.room, hwrote.growPagesStep] at hdata
    exact hdata

end Call

/-! ## A command -/

section Command

variable {s : Ldb} {c : Command} {o : Option Bytes} {call : Call} {t : TableInfo}

theorem index_of_setByIndexCall {index : UInt32} {key value metadata : Option Bytes}
    (h : t.setByIndexCall index key value metadata = some call) :
    call = ⟨.set, index, key, value, metadata⟩ ∧ index.toNat < t.records.length := by
  unfold TableInfo.setByIndexCall at h
  split_ifs at h with hlt
  exact ⟨(Option.some.inj h).symm, hlt⟩

theorem index_of_deleteByIndexCall {index : UInt32} (h : t.deleteByIndexCall index = some call) :
    call = ⟨.delete, index, none, none, none⟩ ∧ index.toNat < t.records.length := by
  unfold TableInfo.deleteByIndexCall at h
  split_ifs at h with hlt
  exact ⟨(Option.some.inj h).symm, hlt⟩

theorem index_of_insertByIndexCall {index : UInt32} {key value metadata : Option Bytes}
    (h : t.insertByIndexCall index key value metadata = some call) :
    call = ⟨.insert, index, key, value, metadata⟩ ∧ (index = 0 ∨ index.toNat < t.records.length) := by
  unfold TableInfo.insertByIndexCall at h
  split_ifs at h with hlt
  exact ⟨(Option.some.inj h).symm, by tauto⟩

theorem call_of_setCall {f : File} {startIndex : UInt32} {key : Bytes} {value metadata : Option Bytes}
    (h : t.setCall f startIndex key value metadata = some call) :
    call = t.appendCall (some key) value metadata ∨
      ∃ index, call = ⟨.set, index, some key, value, metadata⟩ ∧ index.toNat < t.records.length := by
  obtain ⟨found, -, h⟩ := Option.bind_eq_some_iff.mp h
  cases found with
  | none => exact .inl (Option.some.inj h).symm
  | some index => exact .inr ⟨index, index_of_setByIndexCall h⟩

theorem call_of_deleteCall {f : File} {startIndex : UInt32} {key : Bytes}
    (h : t.deleteCall f startIndex key = some call) :
    ∃ index, call = ⟨.delete, index, none, none, none⟩ ∧ index.toNat < t.records.length := by
  obtain ⟨found, -, h⟩ := Option.bind_eq_some_iff.mp h
  obtain ⟨index, -, h⟩ := Option.bind_eq_some_iff.mp h
  exact ⟨index, index_of_deleteByIndexCall h⟩

/-- What the public operations see to: an index that is checked, and data for a record that is not deleted. -/
structure Call.Valid (call : Call) (t : TableInfo) : Prop where
  index : call.operation = .clear ∨ (call.operation = .insert ∧ call.recordIndex = 0) ∨ call.operation = .append ∨
    call.recordIndex.toNat < t.records.length
  key : call.operation = .delete ∨ call.operation = .clear ∨ call.key.isSome

theorem Call.Valid.set (h : call.Valid t) (hset : call.operation = .set) :
    call.recordIndex.toNat < t.records.length := by
  simpa [hset] using h.index

/-- A call on the metatable, which lists a table or takes it off the list. -/
def Call.Lists (call : Call) : Prop :=
  call.operation = .delete ∨
    call.operation = .append ∧ ∃ name, name ≠ [] ∧ call.key = some name ∧ call.value = some Ldb.createdBuffer

theorem Command.valid_of_call (hproper : (Action.command c).Proper) (h : c.call s = some (o, call))
    (ht : s.table? o = some t) : call.Valid t ∧ (o = none → call.Lists) := by
  have honTable {name : Bytes} (made : TableInfo → Option Call)
      (h : (s.tables[name]?.bind fun t => (made t).map fun call => (some name, call)) = some (o, call)) :
      made t = some call ∧ o ≠ none := by
    obtain ⟨t₀, ht₀, h⟩ := Option.bind_eq_some_iff.mp h
    obtain ⟨call', hcall, heq⟩ := Option.map_eq_some_iff.mp h
    obtain ⟨rfl, rfl⟩ := Prod.mk.inj heq
    obtain rfl := Option.some.inj (ht₀.symm.trans ht)
    exact ⟨hcall, by simp⟩
  cases c with
  | createTable name =>
    simp only [Command.call] at h
    split_ifs at h
    obtain ⟨rfl, rfl⟩ := Prod.mk.inj (Option.some.inj h)
    exact ⟨⟨.inr (.inr (.inl rfl)), .inr (.inr rfl)⟩, fun _ => .inr ⟨rfl, name, hproper, rfl, rfl⟩⟩
  | deleteTable name =>
    obtain ⟨t₀, -, h⟩ := Option.bind_eq_some_iff.mp h
    obtain ⟨call', hcall, heq⟩ := Option.map_eq_some_iff.mp h
    obtain ⟨rfl, rfl⟩ := Prod.mk.inj heq
    obtain rfl := Option.some.inj ht
    obtain ⟨index, rfl, hlt⟩ := call_of_deleteCall hcall
    exact ⟨⟨.inr (.inr (.inr hlt)), .inl rfl⟩, fun _ => .inl rfl⟩
  | append name key value metadata =>
    obtain ⟨hcall, ho⟩ := honTable (fun t => some (t.appendCall key value metadata)) h
    obtain rfl := Option.some.inj hcall
    exact ⟨⟨.inr (.inr (.inl rfl)), .inr (.inr hproper.1)⟩, fun hnone => absurd hnone ho⟩
  | set name startIndex key value metadata =>
    obtain ⟨hcall, ho⟩ := honTable _ h
    refine ⟨?_, fun hnone => absurd hnone ho⟩
    rcases call_of_setCall hcall with rfl | ⟨index, rfl, hlt⟩
    · exact ⟨.inr (.inr (.inl rfl)), .inr (.inr rfl)⟩
    · exact ⟨.inr (.inr (.inr hlt)), .inr (.inr rfl)⟩
  | setByIndex name index key value metadata =>
    obtain ⟨hcall, ho⟩ := honTable _ h
    obtain ⟨rfl, hlt⟩ := index_of_setByIndexCall hcall
    exact ⟨⟨.inr (.inr (.inr hlt)), .inr (.inr hproper.1)⟩, fun hnone => absurd hnone ho⟩
  | insertByIndex name index key value metadata =>
    obtain ⟨hcall, ho⟩ := honTable _ h
    obtain ⟨rfl, hindex⟩ := index_of_insertByIndexCall hcall
    refine ⟨⟨?_, .inr (.inr hproper.1)⟩, fun hnone => absurd hnone ho⟩
    rcases hindex with hzero | hlt
    · exact .inr (.inl ⟨rfl, hzero⟩)
    · exact .inr (.inr (.inr hlt))
  | delete name startIndex key =>
    obtain ⟨hcall, ho⟩ := honTable _ h
    obtain ⟨index, rfl, hlt⟩ := call_of_deleteCall hcall
    exact ⟨⟨.inr (.inr (.inr hlt)), .inl rfl⟩, fun hnone => absurd hnone ho⟩
  | deleteByIndex name index =>
    obtain ⟨hcall, ho⟩ := honTable _ h
    obtain ⟨rfl, hlt⟩ := index_of_deleteByIndexCall hcall
    exact ⟨⟨.inr (.inr (.inr hlt)), .inl rfl⟩, fun hnone => absurd hnone ho⟩
  | clearAllRecords name =>
    obtain ⟨hcall, ho⟩ := honTable (fun _ => some clearCall) h
    obtain rfl := Option.some.inj hcall
    exact ⟨⟨.inl rfl, .inr (.inl rfl)⟩, fun hnone => absurd hnone ho⟩

theorem Ldb.Frame.asserts_command_iff (h : s.Frame) (hproper : (Action.command c).Proper) :
    s.Asserts (.command c) ↔ s.Careful (.command c) := by
  refine forall_congr' fun made => forall_congr' fun hmade => forall_congr' fun t => forall_congr' fun ht => ?_
  have hvalid := (Command.valid_of_call hproper hmade ht).1
  obtain ⟨bs, b, hblocks, hinfo⟩ := h.infos made.1 t ht
  have hlast : s.layout.blocks made.1 = some (bs ++ [b]) := by rw [Ldb.layout_blocks, ht, Option.map_some, hblocks]
  have hchain := h.chain ht
  rw [hblocks] at hchain
  exact Call.asserts_iff h.next_le hinfo (linked_singleton.mp (linked_append.mp hchain.linked).2)
    (h.framed.below_block hlast (by simp)) hvalid.index

end Command

/-! ## What the log records have -/

section Record

variable {start : Nat} {operation : Operation} {recordIndex : UInt32} {key value metadata : Option Bytes}
  {records : List LogRecord} {r : LogRecord}

theorem lastFieldEnd_ne_zero (h : r.key.dataOffset ≠ 0) : lastFieldEnd r ≠ 0 := by
  have hpos : r.key.dataOffset.toNat ≠ 0 := fun hzero => h (UInt32.toNat_inj.mp hzero)
  simp only [lastFieldEnd, Field.stop, UInt32.lt_iff_toNat_lt]
  split <;> split <;> omega

theorem Logged.key_eq (h : Logged start operation recordIndex key value metadata records r) {data : Bytes}
    (hkey : key = some data) : r.key = fieldAt start (some data) := by
  subst hkey
  obtain ⟨recordID, ⟨-, rfl⟩ | ⟨-, old, -, rfl⟩⟩ := h <;> rfl

theorem fieldAt_ne_zero {offset : Nat} {data : Bytes} (hpos : 0 < offset) (hlt : offset < 2 ^ 32) :
    (fieldAt offset (some data)).dataOffset ≠ 0 := by
  intro hzero
  have hoffset : (UInt32.ofNat offset).toNat = offset := UInt32.toNat_ofNat_of_lt' hlt
  rw [show UInt32.ofNat offset = 0 from hzero] at hoffset
  exact absurd hoffset.symm (Nat.pos_iff_ne_zero.mp hpos)

/-- A record of the metatable names a table, and has its first block. -/
structure LogRecord.Names (r : LogRecord) : Prop where
  offset : r.key.dataOffset ≠ 0
  size : r.key.dataSize ≠ 0
  block : r.value.dataSize = defaultBlockSize

theorem names_of_logged {name : Bytes} (h : Logged start .append recordIndex key value metadata records r)
    (hname : name ≠ []) (hkey : key = some name) (hvalue : value = some Ldb.createdBuffer) (hpos : 0 < start)
    (hlt : start + dataSize key < 2 ^ 32) : r.Names := by
  subst hkey hvalue
  have hlength : start + name.length < 2 ^ 32 := hlt
  obtain ⟨recordID, ⟨-, rfl⟩ | ⟨hset, -⟩⟩ := h
  · refine ⟨fieldAt_ne_zero hpos (by omega), fun hzero => ?_, congrArg UInt32.ofNat Ldb.length_createdBuffer⟩
    have hsize : (UInt32.ofNat name.length).toNat = name.length :=
      UInt32.toNat_ofNat_of_lt' (show name.length < 2 ^ 32 by omega)
    rw [show UInt32.ofNat name.length = 0 from hzero] at hsize
    exact hname (List.length_eq_zero_iff.mp hsize.symm)
  · cases hset

end Record

namespace Ldb

variable {s s' : Ldb} {c : Command}

/-- What a load asserts of the log records. -/
structure Told (s : Ldb) : Prop where
  logs : ∀ o t, s.table? o = some t → ∀ r ∈ logOf t.blocks, r.AssertsLoadBlock
  listed : ∀ r ∈ s.metatable.records, r.Names

theorem told_create {growPagesStep : Nat} (h : create growPagesStep = some s) : s.Told := by
  have hnone := remembers_create h
  obtain ⟨sp, rfl, -⟩ := eq_of_create h
  refine ⟨fun o t ht r hr => ?_, fun r hr => by cases hr⟩
  rw [hnone o t ht] at hr
  cases hr

theorem Told.called (h : s.Told) (hframe : s.Frame) {o : Option Bytes} {made : Call} {t t' : TableInfo}
    (hcalled : Called s s' c o made t t') (hproper : (Action.command c).Proper)
    (hsize : s'.space.file.size < 2 ^ 32) : s'.Told := by
  obtain ⟨hvalid, hlists⟩ := Command.valid_of_call hproper hcalled.call hcalled.before
  obtain ⟨bs, b, r, hblocks, hpos, hstop, happ⟩ := appended_of_called hframe hcalled hvalid.set
  have hnext := happ.next
  have hle := happ.next_le
  have hstart := le_dataStart s.space.nextDataOffset b
  have hoffset : b.offset ≤ b.stop := Nat.le_add_right _ _
  have hlog : logOf t'.blocks = logOf t.blocks ++ [r] := by rw [happ.blocks, logOf_tailOf, hblocks]
  refine ⟨fun o' t₀ ht₀ r' hr' => ?_, fun r' hr' => ?_⟩
  · rcases mem_log_of_called hcalled hlog ht₀ hr' with ⟨t₁, ht₁, hr'⟩ | rfl
    · exact h.logs o' t₁ ht₁ r' hr'
    · have hop := (Logged.operation happ.logged).1
      rcases hvalid.key with hdelete | hclear | hkey
      · exact .inl (hop.trans (congrArg _ hdelete))
      · exact .inr (.inl (hop.trans (congrArg _ hclear)))
      · obtain ⟨data, hdata⟩ := Option.isSome_iff_exists.mp hkey
        refine .inr (.inr (lastFieldEnd_ne_zero ?_))
        rw [happ.logged.key_eq hdata]
        exact fieldAt_ne_zero (by omega) (by omega)
  · cases o with
    | some name =>
      rcases hcalled.others none s'.metatable (by simp) rfl with hbefore | ⟨⟨hnone, -⟩, -⟩
      · exact h.listed r' (Option.some.inj hbefore ▸ hr')
      · cases hnone
    | none =>
      have ht : s.metatable = t := Option.some.inj hcalled.before
      have ht' : s'.metatable = t' := Option.some.inj hcalled.after
      rw [ht', happ.records] at hr'
      rcases hlists rfl with hdelete | ⟨happend, name, hname, hkey, hvalue⟩
      · rw [hdelete] at hr'
        exact h.listed r' (ht ▸ List.mem_of_mem_eraseIdx hr')
      · have hlogged := happ.logged
        rw [happend] at hr' hlogged
        rcases List.mem_append.mp hr' with hr' | hr'
        · exact h.listed r' (ht ▸ hr')
        · rw [List.mem_singleton.mp hr']
          exact names_of_logged hlogged hname hkey hvalue (by omega) (by omega)

theorem Told.reload (h : s.Told) (hframe : s.Frame) (hframe' : s'.Frame) (hlayout : s'.layout = s.layout) : s'.Told := by
  refine ⟨fun o t ht r hr => ?_, fun r hr => ?_⟩
  · obtain ⟨t₀, ht₀, heq⟩ := exists_table_of_layout hlayout ht
    exact h.logs o t₀ ht₀ r (heq ▸ hr)
  · have hblocks : s'.metatable.blocks = s.metatable.blocks := congrArg Layout.metatable hlayout
    rw [hframe'.metatable, hblocks, ← hframe.metatable] at hr
    exact h.listed r hr

end Ldb

/-! ## A load -/

section Load

variable {f : File} {blocks : List Block}

theorem assertsBlocks_iff (hsize : f.size < 2 ^ 32) (h : Linked f 0 blocks)
    (hascending : blocks.Pairwise fun b c => b.stop ≤ c.offset) (hrecords : ∀ r ∈ logOf blocks, r.AssertsLoadBlock)
    {fuel : Nat} (hfuel : blocks.length ≤ fuel) :
    AssertsBlocks f fuel (startOf 0 blocks) ↔ Gapped blocks := by
  induction blocks generalizing fuel with
  | nil => cases fuel <;> simp [AssertsBlocks, startOf, Gapped]
  | cons b bs ih =>
    obtain ⟨fuel, rfl⟩ := Nat.exists_eq_succ_of_ne_zero (n := fuel) (by rintro rfl; cases hfuel)
    have hlink : (UInt32.ofNat (startOf 0 bs)).toNat = startOf 0 bs :=
      UInt32.toNat_ofNat_of_lt' (startOf_lt hsize h.2)
    have hload : loadLogRecords f ⟨(b.headerInfo (startOf 0 bs)).blockHeader, b.offset⟩ = some b.records :=
      loadLogRecords_eq h.1
    have hmine : ∀ r ∈ b.records, r.AssertsLoadBlock := fun r hr => hrecords r (by simp [logOf, hr])
    have hrest := ih h.2 (List.pairwise_cons.mp hascending).2
      (fun r hr => hrecords r (by rw [logOf, List.flatMap_cons]; exact List.mem_append_right _ hr))
      (Nat.le_of_succ_le_succ hfuel)
    have hne : b.offset ≠ 0 := Nat.pos_iff_ne_zero.mp h.1.pos
    have hnext : (b.headerInfo (startOf 0 bs)).blockHeader.nextBlockOffset = UInt32.ofNat (startOf 0 bs) := rfl
    have hwidth : (b.headerInfo (startOf 0 bs)).blockHeader.size = defaultBlockSize := rfl
    change AssertsBlocks f (fuel + 1) b.offset ↔ _
    simp only [AssertsBlocks, hne, false_or, h.1.header, Option.bind_some, BlockHeader.decode_encode,
      Option.mem_some_iff, forall_eq', hload, hnext, hwidth, hlink, hrest]
    rw [and_iff_right hmine]
    cases bs with
    | nil => simp [startOf, Gapped]
    | cons c cs =>
      have hpos := h.2.1.pos
      have hle := (List.pairwise_cons.mp hascending).1 c (by simp)
      have hzero : ¬ UInt32.ofNat c.offset = 0 := fun hzero => by
        rw [startOf, hzero] at hlink
        exact absurd hlink.symm (Nat.pos_iff_ne_zero.mp hpos)
      rw [Gapped, Gapped, List.isChain_cons_cons]
      refine and_congr_left fun _ => ?_
      simp only [startOf, hzero, false_or]
      rw [show b.stop = b.offset + defaultBlockSize.toNat from rfl] at hle ⊢
      omega

theorem Chain.asserts_iff (h : Chain f blocks) (hsize : f.size < 2 ^ 32)
    (hrecords : ∀ r ∈ logOf blocks, r.AssertsLoadBlock) :
    AssertsLoadAllBlocks f (startOf 0 blocks) ↔ Gapped blocks := by
  have hfuel : blocks.length ≤ f.size := (Nat.le_mul_of_pos_left _ (by decide)).trans h.length_le
  have hne : startOf 0 blocks ≠ 0 := by
    obtain ⟨b, bs, rfl⟩ := List.exists_cons_of_ne_nil h.ne_nil
    exact Nat.pos_iff_ne_zero.mp h.linked.1.pos
  unfold AssertsLoadAllBlocks
  rw [and_iff_right hne]
  exact assertsBlocks_iff hsize h.linked h.ascending hrecords hfuel

end Load

namespace Ldb

variable {s s' s₀ : Ldb} {growPagesStep : Nat} {actions : List Action}

/-- The asserts of a load hold exactly if there is a gap behind every block of a chain. -/
theorem Frame.asserts_reload_iff (h : s.Frame) (htold : s.Told) (hsize : s.space.file.size < 2 ^ 32) :
    s.Asserts (.reload growPagesStep) ↔ s.Gapped := by
  have hdecode : (s.space.file.read 0 fileHeaderSize).bind FileHeader.decode = some fileHeader := by
    rw [h.onFile.header, Option.bind_some, FileHeader.decode_encode]
  have hstart : startOf 0 s.metatable.blocks = fileHeader.tableBlockOffset.toNat := h.onFile.start
  have hload := loadChain_eq (s := ⟨s.space.file, 0, growPagesStep, 0, []⟩) hsize h.onFile.metatable []
  have hrecords : (tableOf [] s.layout.metatable).records = s.metatable.records := h.metatable.symm
  have hstart' : startOf 0 s.layout.metatable = fileHeader.tableBlockOffset.toNat := hstart
  have hchain {o : Option Bytes} {t : TableInfo} (ht : s.table? o = some t) :
      AssertsLoadAllBlocks s.space.file (startOf 0 t.blocks) ↔ Logdb.Gapped t.blocks :=
    (h.chain ht).asserts_iff hsize (htold.logs o t ht)
  rw [hstart'] at hload
  simp only [Asserts, AssertsLoadFile, hdecode, Option.mem_some_iff, forall_eq', hload, hrecords]
  refine and_congr (hstart ▸ hchain (o := none) rfl) ⟨fun htables entry hentry => ?_, fun hgapped r hr => ?_⟩
  · have ht : s.table? (some entry.1) = some entry.2 := Std.ExtTreeMap.mem_toList_iff_getElem?_eq_some.mp hentry
    obtain ⟨r, hr, hname⟩ := h.onFile.complete entry.1 entry.2.blocks (congrArg (Option.map _) ht)
    obtain ⟨n, bs, hn, hbs, -, hfirst⟩ := h.onFile.listed r hr
    obtain rfl := Option.some.inj (hname.symm.trans hn)
    obtain ⟨t₀, ht₀, rfl⟩ := Option.map_eq_some_iff.mp hbs
    obtain rfl := Option.some.inj (ht₀.symm.trans ht)
    refine (hchain ht).mp ?_
    rw [hfirst]
    exact (htables r (h.metatable.symm ▸ hr)).2.2.2
  · obtain ⟨n, bs, -, hbs, -, hfirst⟩ := h.onFile.listed r (h.metatable ▸ hr)
    obtain ⟨t, ht, rfl⟩ := Option.map_eq_some_iff.mp hbs
    have hnames := htold.listed r hr
    have hblock : r.value.dataSize.toNat = 4096 := congrArg UInt32.toNat hnames.block
    refine ⟨⟨hnames.offset, fun hzero => ?_⟩, hnames.size, ?_, ?_⟩
    · rw [hnames.block] at hzero
      exact absurd hzero (by decide)
    · rw [hblock]
      decide
    · rw [← hfirst]
      exact (hchain (o := some n) ht).mpr (hgapped (n, t) (Std.ExtTreeMap.mem_toList_iff_getElem?_eq_some.mpr ht))

/-! ## Every run -/

theorem step_size_le {a : Action} (hs : s.step a = some s') : s.space.file.size ≤ s'.space.file.size := by
  cases a with
  | command c => exact apply_size_le hs
  | reload growPagesStep => exact Nat.le_of_eq (congrArg File.size (loadFile_file hs)).symm

theorem run_size_le (hrun : run step s actions = some s') : s.space.file.size ≤ s'.space.file.size :=
  run_invariant (I := fun s' => s.space.file.size ≤ s'.space.file.size)
    (fun _ _ _ h hs => h.trans (step_size_le hs)) (Nat.le_refl _) hrun

theorem Told.step (h : s.Told) (hframe : s.Frame) {a : Action} (hproper : a.Proper) (hs : s.step a = some s')
    (hsize : s'.space.file.size < 2 ^ 32) : s'.Told := by
  cases a with
  | command c =>
    rcases called_of_apply hs with ⟨-, rfl⟩ | ⟨o, made, t, t', hcalled⟩
    · exact h
    · exact h.called hframe hcalled hproper hsize
  | reload growPagesStep =>
    obtain ⟨s₁, hs₁, hframe', -, hlayout, -⟩ := hframe.reload (loadFile_file hs ▸ hsize) growPagesStep
    obtain rfl := Option.some.inj (hs₁.symm.trans hs)
    exact h.reload hframe hframe' hlayout

theorem asserts_of_run (hframe : s.Frame) (htold : s.Told) (hproper : ∀ a ∈ actions, a.Proper)
    (hrun : run step s actions = some s') (hsize : s'.space.file.size < 2 ^ 32) :
    (Meets step Asserts s actions ↔ Meets step Careful s actions) ∧ s'.Frame ∧ s'.Told := by
  induction actions generalizing s with
  | nil =>
    obtain rfl := Option.some.inj hrun
    exact ⟨Iff.rfl, hframe, htold⟩
  | cons a actions ih =>
    obtain ⟨ha, hrest⟩ := List.forall_mem_cons.mp hproper
    obtain ⟨t, ht, hrun⟩ := run_cons.mp hrun
    have hsizeₜ : t.space.file.size < 2 ^ 32 := (run_size_le hrun).trans_lt hsize
    have hmine : s.Asserts a ↔ s.Careful a := by
      cases a with
      | command c => exact hframe.asserts_command_iff ha
      | reload growPagesStep => exact hframe.asserts_reload_iff htold ((step_size_le ht).trans_lt hsizeₜ)
    obtain ⟨hlater, hlast⟩ := ih (step_frame (fun _ => hframe) ht hsizeₜ) (htold.step hframe ha ht hsizeₜ) hrest hrun
    refine ⟨?_, hlast⟩
    simp only [Meets, ht, Option.some.injEq, forall_eq', hmine, hlater]

/-- On a file below 2^32 bytes no assert of a run fails exactly if no part of no size is written where the file is
full, and no table is loaded that has a block right behind the one before it. -/
theorem asserts_hold_iff (hcreate : create growPagesStep = some s₀) (hproper : ∀ a ∈ actions, a.Proper)
    (hrun : run step s₀ actions = some s) (hsize : s.space.file.size < 2 ^ 32) :
    Meets step Asserts s₀ actions ↔ Meets step Careful s₀ actions := by
  obtain ⟨s₁, hs₁, hinv, -⟩ := create_inv growPagesStep
  obtain rfl := Option.some.inj (hs₁.symm.trans hcreate)
  exact (asserts_of_run hinv.frame (told_create hcreate) hproper hrun hsize).1

/-- Parts of no size, and a load. -/
def emptyPartsActions : List Action :=
  [.command (.createTable (ascii "t")), .command (.append (ascii "t") (some []) (some []) (some [])), .reload 1,
    .command (.set (ascii "t") 0 [] (some (ascii "v")) none)]

theorem asserts_hold_for_empty_parts : Meets step Asserts fresh emptyPartsActions := by
  have hsize : ((run step fresh emptyPartsActions).map fun s => s.space.file.size) = some 12288 := by decide +kernel
  obtain ⟨s, hrun, hsize⟩ := Option.map_eq_some_iff.mp hsize
  exact (asserts_hold_iff create_fresh (by decide) hrun (by rw [hsize]; decide)).mpr (by decide +kernel)

/-- The key ends where the file ends. -/
def fullFileActions : List Action :=
  [.command (.createTable (ascii "t")),
    .command (.append (ascii "t") (some (List.replicate 4079 0)) (some []) none)]

/-- A block has room for 85 records, and the next one is made behind it. -/
def fullBlockActions : List Action :=
  .command (.createTable (ascii "t")) :: List.replicate 86 (.command (.append (ascii "t") (some []) (some []) none))

theorem asserts_fail :
    (∃ s, run step fresh fullFileActions = some s ∧ s.space.file.size < 2 ^ 32 ∧ (∀ a ∈ fullFileActions, a.Proper) ∧
      ¬ Meets step Asserts fresh fullFileActions) ∧
    ∃ s, run step fresh (fullBlockActions ++ [.reload 1]) = some s ∧ s.space.file.size < 2 ^ 32 ∧
      (∀ a ∈ fullBlockActions ++ [.reload 1], a.Proper) ∧
      ¬ Meets step Asserts fresh (fullBlockActions ++ [.reload 1]) := by
  constructor
  · have hview : ((run step fresh fullFileActions).map fun s => s.space.file.size) = some 12288 := by decide +kernel
    have hfails : ((step fresh (.command (.createTable (ascii "t")))).map fun s =>
        decide (s.Asserts (.command (.append (ascii "t") (some (List.replicate 4079 0)) (some []) none)))) =
        some false := by decide +kernel
    obtain ⟨s, hrun, hsize⟩ := Option.map_eq_some_iff.mp hview
    obtain ⟨s₁, hs₁, hfails⟩ := Option.map_eq_some_iff.mp hfails
    exact ⟨s, hrun, by rw [hsize]; decide, by decide, fun hmeets => of_decide_eq_false hfails (hmeets.2 s₁ hs₁).1⟩
  · have hview : ((run step fresh fullBlockActions).map fun s => (s.space.file.size, decide s.Gapped)) =
        some (16384, false) := by decide +kernel
    obtain ⟨s, hrun, hview⟩ := Option.map_eq_some_iff.mp hview
    obtain ⟨hsize, hgapped⟩ := Prod.mk.inj hview
    have hlt : s.space.file.size < 2 ^ 32 := by rw [hsize]; decide
    obtain ⟨s₁, hs₁, hinv, -⟩ := create_inv 1
    obtain rfl := Option.some.inj (hs₁.symm.trans create_fresh)
    obtain ⟨-, hframe, htold⟩ := asserts_of_run hinv.frame (told_create create_fresh) (by decide) hrun hlt
    obtain ⟨s', hs', -, hfile, -⟩ := hframe.reload hlt 1
    refine ⟨s', run_append.mpr ⟨s, hrun, run_cons.mpr ⟨s', hs', rfl⟩⟩, by rw [hfile]; exact hlt, by decide, ?_⟩
    intro hmeets
    have hreload := ((meets_append hmeets).2 s hrun).1
    exact of_decide_eq_false hgapped ((hframe.asserts_reload_iff htold hlt).mp hreload)

end Ldb

end Tiodb.Logdb
