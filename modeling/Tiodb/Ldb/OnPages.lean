import Tiodb.Ldb.Asserts
import Tiodb.Ldb.PagedFile
import Tiodb.Lib.Calling

/-!
# The database on its page cache

`Ldb` of `logdb.h` again, with its `DWORD`s and its calls of `PagedFile`, as programs over
the interface of the file. What serves the calls is the cache, or a file of which nothing
is cached. The loops are bounded as in `Database.lean`.
-/

namespace Tiodb.Logdb

open Lib

/-! ## The interface of the file -/

/-- The calls of a `PagedFile`. -/
inductive FileCall where
  | read (offset size : UInt32)
  | write (offset : UInt32) (bytes : Bytes)
  | growFile (pages : UInt32)
  | setPageSize (pageSize : UInt32)
  | getPageSize
  | getFileSize

/-- What a call gives back. -/
abbrev FileCall.Answer : FileCall → Type
  | .read _ _ => Bytes
  | .getPageSize => UInt32
  | .getFileSize => UInt32
  | _ => Unit

/-- The cache serves the calls. -/
def pagedServer (memory : Memory) : Responder FileCall.Answer PagedFile
  | .read offset size, s => s.read memory offset.toNat size.toNat
  | .write offset bytes, s => (s.write memory offset.toNat bytes).map fun s => ((), s)
  | .growFile pages, s => some ((), s.growFile pages.toNat)
  | .setPageSize pageSize, s => some ((), s.setPageSize pageSize.toNat)
  | .getPageSize, s => some (UInt32.ofNat s.pageSize, s)
  | .getFileSize, s => some (UInt32.ofNat s.getFileSize, s)

/-- A file of which nothing is cached serves what `FlatFile.Allowed` and `FlatFile.InDword` let it. -/
def flatServer : Responder FileCall.Answer FlatFile
  | .read offset size, f =>
    if offset.toNat + size.toNat ≤ 2 ^ 32 then (f.file.read offset.toNat size.toNat).map fun bytes => (bytes, f)
    else none
  | .write offset bytes, f =>
    if f.pageSize ∣ f.file.size ∧ offset.toNat + bytes.length ≤ 2 ^ 32 then
      (f.file.write offset.toNat bytes).map fun file => ((), { f with file := file })
    else none
  | .growFile pages, f =>
    if f.pageSize ∣ f.file.size ∧ f.file.size < 2 ^ 32 ∧ pages.toNat * f.pageSize < 2 ^ 32 then
      some ((), { f with file := f.file.grow (pages.toNat * f.pageSize) uninitializedByte })
    else none
  | .setPageSize pageSize, f =>
    if 0 < pageSize.toNat ∧ pageSize.toNat ≤ cacheInMegabytes * 1024 * 1024 then
      some ((), { f with pageSize := pageSize.toNat })
    else none
  | .getPageSize, f => some (UInt32.ofNat f.pageSize, f)
  | .getFileSize, f => some (UInt32.ofNat f.file.size, f)

/-- The cache serves every call as the file does. -/
theorem behind_follows (memory : Memory) : Calling.Follows Behind flatServer (pagedServer memory) := by
  intro c f s r f' h hf
  cases c with
  | read offset size =>
    obtain ⟨hdword, hf⟩ := Option.ite_none_right_eq_some.mp hf
    obtain ⟨bytes, hread, heq⟩ := Option.map_eq_some_iff.mp hf
    obtain ⟨rfl, rfl⟩ := Prod.mk.inj heq
    have hin := (File.read_eq_some.mp hread).1
    obtain ⟨bytes', s', hs, hbytes, hsound, hsame⟩ := h.sound.read memory (by rw [← h.file.size]; exact hin) hdword
    obtain rfl : bytes = bytes' := Option.some.inj (hread.symm.trans ((h.file.read _ _).trans hbytes))
    exact ⟨s', hs, hsound, hsame.file ▸ h.file, hsame.pageSize.trans h.pageSize, hsame.reads.trans h.reads⟩
  | write offset bytes =>
    obtain ⟨⟨hpages, hdword⟩, hf⟩ := Option.ite_none_right_eq_some.mp hf
    obtain ⟨file, hwrite, heq⟩ := Option.map_eq_some_iff.mp hf
    obtain ⟨-, rfl⟩ := Prod.mk.inj heq
    have hin : offset.toNat + bytes.length ≤ f.file.size := by
      by_contra hout
      simp [File.write, hout] at hwrite
    obtain ⟨s', file', hs, hfile, hsame, hsound, hpageSize, hreads⟩ := h.sound.write memory
      (by rw [h.pageSize, ← h.file.size]; exact hpages) (by rw [← h.file.size]; exact hin) hdword
    obtain ⟨file'', hfile'', hsame'⟩ := h.file.symm.write hfile
    obtain rfl : file = file'' := Option.some.inj (hwrite.symm.trans hfile'')
    exact ⟨s', Option.map_eq_some_iff.mpr ⟨s', hs, rfl⟩, hsound, hsame'.symm.trans hsame, hpageSize.trans h.pageSize,
      hreads.trans h.reads⟩
  | growFile pages =>
    obtain ⟨⟨hpages, hsize, hgrow⟩, hf⟩ := Option.ite_none_right_eq_some.mp hf
    obtain ⟨-, rfl⟩ := Prod.mk.inj (Option.some.inj hf)
    obtain ⟨hsame, hsound⟩ := h.sound.growFile pages.toNat (by rw [h.pageSize, ← h.file.size]; exact hpages)
      (by rw [← h.file.size]; exact hsize) (by rw [h.pageSize]; exact hgrow)
    rw [h.pageSize] at hsame
    exact ⟨_, rfl, hsound, (h.file.grow _ _).trans hsame, h.pageSize, h.reads⟩
  | setPageSize pageSize =>
    obtain ⟨⟨hpos, hle⟩, hf⟩ := Option.ite_none_right_eq_some.mp hf
    obtain ⟨-, rfl⟩ := Prod.mk.inj (Option.some.inj hf)
    exact ⟨_, rfl, PagedFile.sound_setPageSize s hpos hle, h.file, rfl, h.reads⟩
  | getPageSize =>
    obtain ⟨rfl, rfl⟩ := Prod.mk.inj (Option.some.inj hf)
    exact ⟨s, by rw [← h.pageSize]; rfl, h⟩
  | getFileSize =>
    obtain ⟨rfl, rfl⟩ := Prod.mk.inj (Option.some.inj hf)
    refine ⟨s, ?_, h⟩
    have hsize : UInt32.ofNat s.getFileSize = UInt32.ofNat f.file.size := by
      rw [h.file.size, PagedFile.getFileSize, dword]
      exact UInt32.toNat_inj.mp (by simp)
    exact congrArg (fun n => some (n, s)) hsize

/-! ## The programs -/

namespace OnPages

/-- A function of the database calls its file. -/
abbrev FileM := Calling FileCall.Answer

open Calling (ofOption stuck)

namespace Paged

def read (offset size : UInt32) : FileM Bytes := Calling.ask (FileCall.read offset size)

def write (offset : UInt32) (bytes : Bytes) : FileM Unit := Calling.ask (FileCall.write offset bytes)

def growFile (pages : UInt32) : FileM Unit := Calling.ask (FileCall.growFile pages)

def setPageSize (pageSize : UInt32) : FileM Unit := Calling.ask (FileCall.setPageSize pageSize)

def getPageSize : FileM UInt32 := Calling.ask FileCall.getPageSize

def getFileSize : FileM UInt32 := Calling.ask FileCall.getFileSize

end Paged

/-- `LDB_BLOCK_HEADER_INFO` -/
structure BlockHeaderInfo where
  blockHeader : BlockHeader
  offset : UInt32
  deriving DecidableEq, Repr

/-- `TABLE_INFO` -/
structure TableInfo where
  name : Bytes
  lastBlockHeaderInfo : BlockHeaderInfo
  records : List LogRecord
  deriving DecidableEq, Repr

/-- The numbers of `Ldb` that its file does not have. -/
structure Place where
  nextDataOffset : UInt32
  growPagesStep : UInt32
  lastRecordID : UInt32
  deriving DecidableEq, Repr

structure Ldb where
  place : Place
  metatable : TableInfo
  tables : StringMap TableInfo

namespace Place

/-- `LeaveRoom` -/
def leaveRoom (p : Place) (size : UInt32) : FileM Unit := do
  let pageSize ← Paged.getPageSize
  let pages := size / pageSize + 1
  Paged.growFile (if pages < p.growPagesStep then p.growPagesStep else pages)

/-- `EnsureSpace`. The difference is one of `DWORD`s. -/
def ensureSpace (p : Place) (size : UInt32) : FileM Unit := do
  let fileSize ← Paged.getFileSize
  let space := fileSize - p.nextDataOffset
  if space < size then p.leaveRoom (size - space) else pure ()

/-- `WriteLdbData`: a field that is not given is zero. -/
def writeLdbData (p : Place) : Option Bytes → FileM (Place × Field)
  | none => pure (p, .zero)
  | some data => do
    let size := UInt32.ofNat data.length
    p.ensureSpace size
    Paged.write p.nextDataOffset data
    pure ({ p with nextDataOffset := p.nextDataOffset + size }, ⟨p.nextDataOffset, size, doHash data⟩)

/-- `CreateNewBlockIfNeeded`: the block with its link, and the new one if the block is full. -/
def createNewBlockIfNeeded (p : Place) (current : BlockHeaderInfo) :
    FileM (Place × BlockHeaderInfo × Option BlockHeaderInfo) :=
  if !checkNeedForNewBlock current.blockHeader then pure (p, current, none)
  else do
    p.ensureSpace current.blockHeader.size
    let newBlock : BlockHeader := ⟨current.blockHeader.size, 0, 0⟩
    Paged.write p.nextDataOffset newBlock.encode
    pure ({ p with nextDataOffset := p.nextDataOffset + newBlock.size },
      { current with blockHeader := { current.blockHeader with nextBlockOffset := p.nextDataOffset } },
      some ⟨newBlock, p.nextDataOffset⟩)

end Place

/-- The end of `AppendLogRecord`: the record, the block that it is in, and the one before that. -/
def writeLogRecord (blockHeaderInfo : BlockHeaderInfo) (newBlockHeaderInfo : Option BlockHeaderInfo)
    (logRecord : LogRecord) : FileM BlockHeaderInfo := do
  let current := newBlockHeaderInfo.getD blockHeaderInfo
  let logRecordOffset := current.offset + 12 + 48 * current.blockHeader.usedCount
  let current : BlockHeaderInfo :=
    { current with blockHeader := { current.blockHeader with usedCount := current.blockHeader.usedCount + 1 } }
  Paged.write logRecordOffset logRecord.encode
  Paged.write current.offset current.blockHeader.encode
  if newBlockHeaderInfo.isSome then
    Paged.write blockHeaderInfo.offset blockHeaderInfo.blockHeader.encode
  pure current

/-- `AppendLogRecord` -/
def Place.appendLogRecord (p : Place) (tableInfo : TableInfo) (operation : Operation) (recordIndex : UInt32)
    (key value metadata : Option Bytes) : FileM (Place × TableInfo) := do
  let recordID := p.lastRecordID + 1
  let (p, blockHeaderInfo, newBlockHeaderInfo) ←
    { p with lastRecordID := recordID }.createNewBlockIfNeeded tableInfo.lastBlockHeaderInfo
  let (p, keyField) ← p.writeLdbData key
  let (p, valueField) ← p.writeLdbData value
  let (p, metadataField) ← p.writeLdbData metadata
  let logRecord ← ofOption (setFields operation recordIndex key value metadata tableInfo.records
    ⟨operation.code, recordIndex, recordID, keyField, valueField, metadataField⟩)
  let lastBlockHeaderInfo ← writeLogRecord blockHeaderInfo newBlockHeaderInfo logRecord
  pure (p,
    { tableInfo with
      lastBlockHeaderInfo := lastBlockHeaderInfo
      records := applyOperation operation recordIndex.toNat logRecord tableInfo.records })

/-- `ReadField` -/
def readField (field : Field) : FileM Bytes := Paged.read field.dataOffset field.dataSize

def getField (field : Field) : FileM Bytes := if field.dataSize = 0 then pure [] else readField field

/-- The three fields of a record. -/
def getRecord (r : LogRecord) : FileM (Bytes × Bytes × Bytes) := do
  let key ← getField r.key
  let value ← getField r.value
  let metadata ← getField r.metadata
  pure (key, value, metadata)

/-- The loop of `FindKey`, which reads only the keys with the same size and hash. -/
def findKeyFrom (key : Bytes) (index : Nat) : List LogRecord → FileM (Option UInt32)
  | [] => pure none
  | r :: rest =>
    if r.key.dataSize ≠ UInt32.ofNat key.length ∨ r.key.hash ≠ doHash key then findKeyFrom key (index + 1) rest
    else do
      let keyFromDb ← getField r.key
      if keyFromDb = key then pure (some (UInt32.ofNat index)) else findKeyFrom key (index + 1) rest

/-- `FindKey` -/
def findKey (tableInfo : TableInfo) (startIndex : UInt32) (key : Bytes) : FileM (Option UInt32) :=
  if startIndex.toNat < tableInfo.records.length then
    findKeyFrom key startIndex.toNat (tableInfo.records.drop startIndex.toNat)
  else pure none

/-- `GetByIndex` for the value and the metadata, into outputs that are empty. -/
def getByIndex (tableInfo : TableInfo) (index : UInt32) : FileM (Option (Bytes × Bytes)) :=
  if tableInfo.records.length < (index + 1).toNat then pure none
  else do
    let r ← ofOption tableInfo.records[index.toNat]?
    let value ← getField r.value
    let metadata ← getField r.metadata
    pure (some (value, metadata))

/-- `Get` -/
def get (tableInfo : TableInfo) (startIndex : UInt32) (key : Bytes) : FileM (Option (Bytes × Bytes)) := do
  match ← findKey tableInfo startIndex key with
  | none => pure none
  | some index => getByIndex tableInfo index

/-- What an operation on a table leaves, and the index that it gives. -/
abbrev Outcome := Place × TableInfo × Option UInt32

namespace Place

variable (p : Place) (tableInfo : TableInfo)

/-- `Append` -/
def append (key value metadata : Option Bytes) : FileM Outcome := do
  let index := UInt32.ofNat tableInfo.records.length
  let (p, tableInfo) ← p.appendLogRecord tableInfo .append index key value metadata
  pure (p, tableInfo, some index)

/-- `ClearAllRecords` -/
def clearAllRecords : FileM Outcome := do
  let (p, tableInfo) ← p.appendLogRecord tableInfo .clear 0 none none none
  pure (p, tableInfo, none)

/-- `SetByIndex` -/
def setByIndex (index : UInt32) (key value metadata : Option Bytes) : FileM Outcome :=
  if index.toNat < tableInfo.records.length then do
    let (p, tableInfo) ← p.appendLogRecord tableInfo .set index key value metadata
    pure (p, tableInfo, some index)
  else pure (p, tableInfo, none)

/-- `Set` -/
def set (startIndex : UInt32) (key : Bytes) (value metadata : Option Bytes) : FileM Outcome := do
  match ← findKey tableInfo startIndex key with
  | none => p.append tableInfo (some key) value metadata
  | some index => p.setByIndex tableInfo index (some key) value metadata

/-- `DeleteByIndex` -/
def deleteByIndex (index : UInt32) : FileM Outcome :=
  if index.toNat < tableInfo.records.length then do
    let (p, tableInfo) ← p.appendLogRecord tableInfo .delete index none none none
    pure (p, tableInfo, some index)
  else pure (p, tableInfo, none)

/-- `Delete` -/
def delete (startIndex : UInt32) (key : Bytes) : FileM Outcome := do
  match ← findKey tableInfo startIndex key with
  | none => pure (p, tableInfo, none)
  | some index => p.deleteByIndex tableInfo index

/-- `InsertByIndex` -/
def insertByIndex (index : UInt32) (key value metadata : Option Bytes) : FileM Outcome :=
  if index ≠ 0 ∧ ¬ index.toNat < tableInfo.records.length then pure (p, tableInfo, none)
  else do
    let (p, tableInfo) ← p.appendLogRecord tableInfo .insert index key value metadata
    pure (p, tableInfo, some index)

end Place

namespace Ldb

/-- An operation on a table that is open. -/
def onTable (s : Ldb) (name : Bytes) (op : Place → TableInfo → FileM Outcome) : FileM Ldb := do
  let tableInfo ← ofOption s.tables[name]?
  let (place, tableInfo, _) ← op s.place tableInfo
  pure { s with place := place, tables := s.tables.insert name tableInfo }

/-- `CreateTable` -/
def createTable (s : Ldb) (name : Bytes) : FileM Ldb :=
  if s.tables.contains name then pure s
  else do
    let blockHeader : BlockHeader := ⟨defaultBlockSize, 0, 0⟩
    let buffer := blockHeader.encode ++ List.replicate (defaultBlockSize.toNat - blockHeaderSize) uninitializedByte
    let (place, metatable, index) ← s.place.append s.metatable (some name) (some buffer) none
    let record ← ofOption (index.bind fun index => metatable.records[index.toNat]?)
    pure
      { place := place
        metatable := metatable
        tables := s.tables.insert name ⟨name, ⟨blockHeader, record.value.dataOffset⟩, []⟩ }

/-- `DeleteTable` -/
def deleteTable (s : Ldb) (name : Bytes) : FileM Ldb := do
  let tableInfo ← ofOption s.tables[name]?
  match ← findKey s.metatable 0 tableInfo.name with
  | none => pure s
  | some index => do
    let (place, metatable, _) ← s.place.deleteByIndex s.metatable index
    pure { place := place, metatable := metatable, tables := s.tables.erase tableInfo.name }

/-- `InitializeFile` -/
def initializeFile (growPagesStep : UInt32) : FileM Ldb := do
  let header : FileHeader := ⟨ldbMagic, 1, 0, 16⟩
  let blockHeader : BlockHeader := ⟨defaultBlockSize, 0, 0⟩
  let offset := header.tableBlockOffset
  let place : Place := ⟨offset + blockHeader.size, growPagesStep, 0⟩
  let pageSize ← Paged.getPageSize
  place.leaveRoom (place.nextDataOffset + pageSize)
  Paged.write offset blockHeader.encode
  Paged.write 0 header.encode
  pure ⟨place, ⟨[], ⟨blockHeader, offset⟩, []⟩, ∅⟩

end Ldb

/-! ## Loading -/

/-- The end of the last of the three fields, added as `DWORD`s. -/
def lastFieldEnd (r : LogRecord) : UInt32 :=
  if r.value.dataOffset < r.key.dataOffset then
    if r.metadata.dataOffset < r.key.dataOffset then r.key.dataOffset + r.key.dataSize
    else r.metadata.dataOffset + r.metadata.dataSize
  else
    if r.metadata.dataOffset < r.value.dataOffset then r.value.dataOffset + r.value.dataSize
    else r.metadata.dataOffset + r.metadata.dataSize

/-- The structs in a buffer. -/
def decodeRecords : Nat → Bytes → Option (List LogRecord)
  | 0, _ => some []
  | n + 1, buffer => do
    let r ← LogRecord.decode (buffer.take logRecordSize)
    let rest ← decodeRecords n (buffer.drop logRecordSize)
    some (r :: rest)

/-- The records of a block, in one read. -/
def loadLogRecords (blockHeaderInfo : BlockHeaderInfo) : FileM (List LogRecord) := do
  let usedCount := blockHeaderInfo.blockHeader.usedCount
  if usedCount = 0 then pure []
  else do
    let buffer ← Paged.read (blockHeaderInfo.offset + 12) (usedCount * 48)
    ofOption (decodeRecords usedCount.toNat buffer)

def Place.past (p : Place) (offset : UInt32) : Place :=
  if p.nextDataOffset < offset then { p with nextDataOffset := offset } else p

def Place.loadRecord (p : Place) (r : LogRecord) : Place :=
  { p with lastRecordID := if p.lastRecordID < r.recordID then r.recordID else p.lastRecordID }.past (lastFieldEnd r)

/-- `LoadBlock` -/
def loadBlock (p : Place) (tableInfo : TableInfo) : FileM (Place × TableInfo) := do
  let offset := tableInfo.lastBlockHeaderInfo.offset
  let buffer ← Paged.read offset 12
  let blockHeader ← ofOption (BlockHeader.decode buffer)
  let logRecords ← loadLogRecords ⟨blockHeader, offset⟩
  pure (logRecords.foldl Place.loadRecord (p.past (offset + blockHeader.size)),
    { tableInfo with
      lastBlockHeaderInfo := ⟨blockHeader, offset⟩
      records := logRecords.foldl Logdb.loadRecord tableInfo.records })

/-- `LoadAllBlocks`, for as many blocks at most. -/
def loadAllBlocks : Nat → UInt32 → Place → TableInfo → FileM (Place × TableInfo)
  | 0, nextTableOffset, p, tableInfo => if nextTableOffset = 0 then pure (p, tableInfo) else stuck
  | fuel + 1, nextTableOffset, p, tableInfo =>
    if nextTableOffset = 0 then pure (p, tableInfo)
    else do
      let (p, tableInfo) ← loadBlock p { tableInfo with
        lastBlockHeaderInfo := { tableInfo.lastBlockHeaderInfo with offset := nextTableOffset } }
      loadAllBlocks fuel tableInfo.lastBlockHeaderInfo.blockHeader.nextBlockOffset p tableInfo

def unloaded (name : Bytes) : TableInfo := ⟨name, ⟨⟨0, 0, 0⟩, 0⟩, []⟩

/-- The loop of `LoadTables`. -/
def loadTables (fuel : Nat) : List LogRecord → Place → StringMap TableInfo → FileM (Place × StringMap TableInfo)
  | [], p, tables => pure (p, tables)
  | record :: rest, p, tables => do
    let name ← readField record.key
    let (p, tableInfo) ← loadAllBlocks fuel record.value.dataOffset p (unloaded name)
    loadTables fuel rest p (tables.insert name tableInfo)

/-- `LoadFile`, with pages of 4 MB for the load. -/
def loadFile (growPagesStep : UInt32) : FileM Ldb := do
  let fileSize ← Paged.getFileSize
  let buffer ← Paged.read 0 16
  let header ← ofOption (FileHeader.decode buffer)
  if header.magic ≠ ldbMagic then stuck
  else do
    let currentPageSize ← Paged.getPageSize
    Paged.setPageSize 4194304
    let (place, metatable) ←
      loadAllBlocks fileSize.toNat header.tableBlockOffset ⟨0, growPagesStep, 0⟩ (unloaded [])
    let (place, tables) ← loadTables fileSize.toNat metatable.records place ∅
    Paged.setPageSize currentPageSize
    pure ⟨place, metatable, tables⟩

namespace Ldb

def apply (s : Ldb) : Command → FileM Ldb
  | .createTable name => s.createTable name
  | .deleteTable name => s.deleteTable name
  | .append name key value metadata => s.onTable name fun p t => p.append t key value metadata
  | .set name startIndex key value metadata => s.onTable name fun p t => p.set t startIndex key value metadata
  | .setByIndex name index key value metadata => s.onTable name fun p t => p.setByIndex t index key value metadata
  | .insertByIndex name index key value metadata =>
    s.onTable name fun p t => p.insertByIndex t index key value metadata
  | .delete name startIndex key => s.onTable name fun p t => p.delete t startIndex key
  | .deleteByIndex name index => s.onTable name fun p t => p.deleteByIndex t index
  | .clearAllRecords name => s.onTable name fun p t => p.clearAllRecords t

/-- The database and its cache. A file that is opened has nothing in its cache. -/
def step (memory : Memory) (s : Ldb × PagedFile) : Action → Option (Ldb × PagedFile)
  | .command c => (s.1.apply c).run (pagedServer memory) s.2
  | .reload growPagesStep => (loadFile (UInt32.ofNat growPagesStep)).run (pagedServer memory) { file := s.2.file }

end Ldb

end OnPages

end Tiodb.Logdb
