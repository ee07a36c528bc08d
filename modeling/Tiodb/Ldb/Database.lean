import Tiodb.Ldb.Format
import Tiodb.Lib.File
import Tiodb.Lib.Machine

/-!
# The log database

`PagedFile` and `Ldb` of `logdb.h`. The page cache writes through, so a `PagedFile` is its
file. Offsets and sizes of the file are numbers: `DWORD`s wrap only when the file has
outgrown 2^32 bytes. `none` is an access outside the file, a load that does not end, or a
call on a table that is not there. The asserts are compiled out, and the counts
`_totalRecordCount` and `_totalLogRecordCount`, which nothing reads, are left out.
-/

namespace Tiodb.Logdb

open Lib

def pageSize : Nat := 4096
def defaultBlockSize : UInt32 := 4096
def uninitializedByte : UInt8 := 0xEE

structure BlockHeaderInfo where
  blockHeader : BlockHeader
  offset : Nat
  deriving DecidableEq, Repr

/-- A block of a table with the log records that are in use. -/
structure Block where
  offset : Nat
  records : List LogRecord
  deriving DecidableEq, Repr

/-- `blocks` is history: the table's blocks in the order of the chain. -/
structure TableInfo where
  name : Bytes
  lastBlockHeaderInfo : BlockHeaderInfo
  records : List LogRecord
  blocks : List Block
  deriving DecidableEq, Repr

/-- The file, and where on it the next data goes. `calls` is history: the calls of `Write` and `GrowFile`. -/
structure Space where
  file : File
  nextDataOffset : Nat
  growPagesStep : Nat
  lastRecordID : UInt32
  calls : List Change

structure Ldb where
  space : Space
  metatable : TableInfo
  tables : StringMap TableInfo

def doHash (b : Bytes) : UInt32 := b.foldl (fun hash c => hash ^^^ c.toUInt32) 2

/-! ## Writing -/

namespace Space

def write (s : Space) (offset : Nat) (bytes : Bytes) : Option Space :=
  (s.file.write offset bytes).map fun file =>
    { s with file := file, calls := s.calls ++ [.write offset bytes] }

def growFile (s : Space) (pages : Nat) : Space :=
  { s with
    file := s.file.grow (pages * pageSize) uninitializedByte
    calls := s.calls ++ [.grow (pages * pageSize) uninitializedByte] }

def leaveRoom (s : Space) (size : Nat) : Space :=
  let pages := size / pageSize + 1
  s.growFile (if pages < s.growPagesStep then s.growPagesStep else pages)

def ensureSpace (s : Space) (size : Nat) : Space :=
  let space := s.file.size - s.nextDataOffset
  if space < size then s.leaveRoom (size - space) else s

/-- `NULL` is `none`, and leaves the field zero. -/
def writeLdbData (s : Space) : Option Bytes → Option (Space × Field)
  | none => some (s, .zero)
  | some data =>
    ((s.ensureSpace data.length).write s.nextDataOffset data).map fun s' =>
      ({ s' with nextDataOffset := s.nextDataOffset + data.length },
        ⟨UInt32.ofNat s.nextDataOffset, UInt32.ofNat data.length, doHash data⟩)

end Space

/-- The offset of the next record is counted from the size of the file header, not of the block header. -/
def checkNeedForNewBlock (currentBlock : BlockHeader) : Bool :=
  let nextRecordOffset : UInt32 := 16 + currentBlock.usedCount * 48
  let spaceLeftInThisBlock := currentBlock.size - nextRecordOffset
  spaceLeftInThisBlock < 48

/-- The current block, which may be linked to a new one now, and the new one. -/
def Space.createNewBlockIfNeeded (s : Space) (current : BlockHeaderInfo) :
    Option (Space × BlockHeaderInfo × Option BlockHeaderInfo) :=
  if !checkNeedForNewBlock current.blockHeader then some (s, current, none)
  else
    let newBlock : BlockHeader := ⟨current.blockHeader.size, 0, 0⟩
    ((s.ensureSpace current.blockHeader.size.toNat).write s.nextDataOffset newBlock.encode).map fun s' =>
      ({ s' with nextDataOffset := s.nextDataOffset + newBlock.size.toNat },
        { current with
          blockHeader := { current.blockHeader with nextBlockOffset := UInt32.ofNat s.nextDataOffset } },
        some ⟨newBlock, s.nextDataOffset⟩)

/-- What `AppendLogRecord` does to the vector of records. -/
def applyOperation (operation : Operation) (recordIndex : Nat) (logRecord : LogRecord)
    (records : List LogRecord) : List LogRecord :=
  match operation with
  | .append => records ++ [logRecord]
  | .set => records.set recordIndex logRecord
  | .insert =>
    if recordIndex = records.length then records ++ [logRecord] else records.insertIdx recordIndex logRecord
  | .delete => records.eraseIdx recordIndex
  | .clear => []

/-- The caller of a set keeps a field by passing `NULL`. -/
def keep (data : Option Bytes) (written old : Field) : Field :=
  match data with
  | none => old
  | some _ => written

def keepFields (key value metadata : Option Bytes) (written old : LogRecord) : LogRecord :=
  { written with
    key := keep key written.key old.key
    value := keep value written.value old.value
    metadata := keep metadata written.metadata old.metadata }

def addRecord (r : LogRecord) : List Block → List Block
  | [] => []
  | [b] => [{ b with records := b.records ++ [r] }]
  | b :: c :: bs => b :: addRecord r (c :: bs)

/-- The blocks with one more record, which may be in a new block. -/
def logTo (newBlockHeaderInfo : Option BlockHeaderInfo) (r : LogRecord) (blocks : List Block) : List Block :=
  match newBlockHeaderInfo with
  | none => addRecord r blocks
  | some new => blocks ++ [⟨new.offset, [r]⟩]

def setFields (operation : Operation) (recordIndex : UInt32) (key value metadata : Option Bytes)
    (records : List LogRecord) (written : LogRecord) : Option LogRecord :=
  if operation = .set then records[recordIndex.toNat]?.map (keepFields key value metadata written) else some written

/-- The writes that end `AppendLogRecord`, and the block that is the table's last one then. -/
def Space.writeLogRecord (s : Space) (blockHeaderInfo : BlockHeaderInfo)
    (newBlockHeaderInfo : Option BlockHeaderInfo) (logRecord : LogRecord) : Option (Space × BlockHeaderInfo) := do
  let current := newBlockHeaderInfo.getD blockHeaderInfo
  let logRecordOffset := current.offset + blockHeaderSize + logRecordSize * current.blockHeader.usedCount.toNat
  let current : BlockHeaderInfo :=
    { current with blockHeader := { current.blockHeader with usedCount := current.blockHeader.usedCount + 1 } }
  let s ← s.write logRecordOffset logRecord.encode
  let s ← s.write current.offset current.blockHeader.encode
  match newBlockHeaderInfo with
  | none => some (s, current)
  | some _ => (s.write blockHeaderInfo.offset blockHeaderInfo.blockHeader.encode).map fun s => (s, current)

def Space.appendLogRecord (s : Space) (tableInfo : TableInfo) (operation : Operation) (recordIndex : UInt32)
    (key value metadata : Option Bytes) : Option (Space × TableInfo) := do
  let recordID := s.lastRecordID + 1
  let (s, blockHeaderInfo, newBlockHeaderInfo) ←
    { s with lastRecordID := recordID }.createNewBlockIfNeeded tableInfo.lastBlockHeaderInfo
  let (s, keyField) ← s.writeLdbData key
  let (s, valueField) ← s.writeLdbData value
  let (s, metadataField) ← s.writeLdbData metadata
  let logRecord ← setFields operation recordIndex key value metadata tableInfo.records
    ⟨operation.code, recordIndex, recordID, keyField, valueField, metadataField⟩
  let (s, lastBlockHeaderInfo) ← s.writeLogRecord blockHeaderInfo newBlockHeaderInfo logRecord
  some (s,
    { tableInfo with
      lastBlockHeaderInfo := lastBlockHeaderInfo
      records := applyOperation operation recordIndex.toNat logRecord tableInfo.records
      blocks := logTo newBlockHeaderInfo logRecord tableInfo.blocks })

/-! ## Reading -/

def readField (f : File) (field : Field) : Option Bytes := f.read field.start field.dataSize.toNat

/-- `GetByIndex` on one field: one of no size is not read. -/
def getField (f : File) (field : Field) : Option Bytes :=
  if field.dataSize = 0 then some [] else readField f field

/-- `GetByIndex` for the key, the value and the metadata of a record. -/
def getRecord (f : File) (r : LogRecord) : Option (Bytes × Bytes × Bytes) := do
  let key ← getField f r.key
  let value ← getField f r.value
  let metadata ← getField f r.metadata
  some (key, value, metadata)

/-- The loop of `FindKey`; the inner `none` is `LDB_INVALID_RECNO`. -/
def findKeyFrom (f : File) (key : Bytes) (index : Nat) : List LogRecord → Option (Option UInt32)
  | [] => some none
  | r :: rest =>
    if r.key.dataSize.toNat ≠ key.length ∨ r.key.hash ≠ doHash key then findKeyFrom f key (index + 1) rest
    else
      (getField f r.key).bind fun keyFromDb =>
        if keyFromDb = key then some (some (UInt32.ofNat index)) else findKeyFrom f key (index + 1) rest

def findKey (f : File) (tableInfo : TableInfo) (startIndex : UInt32) (key : Bytes) : Option (Option UInt32) :=
  if startIndex.toNat < tableInfo.records.length then
    findKeyFrom f key startIndex.toNat (tableInfo.records.drop startIndex.toNat)
  else some none

/-! ## The operations on a table

Each gives the space and the table after it, and the index it returns: `none` is `LDB_INVALID_RECNO`. -/

abbrev Outcome := Space × TableInfo × Option UInt32

namespace Space

variable (s : Space) (tableInfo : TableInfo)

def append (key value metadata : Option Bytes) : Option Outcome :=
  let index := UInt32.ofNat tableInfo.records.length
  (s.appendLogRecord tableInfo .append index key value metadata).map fun r => (r.1, r.2, some index)

def clearAllRecords : Option Outcome :=
  (s.appendLogRecord tableInfo .clear 0 none none none).map fun r => (r.1, r.2, none)

def setByIndex (index : UInt32) (key value metadata : Option Bytes) : Option Outcome :=
  if index.toNat < tableInfo.records.length then
    (s.appendLogRecord tableInfo .set index key value metadata).map fun r => (r.1, r.2, some index)
  else some (s, tableInfo, none)

def set (startIndex : UInt32) (key : Bytes) (value metadata : Option Bytes) : Option Outcome :=
  (findKey s.file tableInfo startIndex key).bind fun
    | none => s.append tableInfo (some key) value metadata
    | some index => s.setByIndex tableInfo index (some key) value metadata

def deleteByIndex (index : UInt32) : Option Outcome :=
  if index.toNat < tableInfo.records.length then
    (s.appendLogRecord tableInfo .delete index none none none).map fun r => (r.1, r.2, some index)
  else some (s, tableInfo, none)

def delete (startIndex : UInt32) (key : Bytes) : Option Outcome :=
  (findKey s.file tableInfo startIndex key).bind fun
    | none => some (s, tableInfo, none)
    | some index => s.deleteByIndex tableInfo index

def insertByIndex (index : UInt32) (key value metadata : Option Bytes) : Option Outcome :=
  if index ≠ 0 ∧ ¬ index.toNat < tableInfo.records.length then some (s, tableInfo, none)
  else (s.appendLogRecord tableInfo .insert index key value metadata).map fun r => (r.1, r.2, some index)

end Space

/-! ## The database -/

namespace Ldb

/-- An operation on an open table. -/
def onTable (s : Ldb) (name : Bytes) (op : Space → TableInfo → Option Outcome) : Option Ldb :=
  s.tables[name]?.bind fun tableInfo =>
    (op s.space tableInfo).map fun r => { s with space := r.1, tables := s.tables.insert name r.2.1 }

/-- `CreateTable` fills the rest of its first block with uninitialized bytes. -/
def createTable (s : Ldb) (name : Bytes) : Option Ldb :=
  if s.tables.contains name then some s
  else
    let blockHeader : BlockHeader := ⟨defaultBlockSize, 0, 0⟩
    let buffer := blockHeader.encode ++ List.replicate (defaultBlockSize.toNat - blockHeaderSize) uninitializedByte
    (s.space.append s.metatable (some name) (some buffer) none).bind fun r =>
      (r.2.2.bind fun index => r.2.1.records[index.toNat]?).map fun record =>
        { space := r.1
          metatable := r.2.1
          tables := s.tables.insert name
            ⟨name, ⟨blockHeader, record.value.start⟩, [], [⟨record.value.start, []⟩]⟩ }

def deleteTable (s : Ldb) (name : Bytes) : Option Ldb :=
  s.tables[name]?.bind fun tableInfo =>
    (findKey s.space.file s.metatable 0 tableInfo.name).bind fun
      | none => some s
      | some index =>
        (s.space.deleteByIndex s.metatable index).map fun r =>
          { space := r.1, metatable := r.2.1, tables := s.tables.erase tableInfo.name }

/-- `InitializeFile`, on a file that was just created. -/
def create (growPagesStep : Nat) : Option Ldb := do
  let header : FileHeader := ⟨ldbMagic, 1, 0, 16⟩
  let blockHeader : BlockHeader := ⟨defaultBlockSize, 0, 0⟩
  let offset := header.tableBlockOffset.toNat
  let nextDataOffset := offset + blockHeader.size.toNat
  let s := Space.leaveRoom ⟨.empty, nextDataOffset, growPagesStep, 0, []⟩ (nextDataOffset + pageSize)
  let s ← s.write offset blockHeader.encode
  let s ← s.write 0 header.encode
  some ⟨s, ⟨[], ⟨blockHeader, offset⟩, [], [⟨offset, []⟩]⟩, ∅⟩

end Ldb

/-! ## Loading -/

/-- What `LoadBlock` does to the vector of records. An insert at the end pushes the record back, and then inserts
it before itself. -/
def loadRecord (records : List LogRecord) (r : LogRecord) : List LogRecord :=
  match Operation.ofCode r.operation with
  | some .append => records ++ [r]
  | some .set => if r.recordIndex.toNat < records.length then records.set r.recordIndex.toNat r else records
  | some .clear => []
  | some .insert =>
    let records := if r.recordIndex.toNat = records.length then records ++ [r] else records
    if r.recordIndex.toNat < records.length then records.insertIdx r.recordIndex.toNat r else records
  | some .delete => if r.recordIndex.toNat < records.length then records.eraseIdx r.recordIndex.toNat else records
  | none => records

/-- The end of the field that was written last: of the fields at the greatest offset, the last one. -/
def lastFieldEnd (r : LogRecord) : Nat :=
  if r.value.dataOffset < r.key.dataOffset then
    if r.metadata.dataOffset < r.key.dataOffset then r.key.stop else r.metadata.stop
  else
    if r.metadata.dataOffset < r.value.dataOffset then r.value.stop else r.metadata.stop

def loadLogRecords (f : File) (blockHeaderInfo : BlockHeaderInfo) : Option (List LogRecord) :=
  (List.range blockHeaderInfo.blockHeader.usedCount.toNat).mapM fun a =>
    (f.read (blockHeaderInfo.offset + blockHeaderSize + logRecordSize * a) logRecordSize).bind LogRecord.decode

def loadBlock (s : Space) (tableInfo : TableInfo) : Option (Space × TableInfo) := do
  let offset := tableInfo.lastBlockHeaderInfo.offset
  let blockHeader ← (s.file.read offset blockHeaderSize).bind BlockHeader.decode
  let logRecords ← loadLogRecords s.file ⟨blockHeader, offset⟩
  some (
    { s with
      nextDataOffset := logRecords.foldl (fun next r => max next (lastFieldEnd r))
        (max s.nextDataOffset (offset + blockHeader.size.toNat))
      lastRecordID := logRecords.foldl (fun last r => max last r.recordID) s.lastRecordID },
    { tableInfo with
      lastBlockHeaderInfo := ⟨blockHeader, offset⟩
      records := logRecords.foldl loadRecord tableInfo.records
      blocks := tableInfo.blocks ++ [⟨offset, logRecords⟩] })

/-- The loop of `LoadAllBlocks`, for at most so many blocks. -/
def loadAllBlocks : Nat → Nat → Space → TableInfo → Option (Space × TableInfo)
  | 0, nextTableOffset, s, tableInfo => if nextTableOffset = 0 then some (s, tableInfo) else none
  | fuel + 1, nextTableOffset, s, tableInfo =>
    if nextTableOffset = 0 then some (s, tableInfo)
    else
      (loadBlock s { tableInfo with
          lastBlockHeaderInfo := { tableInfo.lastBlockHeaderInfo with offset := nextTableOffset } }).bind fun r =>
        loadAllBlocks fuel r.2.lastBlockHeaderInfo.blockHeader.nextBlockOffset.toNat r.1 r.2

/-- A table before its blocks are loaded. -/
def unloaded (name : Bytes) : TableInfo := ⟨name, ⟨⟨0, 0, 0⟩, 0⟩, [], []⟩

/-- One turn of the loop of `LoadTables`. -/
def loadTable (fuel : Nat) (loaded : Space × StringMap TableInfo) (record : LogRecord) :
    Option (Space × StringMap TableInfo) :=
  (readField loaded.1.file record.key).bind fun name =>
    (loadAllBlocks fuel record.value.start loaded.1 (unloaded name)).map fun r => (r.1, loaded.2.insert name r.2)

/-- `LoadFile`. A chain that ends has no more blocks than the file has bytes. -/
def loadFile (file : File) (growPagesStep : Nat) : Option Ldb := do
  let header ← (file.read 0 fileHeaderSize).bind FileHeader.decode
  if header.magic ≠ ldbMagic then none
  else
    let s : Space := ⟨file, 0, growPagesStep, 0, []⟩
    let (s, metatable) ← loadAllBlocks file.size header.tableBlockOffset.toNat s (unloaded [])
    let (s, tables) ← metatable.records.foldlM (loadTable file.size) (s, ∅)
    some ⟨s, metatable, tables⟩

/-! ## Runs -/

inductive Command where
  | createTable (name : Bytes)
  | deleteTable (name : Bytes)
  | append (name : Bytes) (key value metadata : Option Bytes)
  | set (name : Bytes) (startIndex : UInt32) (key : Bytes) (value metadata : Option Bytes)
  | setByIndex (name : Bytes) (index : UInt32) (key value metadata : Option Bytes)
  | insertByIndex (name : Bytes) (index : UInt32) (key value metadata : Option Bytes)
  | delete (name : Bytes) (startIndex : UInt32) (key : Bytes)
  | deleteByIndex (name : Bytes) (index : UInt32)
  | clearAllRecords (name : Bytes)
  deriving DecidableEq, Repr

inductive Action where
  | command (c : Command)
  | reload (growPagesStep : Nat)
  deriving DecidableEq, Repr

namespace Ldb

def apply (s : Ldb) : Command → Option Ldb
  | .createTable name => s.createTable name
  | .deleteTable name => s.deleteTable name
  | .append name key value metadata => s.onTable name fun sp t => sp.append t key value metadata
  | .set name startIndex key value metadata => s.onTable name fun sp t => sp.set t startIndex key value metadata
  | .setByIndex name index key value metadata => s.onTable name fun sp t => sp.setByIndex t index key value metadata
  | .insertByIndex name index key value metadata =>
    s.onTable name fun sp t => sp.insertByIndex t index key value metadata
  | .delete name startIndex key => s.onTable name fun sp t => sp.delete t startIndex key
  | .deleteByIndex name index => s.onTable name fun sp t => sp.deleteByIndex t index
  | .clearAllRecords name => s.onTable name fun sp t => sp.clearAllRecords t

/-- A call on the open database, or the file closed and loaded again. -/
def step (s : Ldb) : Action → Option Ldb
  | .command c => s.apply c
  | .reload growPagesStep => loadFile s.space.file growPagesStep

instance : DecidableEq (List (Option (Bytes × Bytes × Bytes))) := inferInstance

instance : DecidableEq (Option (List (Option (Bytes × Bytes × Bytes)))) := inferInstance

/-- The tables, with the bytes of each of their records. -/
def contents (s : Ldb) (name : Bytes) : Option (List (Option (Bytes × Bytes × Bytes))) :=
  s.tables[name]?.map fun t => t.records.map (getRecord s.space.file)

end Ldb

end Tiodb.Logdb
