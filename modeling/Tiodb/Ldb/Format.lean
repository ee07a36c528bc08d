import Tiodb.Data
import Tiodb.Lib.LittleEndian

/-!
# The log file's structures

The structs of `logdb.h` as they lie on the file: rows of `DWORD`s. A log record says what
is done to one row of a table, and where the bytes of its three fields are.
-/

namespace Tiodb.Logdb

open Lib

/-- `LDB_FILE_HEADER`, at the start of the file. -/
structure FileHeader where
  magic : UInt32
  version : UInt32
  flags : UInt32
  tableBlockOffset : UInt32
  deriving DecidableEq, Repr

/-- `LDB_BLOCK_HEADER`: how many records there is room for, how many are used, and where the next block is. -/
structure BlockHeader where
  size : UInt32
  usedCount : UInt32
  nextBlockOffset : UInt32
  deriving DecidableEq, Repr

/-- `LDB_LOG_RECORD_FIELD`: where the bytes of a field are on the file. -/
structure Field where
  dataOffset : UInt32
  dataSize : UInt32
  hash : UInt32
  deriving DecidableEq, Repr

/-- `LDB_LOG_RECORD` -/
structure LogRecord where
  operation : UInt32
  recordIndex : UInt32
  recordID : UInt32
  key : Field
  value : Field
  metadata : Field
  deriving DecidableEq, Repr

/-- The `OPERATION_` of a log record. -/
inductive Operation where
  | append
  | insert
  | set
  | delete
  | clear
  deriving DecidableEq, Repr

/-- `LDB_MAGIC` -/
def ldbMagic : UInt32 := 0x00BABACA

/-- `sizeof(LDB_FILE_HEADER)`. The structs are of `DWORD`s, so none is padded. -/
def fileHeaderSize : Nat := 16
def blockHeaderSize : Nat := 12
def logRecordSize : Nat := 48

/-- The number that stands for the operation on the file. -/
def Operation.code : Operation → UInt32
  | append => 1
  | insert => 2
  | set => 3
  | delete => 4
  | clear => 5

/-- Any other number is no operation. -/
def Operation.ofCode (code : UInt32) : Option Operation :=
  [append, insert, set, delete, clear].find? (·.code = code)

@[simp] theorem Operation.ofCode_code (o : Operation) : Operation.ofCode o.code = some o := by
  cases o <;> rfl

/-! ## Rows of words -/

/-- A row of `DWORD`s, the least significant byte of each first. -/
def words (ws : List UInt32) : Bytes := ws.flatMap fun w => toLE 4 w.toNat

/-- The `DWORD`s of some bytes. What is less than one at the end is left out. -/
def unwords : Bytes → List UInt32
  | b0 :: b1 :: b2 :: b3 :: rest => UInt32.ofNat (ofLE [b0, b1, b2, b3]) :: unwords rest
  | _ => []

@[simp] theorem length_words (ws : List UInt32) : (words ws).length = 4 * ws.length := by
  induction ws with
  | nil => rfl
  | cons w ws ih =>
    rw [words, List.flatMap_cons, List.length_append, length_toLE, ← words, ih, List.length_cons]
    omega

theorem unwords_words (ws : List UInt32) : unwords (words ws) = ws := by
  induction ws with
  | nil => rfl
  | cons w ws ih =>
    have hw : ofLE (toLE 4 w.toNat) = w.toNat := ofLE_toLE w.toNat_lt
    rw [words, List.flatMap_cons, ← words]
    simp only [toLE] at hw ⊢
    rw [List.cons_append, List.cons_append, List.cons_append, List.cons_append, List.nil_append, unwords, ih, hw,
      UInt32.ofNat_toNat]

/-! ## Encoding -/

def FileHeader.encode (h : FileHeader) : Bytes := words [h.magic, h.version, h.flags, h.tableBlockOffset]

/-- The bytes of a header, and no others. -/
def FileHeader.decode (b : Bytes) : Option FileHeader :=
  match unwords b with
  | [magic, version, flags, tableBlockOffset] => some ⟨magic, version, flags, tableBlockOffset⟩
  | _ => none

def BlockHeader.encode (h : BlockHeader) : Bytes := words [h.size, h.usedCount, h.nextBlockOffset]

def BlockHeader.decode (b : Bytes) : Option BlockHeader :=
  match unwords b with
  | [size, usedCount, nextBlockOffset] => some ⟨size, usedCount, nextBlockOffset⟩
  | _ => none

def Field.toWords (f : Field) : List UInt32 := [f.dataOffset, f.dataSize, f.hash]

def LogRecord.encode (r : LogRecord) : Bytes :=
  words ([r.operation, r.recordIndex, r.recordID] ++ r.key.toWords ++ r.value.toWords ++ r.metadata.toWords)

def LogRecord.decode (b : Bytes) : Option LogRecord :=
  match unwords b with
  | [operation, recordIndex, recordID, ko, ks, kh, vo, vs, vh, mo, ms, mh] =>
    some ⟨operation, recordIndex, recordID, ⟨ko, ks, kh⟩, ⟨vo, vs, vh⟩, ⟨mo, ms, mh⟩⟩
  | _ => none

@[simp] theorem FileHeader.length_encode (h : FileHeader) : h.encode.length = fileHeaderSize := by
  simp [FileHeader.encode, fileHeaderSize]

@[simp] theorem BlockHeader.length_encode (h : BlockHeader) : h.encode.length = blockHeaderSize := by
  simp [BlockHeader.encode, blockHeaderSize]

@[simp] theorem LogRecord.length_encode (r : LogRecord) : r.encode.length = logRecordSize := by
  simp [LogRecord.encode, Field.toWords, logRecordSize]

@[simp] theorem FileHeader.decode_encode (h : FileHeader) : FileHeader.decode h.encode = some h := by
  simp [FileHeader.decode, FileHeader.encode, unwords_words]

@[simp] theorem BlockHeader.decode_encode (h : BlockHeader) : BlockHeader.decode h.encode = some h := by
  simp [BlockHeader.decode, BlockHeader.encode, unwords_words]

@[simp] theorem LogRecord.decode_encode (r : LogRecord) : LogRecord.decode r.encode = some r := by
  simp [LogRecord.decode, LogRecord.encode, Field.toWords, unwords_words]

/-! ## Fields -/

/-- Which of the three fields of a record. -/
inductive Part where
  | key
  | value
  | metadata
  deriving DecidableEq, Repr

def LogRecord.part (r : LogRecord) : Part → Field
  | .key => r.key
  | .value => r.value
  | .metadata => r.metadata

/-- What `zero(logRecord)` leaves. -/
def Field.zero : Field := ⟨0, 0, 0⟩

/-- Where the bytes of the field begin. -/
def Field.start (f : Field) : Nat := f.dataOffset.toNat

/-- Where they end, without the wrap of a `DWORD`. -/
def Field.stop (f : Field) : Nat := f.dataOffset.toNat + f.dataSize.toNat

end Tiodb.Logdb
