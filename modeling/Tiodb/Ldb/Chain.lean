import Tiodb.Ldb.Database
import Tiodb.Lib.Lists

/-!
# What an operation writes

All operations go through `AppendLogRecord`. Before its last call it writes only beyond
the data that is there, or into the unused rest of the table's last block; its last call,
which rewrites the header of that block, is what makes the record part of the log.
-/

namespace Tiodb.Logdb

open Lib

/-! ## Calls that stay away from some bytes -/

/-- `s'` is what `s` is after calls that write none of the bytes of `P`. -/
def Through (P : Nat → Prop) (s s' : Space) : Prop :=
  ∃ cs, s'.calls = s.calls ++ cs ∧ s.file.changes cs = some s'.file ∧ ∀ c ∈ cs, File.Avoids P c

namespace Through

variable {P Q : Nat → Prop} {s s' s'' : Space}

theorem of_eq (hfile : s'.file = s.file) (hcalls : s'.calls = s.calls) : Through P s s' :=
  ⟨[], by rw [hcalls, List.append_nil], by rw [hfile, File.changes_nil], by simp⟩

theorem trans (h : Through P s s') (h' : Through P s' s'') : Through P s s'' := by
  obtain ⟨cs, hcalls, hfile, hP⟩ := h
  obtain ⟨ds, hcalls', hfile', hP'⟩ := h'
  refine ⟨cs ++ ds, by rw [hcalls', hcalls, List.append_assoc], ?_, ?_⟩
  · rw [File.changes_append, hfile]
    exact hfile'
  · intro c hc
    exact (List.mem_append.mp hc).elim (hP c) (hP' c)

theorem mono (h : Through P s s') (hQ : ∀ i, Q i → P i) : Through Q s s' := by
  obtain ⟨cs, hcalls, hfile, hP⟩ := h
  exact ⟨cs, hcalls, hfile, fun c hc => (hP c hc).mono hQ⟩

theorem keeps (h : Through P s s') : s.file.Keeps P s'.file := by
  obtain ⟨cs, -, hfile, hP⟩ := h
  exact File.keeps_of_changes hfile hP

end Through

/-! ## The space -/

namespace Space

variable {P : Nat → Prop} {s s' : Space} {offset n : Nat} {bytes : Bytes}

theorem exists_write (h : offset + bytes.length ≤ s.file.size) : ∃ s', s.write offset bytes = some s' := by
  obtain ⟨f, hf, -⟩ := File.exists_write h
  exact ⟨_, by rw [write, hf]; rfl⟩

theorem write_eq_some (h : s.write offset bytes = some s') :
    s.file.write offset bytes = some s'.file ∧ s'.calls = s.calls ++ [.write offset bytes] ∧
      s'.nextDataOffset = s.nextDataOffset := by
  obtain ⟨f, hf, rfl⟩ := Option.map_eq_some_iff.mp h
  exact ⟨hf, rfl, rfl⟩

theorem through_of_write (h : s.write offset bytes = some s')
    (hP : ∀ i, offset ≤ i → i < offset + bytes.length → ¬ P i) : Through P s s' := by
  obtain ⟨hfile, hcalls, -⟩ := write_eq_some h
  refine ⟨[.write offset bytes], hcalls, ?_, ?_⟩
  · rw [File.changes_singleton]
    exact hfile
  · intro c hc
    obtain rfl := List.mem_singleton.mp hc
    exact hP

theorem size_of_write (h : s.write offset bytes = some s') : s'.file.size = s.file.size :=
  File.size_of_write (write_eq_some h).1

theorem read_write (h : s.write offset bytes = some s') : s'.file.read offset bytes.length = some bytes :=
  File.read_write (write_eq_some h).1

theorem through_growFile (P : Nat → Prop) (s : Space) (pages : Nat) : Through P s (s.growFile pages) := by
  refine ⟨[.grow (pages * pageSize) uninitializedByte], rfl, File.changes_singleton _, ?_⟩
  intro c hc
  obtain rfl := List.mem_singleton.mp hc
  trivial

theorem leaveRoom_size (s : Space) (n : Nat) : s.file.size + n ≤ (s.leaveRoom n).file.size := by
  have hpages : n ≤ (n / pageSize + 1) * pageSize := by
    have := Nat.lt_div_mul_add (a := n) (b := pageSize) (by decide)
    rw [Nat.add_mul]
    omega
  simp only [leaveRoom]
  split
  case isTrue h =>
    have hstep : (n / pageSize + 1) * pageSize ≤ s.growPagesStep * pageSize := Nat.mul_le_mul_right _ (by omega)
    exact Nat.add_le_add_left (hpages.trans hstep) _
  case isFalse => exact Nat.add_le_add_left hpages _

theorem ensureSpace_through (P : Nat → Prop) (s : Space) (n : Nat) : Through P s (s.ensureSpace n) := by
  simp only [ensureSpace]
  split
  · exact through_growFile P s _
  · exact .of_eq rfl rfl

theorem ensureSpace_size (h : s.nextDataOffset ≤ s.file.size) (n : Nat) :
    s.nextDataOffset + n ≤ (s.ensureSpace n).file.size := by
  simp only [ensureSpace]
  split
  case isTrue =>
    have := leaveRoom_size s (n - (s.file.size - s.nextDataOffset))
    omega
  case isFalse => omega

end Space

/-! ## Data -/

def dataSize (data : Option Bytes) : Nat := (data.getD []).length

/-- The field `WriteLdbData` fills in. -/
def fieldAt (offset : Nat) : Option Bytes → Field
  | none => .zero
  | some data => ⟨UInt32.ofNat offset, UInt32.ofNat data.length, doHash data⟩

def Holds (f : File) (offset : Nat) (data : Option Bytes) : Prop :=
  f.read offset (dataSize data) = some (data.getD [])

theorem Holds.of_keeps {P : Nat → Prop} {f f' : File} {offset : Nat} {data : Option Bytes} (h : Holds f offset data)
    (hk : f.Keeps P f') (hP : ∀ i, offset ≤ i → i < offset + dataSize data → P i) : Holds f' offset data :=
  File.read_of_keeps h hk hP

theorem Space.writeLdbData_spec {s : Space} (hnext : s.nextDataOffset ≤ s.file.size) (data : Option Bytes) :
    ∃ s', s.writeLdbData data = some (s', fieldAt s.nextDataOffset data) ∧
      Through (· < s.nextDataOffset) s s' ∧ s'.nextDataOffset = s.nextDataOffset + dataSize data ∧
      s'.nextDataOffset ≤ s'.file.size ∧ Holds s'.file s.nextDataOffset data := by
  cases data with
  | none =>
    refine ⟨s, rfl, .of_eq rfl rfl, rfl, hnext, ?_⟩
    exact File.read_eq_some.mpr ⟨hnext, rfl⟩
  | some data =>
    have hsize := Space.ensureSpace_size hnext data.length
    obtain ⟨s', hs'⟩ := Space.exists_write hsize
    have hkeep : Through (· < s.nextDataOffset) (s.ensureSpace data.length) s' :=
      Space.through_of_write hs' fun i hi _ => Nat.not_lt.mpr hi
    refine ⟨{ s' with nextDataOffset := s.nextDataOffset + data.length }, ?_, ?_, rfl, ?_, ?_⟩
    · simp only [writeLdbData, hs', Option.map_some, fieldAt]
    · exact ((Space.ensureSpace_through _ s _).trans hkeep).trans (.of_eq rfl rfl)
    · change s.nextDataOffset + data.length ≤ s'.file.size
      rw [Space.size_of_write hs']
      exact hsize
    · have hread := Space.read_write hs'
      exact hread

/-! ## Blocks on the file -/

namespace Block

def stop (b : Block) : Nat := b.offset + defaultBlockSize.toNat

/-- The end of the part of the block that is in use. -/
def used (b : Block) : Nat := b.offset + blockHeaderSize + logRecordSize * b.records.length

/-- `CheckNeedForNewBlock` lets a block have one record less than there is room for. -/
def capacity : Nat := 85

def headerInfo (b : Block) (link : Nat) : BlockHeaderInfo :=
  ⟨⟨defaultBlockSize, UInt32.ofNat b.records.length, UInt32.ofNat link⟩, b.offset⟩

def add (b : Block) (r : LogRecord) : Block := { b with records := b.records ++ [r] }

def RecordsAt (f : File) (b : Block) : Prop :=
  ∀ (i : Nat) r, b.records[i]? = some r →
    f.read (b.offset + blockHeaderSize + logRecordSize * i) logRecordSize = some r.encode

/-- The block is on the file, with `link` as the offset of the next one. -/
structure At (f : File) (link : Nat) (b : Block) : Prop where
  pos : 0 < b.offset
  inside : b.stop ≤ f.size
  room : b.records.length ≤ capacity
  header : f.read b.offset blockHeaderSize = some (b.headerInfo link).blockHeader.encode
  records : b.RecordsAt f

variable {f f' : File} {link : Nat} {b : Block} {P : Nat → Prop}

theorem used_le_stop (h : b.records.length ≤ capacity) : b.used ≤ b.stop := by
  have hsize : defaultBlockSize.toNat = 4096 := rfl
  simp only [used, stop, capacity, blockHeaderSize, logRecordSize] at *
  omega

theorem used_add (b : Block) (r : LogRecord) : (b.add r).used = b.used + logRecordSize := by
  simp only [used, add, List.length_append, List.length_singleton, logRecordSize]
  omega

theorem RecordsAt.of_keeps (h : b.RecordsAt f) (hk : f.Keeps P f')
    (hP : ∀ i, b.offset + blockHeaderSize ≤ i → i < b.used → P i) : b.RecordsAt f' := by
  intro i r hr
  have hi : i < b.records.length := (List.getElem?_eq_some_iff.mp hr).1
  refine File.read_of_keeps (h i r hr) hk fun j hj hj' => hP j (by omega) ?_
  simp only [used, logRecordSize] at *
  omega

theorem RecordsAt.add {r : LogRecord} (h : b.RecordsAt f) (hr : f.read b.used logRecordSize = some r.encode) :
    (b.add r).RecordsAt f := by
  intro i r' hr'
  rw [Block.add, List.getElem?_append] at hr'
  split at hr'
  · exact h i r' hr'
  · obtain ⟨hi, rfl⟩ : i = b.records.length ∧ r = r' := by
      have hlen := (List.getElem?_eq_some_iff.mp hr').1
      rw [List.length_singleton] at hlen
      have hzero : i - b.records.length = 0 := by omega
      rw [hzero] at hr'
      exact ⟨by omega, by simpa using hr'⟩
    subst hi
    exact hr

theorem At.of_write (hpos : 0 < b.offset) (hin : b.stop ≤ f.size) (hroom : b.records.length ≤ capacity)
    (hrecords : b.RecordsAt f) (h : f.write b.offset (b.headerInfo link).blockHeader.encode = some f') :
    b.At f' link where
  pos := hpos
  inside := (File.size_of_write h).symm ▸ hin
  room := hroom
  header := File.read_write h
  records := by
    have hk : f.Keeps (b.offset + blockHeaderSize ≤ ·) f' := by
      refine File.keeps_of_write h fun i _ hi => ?_
      rw [BlockHeader.length_encode] at hi
      omega
    exact hrecords.of_keeps hk fun i hi _ => hi

theorem At.of_keeps (h : b.At f link) (hk : f.Keeps P f') (hP : ∀ i, b.offset ≤ i → i < b.used → P i) :
    b.At f' link where
  pos := h.pos
  inside := h.inside.trans hk.size
  room := h.room
  header := by
    refine File.read_of_keeps h.header hk fun i hi hi' => hP i hi ?_
    simp only [used]
    omega
  records := h.records.of_keeps hk fun j hj => hP j (by omega)

end Block

theorem checkNeedForNewBlock_iff {b : Block} (h : b.records.length ≤ Block.capacity) (link : Nat) :
    checkNeedForNewBlock (b.headerInfo link).blockHeader = true ↔ ¬ b.records.length < Block.capacity := by
  simp only [Block.capacity] at *
  have hcount : (UInt32.ofNat b.records.length).toNat = b.records.length := UInt32.toNat_ofNat_of_lt' (Nat.lt_of_le_of_lt h (by decide))
  simp only [checkNeedForNewBlock, Block.headerInfo, decide_eq_true_eq, UInt32.lt_iff_toNat_lt, UInt32.toNat_sub,
    UInt32.toNat_add, UInt32.toNat_mul, hcount, defaultBlockSize, UInt32.reduceToNat]
  have hused : (16 + b.records.length * 48 % 2 ^ 32) % 2 ^ 32 = 16 + b.records.length * 48 := by omega
  have hleft : 2 ^ 32 - (16 + b.records.length * 48) + 4096 = 2 ^ 32 + (4080 - b.records.length * 48) := by omega
  rw [hused, hleft, Nat.add_mod_left, Nat.mod_eq_of_lt (by omega)]
  omega

/-! ## Chains -/

/-- Where a chain starts that ends with a link to `after`. -/
def startOf (after : Nat) : List Block → Nat
  | [] => after
  | b :: _ => b.offset

/-- The blocks are on the file, each linked to the one that follows it and the last to `after`. -/
def Linked (f : File) (after : Nat) : List Block → Prop
  | [] => True
  | b :: bs => b.At f (startOf after bs) ∧ Linked f after bs

section Linked

variable {f f' : File} {after : Nat} {bs cs : List Block} {b : Block} {P : Nat → Prop}

theorem linked_append : Linked f after (bs ++ cs) ↔ Linked f (startOf after cs) bs ∧ Linked f after cs := by
  induction bs with
  | nil => simp [Linked]
  | cons b bs ih =>
    have hstart : startOf after (bs ++ cs) = startOf (startOf after cs) bs := by cases bs <;> rfl
    rw [List.cons_append, Linked, Linked, ih, hstart, and_assoc]

theorem linked_singleton : Linked f after [b] ↔ b.At f after := by
  simp [Linked, startOf]

theorem Linked.of_keeps (h : Linked f after bs) (hk : f.Keeps P f')
    (hP : ∀ b ∈ bs, ∀ i, b.offset ≤ i → i < b.used → P i) : Linked f' after bs := by
  induction bs with
  | nil => trivial
  | cons b bs ih =>
    exact ⟨h.1.of_keeps hk (hP b (by simp)), ih h.2 fun c hc => hP c (by simp [hc])⟩

theorem Linked.exists_at (h : Linked f after bs) (hb : b ∈ bs) : ∃ link, b.At f link := by
  induction bs with
  | nil => cases hb
  | cons c bs ih =>
    rcases List.mem_cons.mp hb with rfl | hb
    · exact ⟨_, h.1⟩
    · exact ih h.2 hb

end Linked

theorem addRecord_concat (r : LogRecord) (bs : List Block) (b : Block) :
    addRecord r (bs ++ [b]) = bs ++ [b.add r] := by
  induction bs with
  | nil => rfl
  | cons c bs ih =>
    cases bs with
    | nil => rfl
    | cons d bs => rw [List.cons_append, List.cons_append, addRecord, ← List.cons_append, ih]; rfl

/-! ## `AppendLogRecord` -/

/-- Where the data of a record goes: a new block comes before it. -/
def dataStart (next : Nat) (b : Block) : Nat :=
  if b.records.length < Block.capacity then next else next + defaultBlockSize.toNat

/-- The record as it is before a set takes over what it keeps. -/
def writtenRecord (start : Nat) (operation : Operation) (recordIndex recordID : UInt32)
    (key value metadata : Option Bytes) : LogRecord :=
  ⟨operation.code, recordIndex, recordID, fieldAt start key, fieldAt (start + dataSize key) value,
    fieldAt (start + dataSize key + dataSize value) metadata⟩

/-- The record that is logged, for data that starts at `start` and a table that has these records. -/
def Logged (start : Nat) (operation : Operation) (recordIndex : UInt32) (key value metadata : Option Bytes)
    (records : List LogRecord) (r : LogRecord) : Prop :=
  ∃ recordID, let written := writtenRecord start operation recordIndex recordID key value metadata
    (operation ≠ .set ∧ r = written) ∨
      operation = .set ∧ ∃ old, records[recordIndex.toNat]? = some old ∧
        r = keepFields key value metadata written old

/-- What the last block of a chain becomes. -/
def tailOf (next : Nat) (b : Block) (r : LogRecord) : List Block :=
  if b.records.length < Block.capacity then [b.add r] else [b, ⟨next, [r]⟩]

def lastOf (next : Nat) (b : Block) (r : LogRecord) : Block :=
  if b.records.length < Block.capacity then b.add r else ⟨next, [r]⟩

/-- The bytes that are neither free nor in the unused rest of the last block. -/
def InUse (next : Nat) (b : Block) (i : Nat) : Prop := i < next ∧ ¬ (b.used ≤ i ∧ i < b.stop)

/-- All that `AppendLogRecord` does, to a table whose last block is `b`. -/
structure Appended (s s' : Space) (t t' : TableInfo) (bs : List Block) (b : Block) (operation : Operation)
    (recordIndex : UInt32) (key value metadata : Option Bytes) (r : LogRecord) : Prop where
  commit : ∃ g header, Through (InUse s.nextDataOffset b) s g ∧ g.write b.offset header = some s' ∧
    header.length = blockHeaderSize
  next : s'.nextDataOffset =
    dataStart s.nextDataOffset b + dataSize key + dataSize value + dataSize metadata
  next_le : s'.nextDataOffset ≤ s'.file.size
  logged : Logged (dataStart s.nextDataOffset b) operation recordIndex key value metadata t.records r
  linked : Linked s'.file 0 (tailOf s.nextDataOffset b r)
  holds_key : Holds s'.file (dataStart s.nextDataOffset b) key
  holds_value : Holds s'.file (dataStart s.nextDataOffset b + dataSize key) value
  holds_metadata : Holds s'.file (dataStart s.nextDataOffset b + dataSize key + dataSize value) metadata
  name : t'.name = t.name
  info : t'.lastBlockHeaderInfo = (lastOf s.nextDataOffset b r).headerInfo 0
  records : t'.records = applyOperation operation recordIndex.toNat r t.records
  blocks : t'.blocks = bs ++ tailOf s.nextDataOffset b r

theorem Space.writeLdbData_three {s : Space} (hnext : s.nextDataOffset ≤ s.file.size)
    (key value metadata : Option Bytes) :
    ∃ s1 s2 s3, s.writeLdbData key = some (s1, fieldAt s.nextDataOffset key) ∧
      s1.writeLdbData value = some (s2, fieldAt (s.nextDataOffset + dataSize key) value) ∧
      s2.writeLdbData metadata = some (s3, fieldAt (s.nextDataOffset + dataSize key + dataSize value) metadata) ∧
      Through (· < s.nextDataOffset) s s3 ∧
      s3.nextDataOffset = s.nextDataOffset + dataSize key + dataSize value + dataSize metadata ∧
      s3.nextDataOffset ≤ s3.file.size ∧
      Holds s3.file s.nextDataOffset key ∧ Holds s3.file (s.nextDataOffset + dataSize key) value ∧
      Holds s3.file (s.nextDataOffset + dataSize key + dataSize value) metadata := by
  obtain ⟨s1, h1, ht1, hn1, hle1, hk⟩ := Space.writeLdbData_spec hnext key
  obtain ⟨s2, h2, ht2, hn2, hle2, hv⟩ := Space.writeLdbData_spec hle1 value
  obtain ⟨s3, h3, ht3, hn3, hle3, hm⟩ := Space.writeLdbData_spec hle2 metadata
  rw [hn1] at h2 ht2 hn2 hv
  rw [hn2] at h3 ht3 hn3 hm
  have hk2 : Holds s2.file s.nextDataOffset key := hk.of_keeps ht2.keeps fun i _ hi => hi
  have hk3 : Holds s3.file s.nextDataOffset key := hk2.of_keeps ht3.keeps fun i _ hi => by omega
  have hv3 := hv.of_keeps ht3.keeps fun i _ hi => hi
  have hthrough : Through (· < s.nextDataOffset) s s3 :=
    (ht1.trans (ht2.mono fun i hi => by omega)).trans (ht3.mono fun i hi => by omega)
  exact ⟨s1, s2, s3, h1, h2, h3, hthrough, hn3, hle3, hk3, hv3, hm⟩

theorem exists_logged {records : List LogRecord} {operation : Operation} {recordIndex : UInt32}
    (hset : operation = .set → recordIndex.toNat < records.length) (start : Nat) (recordID : UInt32)
    (key value metadata : Option Bytes) :
    ∃ r, setFields operation recordIndex key value metadata records
        (writtenRecord start operation recordIndex recordID key value metadata) = some r ∧
      Logged start operation recordIndex key value metadata records r := by
  unfold setFields
  by_cases h : operation = .set
  · obtain ⟨old, hold⟩ : ∃ old, records[recordIndex.toNat]? = some old := ⟨_, List.getElem?_eq_getElem (hset h)⟩
    rw [if_pos h, hold]
    exact ⟨_, rfl, recordID, .inr ⟨h, old, hold, rfl⟩⟩
  · rw [if_neg h]
    exact ⟨_, rfl, recordID, .inl ⟨h, rfl⟩⟩

theorem Space.exists_write_record {s : Space} {b : Block} (hpos : 0 < b.offset) (hin : b.stop ≤ s.file.size)
    (hroom : b.records.length < Block.capacity) (hrecords : b.RecordsAt s.file) (r : LogRecord) :
    ∃ s4 s5, s.write b.used r.encode = some s4 ∧
      s4.write b.offset ((b.add r).headerInfo 0).blockHeader.encode = some s5 ∧ (b.add r).At s5.file 0 ∧
      Through (fun i => ¬ (b.used ≤ i ∧ i < b.stop)) s s4 ∧
      Through (fun i => ¬ (b.offset ≤ i ∧ i < b.offset + blockHeaderSize)) s4 s5 ∧
      s5.file.size = s.file.size ∧ s5.nextDataOffset = s.nextDataOffset := by
  have hroom' : (b.add r).records.length ≤ Block.capacity := by
    rw [Block.add, List.length_append, List.length_singleton]
    exact hroom
  have hused : b.used + logRecordSize ≤ b.stop := by
    rw [← Block.used_add b r]
    exact Block.used_le_stop hroom'
  have hoffset : b.offset + blockHeaderSize ≤ b.used := Nat.le_add_right _ _
  obtain ⟨s4, h4⟩ : ∃ s4, s.write b.used r.encode = some s4 :=
    Space.exists_write (by rw [LogRecord.length_encode]; exact hused.trans hin)
  have hsize4 := Space.size_of_write h4
  obtain ⟨s5, h5⟩ : ∃ s5, s4.write b.offset ((b.add r).headerInfo 0).blockHeader.encode = some s5 := by
    apply Space.exists_write
    rw [BlockHeader.length_encode, hsize4]
    omega
  have hrecord : Through (fun i => ¬ (b.used ≤ i ∧ i < b.stop)) s s4 := by
    refine Space.through_of_write h4 fun i hi hi' hout => hout ⟨hi, ?_⟩
    rw [LogRecord.length_encode] at hi'
    omega
  have hheader : Through (fun i => ¬ (b.offset ≤ i ∧ i < b.offset + blockHeaderSize)) s4 s5 := by
    refine Space.through_of_write h5 fun i hi hi' hout => hout ⟨hi, ?_⟩
    rwa [BlockHeader.length_encode] at hi'
  have hadded : (b.add r).RecordsAt s4.file := by
    have hread := Space.read_write h4
    rw [LogRecord.length_encode] at hread
    exact (hrecords.of_keeps hrecord.keeps fun i _ hi => by omega).add hread
  have hat : (b.add r).At s5.file 0 := .of_write hpos (hsize4.symm ▸ hin) hroom' hadded (Space.write_eq_some h5).1
  exact ⟨s4, s5, h4, h5, hat, hrecord, hheader, (Space.size_of_write h5).trans hsize4,
    (Space.write_eq_some h5).2.2.trans (Space.write_eq_some h4).2.2⟩

section Append

variable {s : Space} {t : TableInfo} {bs : List Block} {b : Block} {operation : Operation} {recordIndex : UInt32}
  {key value metadata : Option Bytes}

theorem appendLogRecord_eq {s0 s1 s2 s3 s' : Space} {current : BlockHeaderInfo} {new : Option BlockHeaderInfo}
    {info : BlockHeaderInfo} {r : LogRecord}
    (hnew : { s with lastRecordID := s.lastRecordID + 1 }.createNewBlockIfNeeded t.lastBlockHeaderInfo =
      some (s0, current, new))
    (hkey : s0.writeLdbData key = some (s1, fieldAt s0.nextDataOffset key))
    (hvalue : s1.writeLdbData value = some (s2, fieldAt (s0.nextDataOffset + dataSize key) value))
    (hmetadata : s2.writeLdbData metadata =
      some (s3, fieldAt (s0.nextDataOffset + dataSize key + dataSize value) metadata))
    (hset : setFields operation recordIndex key value metadata t.records
      (writtenRecord s0.nextDataOffset operation recordIndex (s.lastRecordID + 1) key value metadata) = some r)
    (hlog : s3.writeLogRecord current new r = some (s', info)) :
    s.appendLogRecord t operation recordIndex key value metadata =
      some (s', { t with
        lastBlockHeaderInfo := info
        records := applyOperation operation recordIndex.toNat r t.records
        blocks := logTo new r t.blocks }) := by
  rw [writtenRecord] at hset
  simp only [Space.appendLogRecord, hnew, Option.bind_eq_bind, Option.bind_some, hkey, hvalue, hmetadata, hset, hlog]

theorem headerInfo_add (b : Block) (r : LogRecord) :
    (b.add r).headerInfo 0 =
      ⟨⟨defaultBlockSize, UInt32.ofNat b.records.length + 1, UInt32.ofNat 0⟩, b.offset⟩ := by
  simp only [Block.headerInfo, Block.add, List.length_append, List.length_singleton, UInt32.ofNat_add]
  rfl

theorem appendLogRecord_room (hnext : s.nextDataOffset ≤ s.file.size) (hblocks : t.blocks = bs ++ [b])
    (hinfo : t.lastBlockHeaderInfo = b.headerInfo 0) (hb : b.At s.file 0) (hstop : b.stop ≤ s.nextDataOffset)
    (hset : operation = .set → recordIndex.toNat < t.records.length) (hroom : b.records.length < Block.capacity)
    (key value metadata : Option Bytes) :
    ∃ s' t' r, s.appendLogRecord t operation recordIndex key value metadata = some (s', t') ∧
      Appended s s' t t' bs b operation recordIndex key value metadata r := by
  let s0 : Space := { s with lastRecordID := s.lastRecordID + 1 }
  have hnew : s0.createNewBlockIfNeeded t.lastBlockHeaderInfo = some (s0, b.headerInfo 0, none) := by
    have hneed : checkNeedForNewBlock (b.headerInfo 0).blockHeader = false := by
      rw [← Bool.not_eq_true, checkNeedForNewBlock_iff hb.room]
      exact not_not.mpr hroom
    rw [hinfo, Space.createNewBlockIfNeeded, hneed]
    rfl
  obtain ⟨s1, s2, s3, hk, hv, hm, hdata, hn3, hle3, hhk, hhv, hhm⟩ :=
    Space.writeLdbData_three (s := s0) hnext key value metadata
  obtain ⟨r, hr, hlogged⟩ :=
    exists_logged hset s.nextDataOffset (s.lastRecordID + 1) key value metadata
  have hused := Block.used_le_stop hb.room
  have hrecords : b.RecordsAt s3.file :=
    hb.records.of_keeps hdata.keeps fun i _ hi => (hi.trans_le hused).trans_le hstop
  obtain ⟨s4, s5, h4, h5, hlast, hrecord, hheader, hsize5, hn5⟩ :=
    Space.exists_write_record hb.pos (hb.inside.trans hdata.keeps.size) hroom hrecords r
  have hlog : s3.writeLogRecord (b.headerInfo 0) none r = some (s5, (b.add r).headerInfo 0) := by
    have hcount : (UInt32.ofNat b.records.length).toNat = b.records.length :=
      UInt32.toNat_ofNat_of_lt' (Nat.lt_trans hroom (by decide))
    rw [headerInfo_add] at h5 ⊢
    rw [Block.used, ← hcount] at h4
    simp only [Space.writeLogRecord, Option.getD_none, Block.headerInfo, Option.bind_eq_bind, h4, Option.bind_some, h5]
  have hthrough : Through (InUse s.nextDataOffset b) s s4 :=
    ((Through.of_eq rfl rfl).trans (hdata.mono fun i hi => hi.1)).trans (hrecord.mono fun i hi => hi.2)
  have hoffset : b.offset + blockHeaderSize ≤ b.used := Nat.le_add_right _ _
  have hdata5 {offset : Nat} {data : Option Bytes} (hoff : s.nextDataOffset ≤ offset)
      (h : Holds s3.file offset data) : Holds s5.file offset data :=
    (h.of_keeps hrecord.keeps fun i hi _ => by omega).of_keeps hheader.keeps fun i hi _ => by omega
  have htail : tailOf s.nextDataOffset b r = [b.add r] := if_pos hroom
  have hstart : dataStart s.nextDataOffset b = s.nextDataOffset := if_pos hroom
  refine ⟨s5, _, r, appendLogRecord_eq hnew hk hv hm hr hlog, ?_⟩
  exact {
    commit := ⟨s4, _, hthrough, h5, BlockHeader.length_encode _⟩
    next := by rw [hn5, hn3, hstart]
    next_le := by rw [hn5, hsize5]; exact hle3
    logged := hstart.symm ▸ hlogged
    linked := by rw [htail]; exact linked_singleton.mpr hlast
    holds_key := by rw [hstart]; exact hdata5 (Nat.le_refl _) hhk
    holds_value := by rw [hstart]; exact hdata5 (Nat.le_add_right _ _) hhv
    holds_metadata := by rw [hstart]; exact hdata5 (by omega) hhm
    name := rfl
    info := by rw [lastOf, if_pos hroom]
    records := rfl
    blocks := by rw [htail, hblocks]; exact addRecord_concat r bs b }

/-- A block that is full is linked to a new one, which has no records yet. -/
theorem createNewBlockIfNeeded_full (hnext : s.nextDataOffset ≤ s.file.size) (hroom : b.records.length ≤ Block.capacity)
    (hfull : ¬ b.records.length < Block.capacity) :
    ∃ s', s.createNewBlockIfNeeded (b.headerInfo 0) =
        some (s', b.headerInfo s.nextDataOffset, some (Block.headerInfo ⟨s.nextDataOffset, []⟩ 0)) ∧
      Through (· < s.nextDataOffset) s s' ∧ s'.nextDataOffset = s.nextDataOffset + defaultBlockSize.toNat ∧
      s'.nextDataOffset ≤ s'.file.size := by
  have hneed : checkNeedForNewBlock (b.headerInfo 0).blockHeader = true := (checkNeedForNewBlock_iff hroom 0).mpr hfull
  have hsize := Space.ensureSpace_size hnext defaultBlockSize.toNat
  let newBlock : BlockHeader := ⟨defaultBlockSize, 0, 0⟩
  obtain ⟨s', hs'⟩ : ∃ s', (s.ensureSpace defaultBlockSize.toNat).write s.nextDataOffset newBlock.encode = some s' := by
    apply Space.exists_write
    rw [BlockHeader.length_encode]
    exact Nat.le_trans (Nat.add_le_add_left (by decide) _) hsize
  have hkeep : Through (· < s.nextDataOffset) (s.ensureSpace defaultBlockSize.toNat) s' :=
    Space.through_of_write hs' fun i hi _ => Nat.not_lt.mpr hi
  refine ⟨{ s' with nextDataOffset := s.nextDataOffset + defaultBlockSize.toNat }, ?_, ?_, rfl, ?_⟩
  · have hwrite : (s.ensureSpace (b.headerInfo 0).blockHeader.size.toNat).write s.nextDataOffset
        (BlockHeader.encode ⟨(b.headerInfo 0).blockHeader.size, 0, 0⟩) = some s' := hs'
    simp only [Space.createNewBlockIfNeeded, hneed, hwrite]
    rfl
  · exact ((Space.ensureSpace_through _ s _).trans hkeep).trans (.of_eq rfl rfl)
  · change s.nextDataOffset + defaultBlockSize.toNat ≤ s'.file.size
    rw [Space.size_of_write hs']
    exact hsize

theorem appendLogRecord_full (hnext : s.nextDataOffset ≤ s.file.size) (hblocks : t.blocks = bs ++ [b])
    (hinfo : t.lastBlockHeaderInfo = b.headerInfo 0) (hb : b.At s.file 0) (hstop : b.stop ≤ s.nextDataOffset)
    (hset : operation = .set → recordIndex.toNat < t.records.length) (hfull : ¬ b.records.length < Block.capacity)
    (key value metadata : Option Bytes) :
    ∃ s' t' r, s.appendLogRecord t operation recordIndex key value metadata = some (s', t') ∧
      Appended s s' t t' bs b operation recordIndex key value metadata r := by
  obtain ⟨s0, hnew, hblock, hn0, hle0⟩ :=
    createNewBlockIfNeeded_full (s := { s with lastRecordID := s.lastRecordID + 1 }) hnext hb.room hfull
  obtain ⟨s1, s2, s3, hk, hv, hm, hdata, hn3, hle3, hhk, hhv, hhm⟩ :=
    Space.writeLdbData_three hle0 key value metadata
  obtain ⟨r, hr, hlogged⟩ :=
    exists_logged hset s0.nextDataOffset (s.lastRecordID + 1) key value metadata
  let new : Block := ⟨s.nextDataOffset, []⟩
  have hpos : 0 < new.offset := Nat.lt_of_lt_of_le (Nat.lt_of_lt_of_le hb.pos (Nat.le_add_right _ _)) hstop
  have hnewStop : new.stop = s0.nextDataOffset := hn0.symm
  obtain ⟨s4, s5, h4, h5, hlast, hrecord, hheader, hsize5, hn5⟩ :=
    Space.exists_write_record hpos (by rw [hnewStop]; exact hle0.trans hdata.keeps.size)
      (show 0 < Block.capacity by decide) (fun i r hr => by cases hr) r
  have hused := Block.used_le_stop hb.room
  have hoffset : b.offset + blockHeaderSize ≤ b.used := Nat.le_add_right _ _
  have hnewOffset : s.nextDataOffset + blockHeaderSize ≤ new.used := Nat.le_add_right _ _
  have hsize : s.file.size ≤ s5.file.size := by
    rw [hsize5]
    exact hblock.keeps.size.trans hdata.keeps.size
  obtain ⟨s6, h6⟩ : ∃ s6, s5.write b.offset (b.headerInfo s.nextDataOffset).blockHeader.encode = some s6 := by
    apply Space.exists_write
    rw [BlockHeader.length_encode]
    have := hb.inside
    omega
  have hcommit : Through (fun i => ¬ (b.offset ≤ i ∧ i < b.offset + blockHeaderSize)) s5 s6 := by
    refine Space.through_of_write h6 fun i hi hi' hout => hout ⟨hi, ?_⟩
    rwa [BlockHeader.length_encode] at hi'
  have hlog : s3.writeLogRecord (b.headerInfo s.nextDataOffset) (some (new.headerInfo 0)) r =
      some (s6, (new.add r).headerInfo 0) := by
    rw [headerInfo_add] at h5 ⊢
    have hcount : (UInt32.ofNat new.records.length).toNat = new.records.length := rfl
    rw [Block.used, ← hcount] at h4
    simp only [Block.headerInfo] at h6
    simp only [Space.writeLogRecord, Option.getD_some, Block.headerInfo, Option.bind_eq_bind, h4, Option.bind_some, h5,
      h6, Option.map_some]
  -- all but the last write is beyond the data that was there
  have hthrough : Through (InUse s.nextDataOffset b) s s5 := by
    have h0 : Through (InUse s.nextDataOffset b) s s0 := (Through.of_eq rfl rfl).trans (hblock.mono fun i hi => hi.1)
    have h03 : Through (InUse s.nextDataOffset b) s0 s3 := hdata.mono fun i hi => by
      have := hi.1
      rw [hn0]
      exact Nat.lt_of_lt_of_le this (Nat.le_add_right _ _)
    have h34 : Through (InUse s.nextDataOffset b) s3 s4 := hrecord.mono fun i hi => by
      have := hi.1
      omega
    have h45 : Through (InUse s.nextDataOffset b) s4 s5 := hheader.mono fun i hi hin =>
      Nat.not_le.mpr hi.1 hin.1
    exact ((h0.trans h03).trans h34).trans h45
  have hold : b.At s6.file s.nextDataOffset := by
    refine .of_write hb.pos (hb.inside.trans hsize) hb.room ?_ (Space.write_eq_some h6).1
    exact hb.records.of_keeps hthrough.keeps fun i _ hi => ⟨(hi.trans_le hused).trans_le hstop, by omega⟩
  have hnewAt : (new.add r).At s6.file 0 := hlast.of_keeps hcommit.keeps fun i hi _ hin => by
    have : s.nextDataOffset ≤ i := hi
    omega
  have hdata6 {offset : Nat} {data : Option Bytes} (hoff : s0.nextDataOffset ≤ offset)
      (h : Holds s3.file offset data) : Holds s6.file offset data := by
    have hnext0 : s.nextDataOffset + blockHeaderSize ≤ s0.nextDataOffset := by
      rw [hn0]
      exact Nat.add_le_add_left (by decide) _
    have hnewOff : new.offset = s.nextDataOffset := rfl
    exact ((h.of_keeps hrecord.keeps fun i hi _ => by omega).of_keeps hheader.keeps fun i hi _ => by omega).of_keeps
      hcommit.keeps fun i hi _ => by omega
  have htail : tailOf s.nextDataOffset b r = [b, new.add r] := if_neg hfull
  have hstart : dataStart s.nextDataOffset b = s0.nextDataOffset := (if_neg hfull).trans hn0.symm
  have hn6 := (Space.write_eq_some h6).2.2
  refine ⟨s6, _, r, appendLogRecord_eq (hinfo ▸ hnew) hk hv hm hr hlog, ?_⟩
  exact {
    commit := ⟨s5, _, hthrough, h6, BlockHeader.length_encode _⟩
    next := by rw [hn6, hn5, hn3, hstart]
    next_le := by rw [hn6, hn5, Space.size_of_write h6, hsize5]; exact hle3
    logged := hstart.symm ▸ hlogged
    linked := by rw [htail]; exact ⟨hold, linked_singleton.mpr hnewAt⟩
    holds_key := by rw [hstart]; exact hdata6 (Nat.le_refl _) hhk
    holds_value := by rw [hstart]; exact hdata6 (Nat.le_add_right _ _) hhv
    holds_metadata := by rw [hstart]; exact hdata6 (by omega) hhm
    name := rfl
    info := by rw [lastOf, if_neg hfull]; rfl
    records := rfl
    blocks := by rw [htail, logTo, hblocks, List.append_assoc]; rfl }

/-- The one spec of `AppendLogRecord`, which every operation goes through. -/
theorem appendLogRecord_spec (hnext : s.nextDataOffset ≤ s.file.size) (hblocks : t.blocks = bs ++ [b])
    (hinfo : t.lastBlockHeaderInfo = b.headerInfo 0) (hb : b.At s.file 0) (hstop : b.stop ≤ s.nextDataOffset)
    (hset : operation = .set → recordIndex.toNat < t.records.length) (key value metadata : Option Bytes) :
    ∃ s' t' r, s.appendLogRecord t operation recordIndex key value metadata = some (s', t') ∧
      Appended s s' t t' bs b operation recordIndex key value metadata r := by
  by_cases hroom : b.records.length < Block.capacity
  · exact appendLogRecord_room hnext hblocks hinfo hb hstop hset hroom key value metadata
  · exact appendLogRecord_full hnext hblocks hinfo hb hstop hset hroom key value metadata

end Append

end Tiodb.Logdb
