import Tiodb.Ldb.OnPages

/-!
# The cache is not seen

While the file stays below 2^32 bytes, the programs of `OnPages.lean` do on a file of which
nothing is cached what the functions of `Database.lean` do, and so they do it on the cache.
-/

namespace Tiodb.Logdb.OnPages

open Lib
open Calling (ofOption)

/-- The file with the pages that the database uses. -/
def flat (f : File) : FlatFile := { file := f }

def BlockHeaderInfo.of (i : Logdb.BlockHeaderInfo) : BlockHeaderInfo := ⟨i.blockHeader, UInt32.ofNat i.offset⟩

def TableInfo.of (t : Logdb.TableInfo) : TableInfo := ⟨t.name, .of t.lastBlockHeaderInfo, t.records⟩

def Place.of (s : Space) : Place :=
  ⟨UInt32.ofNat s.nextDataOffset, UInt32.ofNat s.growPagesStep, s.lastRecordID⟩

/-- A space that `DWORD`s can describe. -/
structure Fits (s : Space) : Prop where
  whole : pageSize ∣ s.file.size
  next : s.nextDataOffset ≤ s.file.size
  size : s.file.size < 2 ^ 32
  step : s.growPagesStep < 2 ^ 32

section Calls

variable {f : FlatFile} {offset n : Nat} {bytes : Bytes}

theorem toNat_ofNat {n : Nat} (h : n < 2 ^ 32) : (UInt32.ofNat n).toNat = n := UInt32.toNat_ofNat_of_lt' h

theorem ofNat_ite_lt {a b : Nat} (ha : a < 2 ^ 32) (hb : b < 2 ^ 32) :
    (if UInt32.ofNat a < UInt32.ofNat b then UInt32.ofNat b else UInt32.ofNat a) =
      UInt32.ofNat (if a < b then b else a) := by
  rw [apply_ite UInt32.ofNat]
  exact if_congr (UInt32.ofNat_lt_iff_lt ha hb) rfl rfl

theorem run_getPageSize : Paged.getPageSize.run flatServer f = some (UInt32.ofNat f.pageSize, f) := Calling.run_ask _ _

theorem run_getFileSize : Paged.getFileSize.run flatServer f = some (UInt32.ofNat f.file.size, f) :=
  Calling.run_ask _ _

theorem run_setPageSize {pageSize : UInt32} (hpos : 0 < pageSize.toNat)
    (hle : pageSize.toNat ≤ cacheInMegabytes * 1024 * 1024) :
    (Paged.setPageSize pageSize).run flatServer f = some ((), { f with pageSize := pageSize.toNat }) := by
  unfold Paged.setPageSize
  rw [Calling.run_ask, flatServer, if_pos ⟨hpos, hle⟩]

theorem run_read (hread : f.file.read offset n = some bytes) (hsize : f.file.size < 2 ^ 32) :
    (Paged.read (UInt32.ofNat offset) (UInt32.ofNat n)).run flatServer f = some (bytes, f) := by
  have hin := (File.read_eq_some.mp hread).1
  unfold Paged.read
  rw [Calling.run_ask, flatServer, toNat_ofNat (by omega), toNat_ofNat (by omega), if_pos (by omega), hread]
  rfl

theorem run_write {file : File} (hwrite : f.file.write offset bytes = some file) (hsize : f.file.size < 2 ^ 32)
    (hpages : f.pageSize ∣ f.file.size) :
    (Paged.write (UInt32.ofNat offset) bytes).run flatServer f = some ((), { f with file := file }) := by
  have hin : offset + bytes.length ≤ f.file.size := by
    by_contra hout
    simp [File.write, hout] at hwrite
  unfold Paged.write
  rw [Calling.run_ask, flatServer, toNat_ofNat (by omega), if_pos ⟨hpages, by omega⟩, hwrite]
  rfl

theorem run_growFile {pages : Nat} (hpages : f.pageSize ∣ f.file.size) (hpos : 0 < f.pageSize)
    (hsize : f.file.size + pages * f.pageSize < 2 ^ 32) :
    (Paged.growFile (UInt32.ofNat pages)).run flatServer f =
      some ((), { f with file := f.file.grow (pages * f.pageSize) uninitializedByte }) := by
  have hle : pages ≤ pages * f.pageSize := Nat.le_mul_of_pos_right _ hpos
  unfold Paged.growFile
  rw [Calling.run_ask, flatServer, toNat_ofNat (by omega), if_pos ⟨hpages, by omega, by omega⟩]

end Calls

/-! ## Writing -/

section Writing

variable {s s' : Space}

theorem Fits.write (h : Fits s) {offset : Nat} {bytes : Bytes} (hs : s.write offset bytes = some s') :
    (Paged.write (UInt32.ofNat offset) bytes).run flatServer (flat s.file) = some ((), flat s'.file) ∧ Fits s' ∧
      Place.of s' = Place.of s := by
  have hsize := Space.size_of_write hs
  obtain ⟨file, hfile, rfl⟩ := Option.map_eq_some_iff.mp hs
  change file.size = s.file.size at hsize
  refine ⟨run_write hfile h.size h.whole, ⟨?_, ?_, ?_, h.step⟩, rfl⟩
  · exact hsize.symm ▸ h.whole
  · exact hsize.symm ▸ h.next
  · exact hsize.symm ▸ h.size

theorem run_leaveRoom {n : Nat} (hwhole : pageSize ∣ s.file.size) (hstep : s.growPagesStep < 2 ^ 32)
    (hsize : (s.leaveRoom n).file.size < 2 ^ 32) :
    ((Place.of s).leaveRoom (UInt32.ofNat n)).run flatServer (flat s.file) =
      some ((), flat (s.leaveRoom n).file) := by
  have hroom := Space.leaveRoom_size s n
  have hpages : UInt32.ofNat n / UInt32.ofNat 4096 + 1 = UInt32.ofNat (n / pageSize + 1) := by
    rw [UInt32.ofNat_add, UInt32.ofNat_div (by omega) (by decide)]
    rfl
  have hlt : n / pageSize + 1 < 2 ^ 32 := by
    change n / 4096 + 1 < _
    omega
  unfold Place.leaveRoom
  rw [Calling.run_bind_of run_getPageSize]
  change (Paged.growFile (if UInt32.ofNat n / UInt32.ofNat 4096 + 1 < UInt32.ofNat s.growPagesStep then
    UInt32.ofNat s.growPagesStep else UInt32.ofNat n / UInt32.ofNat 4096 + 1)).run _ _ = _
  rw [hpages, ofNat_ite_lt hlt hstep]
  exact run_growFile hwhole (show 0 < 4096 by decide) hsize

theorem Fits.leaveRoom (h : Fits s) {n : Nat} (hsize : (s.leaveRoom n).file.size < 2 ^ 32) :
    ((Place.of s).leaveRoom (UInt32.ofNat n)).run flatServer (flat s.file) = some ((), flat (s.leaveRoom n).file) ∧
      Fits (s.leaveRoom n) := by
  have hroom := Space.leaveRoom_size s n
  refine ⟨run_leaveRoom h.whole h.step hsize, ?_, ?_, hsize, h.step⟩
  · exact Nat.dvd_add h.whole (Nat.dvd_mul_left ..)
  · exact h.next.trans (by omega)

theorem Fits.ensureSpace (h : Fits s) {n : Nat} (hsize : (s.ensureSpace n).file.size < 2 ^ 32) :
    ((Place.of s).ensureSpace (UInt32.ofNat n)).run flatServer (flat s.file) =
        some ((), flat (s.ensureSpace n).file) ∧ Fits (s.ensureSpace n) ∧
      Place.of (s.ensureSpace n) = Place.of s := by
  have hroom := Space.ensureSpace_size h.next n
  have hspace : UInt32.ofNat s.file.size - UInt32.ofNat s.nextDataOffset =
      UInt32.ofNat (s.file.size - s.nextDataOffset) := (UInt32.ofNat_sub h.next).symm
  have hlt : UInt32.ofNat (s.file.size - s.nextDataOffset) < UInt32.ofNat n ↔ s.file.size - s.nextDataOffset < n :=
    UInt32.ofNat_lt_iff_lt (lt_of_le_of_lt (Nat.sub_le ..) h.size) (by change n < 2 ^ 32; omega)
  unfold Place.ensureSpace
  rw [Calling.run_bind_of run_getFileSize]
  change (if UInt32.ofNat s.file.size - UInt32.ofNat s.nextDataOffset < UInt32.ofNat n then
    (Place.of s).leaveRoom (UInt32.ofNat n - (UInt32.ofNat s.file.size - UInt32.ofNat s.nextDataOffset))
    else pure ()).run _ _ = _ ∧ _
  rw [hspace]
  by_cases hneed : s.file.size - s.nextDataOffset < n
  · have hgrow : s.ensureSpace n = s.leaveRoom (n - (s.file.size - s.nextDataOffset)) := if_pos hneed
    rw [hgrow] at hsize ⊢
    rw [if_pos (hlt.mpr hneed), ← UInt32.ofNat_sub (Nat.le_of_lt hneed)]
    obtain ⟨hrun, hfits⟩ := h.leaveRoom hsize
    exact ⟨hrun, hfits, rfl⟩
  · have hsame : s.ensureSpace n = s := if_neg hneed
    rw [hsame, if_neg (mt hlt.mp hneed)]
    exact ⟨rfl, h, rfl⟩

/-- Data behind the others, in a file that is grown for them first. -/
theorem Fits.writeNext (h : Fits s) {n : Nat} {bytes : Bytes}
    (hs : (s.ensureSpace n).write s.nextDataOffset bytes = some s') (hsize : s'.file.size < 2 ^ 32) :
    (∃ f, ((Place.of s).ensureSpace (UInt32.ofNat n)).run flatServer (flat s.file) = some ((), f) ∧
        (Paged.write (UInt32.ofNat s.nextDataOffset) bytes).run flatServer f = some ((), flat s'.file)) ∧
      Fits { s' with nextDataOffset := s.nextDataOffset + n } ∧
      Place.of { s' with nextDataOffset := s.nextDataOffset + n } =
        { Place.of s with nextDataOffset := UInt32.ofNat s.nextDataOffset + UInt32.ofNat n } := by
  have hgrown : s'.file.size = (s.ensureSpace n).file.size := Space.size_of_write hs
  obtain ⟨hrun, hfits, hplace⟩ := h.ensureSpace (hgrown ▸ hsize)
  obtain ⟨hwrite, hfits', hplace'⟩ := hfits.write hs
  refine ⟨⟨_, hrun, hwrite⟩, ⟨hfits'.whole, ?_, hsize, hfits'.step⟩, ?_⟩
  · change _ ≤ s'.file.size
    exact hgrown ▸ Space.ensureSpace_size h.next n
  · have hsame := hplace'.trans hplace
    simp only [Place.of, Place.mk.injEq, UInt32.ofNat_add] at hsame ⊢
    exact ⟨trivial, hsame.2⟩

theorem Fits.writeLdbData (h : Fits s) {data : Option Bytes} {field : Field}
    (hs : s.writeLdbData data = some (s', field)) (hsize : s'.file.size < 2 ^ 32) :
    ((Place.of s).writeLdbData data).run flatServer (flat s.file) = some ((Place.of s', field), flat s'.file) ∧
      Fits s' := by
  cases data with
  | none =>
    obtain ⟨rfl, rfl⟩ := Prod.mk.inj (Option.some.inj hs)
    exact ⟨rfl, h⟩
  | some data =>
    obtain ⟨s₁, hs₁, heq⟩ := Option.map_eq_some_iff.mp hs
    obtain ⟨rfl, rfl⟩ := Prod.mk.inj heq
    obtain ⟨⟨f, hensure, hwrite⟩, hfits, hplace⟩ := h.writeNext hs₁ hsize
    refine ⟨?_, hfits⟩
    rw [hplace]
    unfold Place.writeLdbData
    rw [Calling.run_bind_of hensure]
    exact Calling.run_bind_of hwrite _

theorem Fits.createNewBlockIfNeeded (h : Fits s) {info current : Logdb.BlockHeaderInfo}
    {new : Option Logdb.BlockHeaderInfo} (hs : s.createNewBlockIfNeeded info = some (s', current, new))
    (hsize : s'.file.size < 2 ^ 32) :
    ((Place.of s).createNewBlockIfNeeded (.of info)).run flatServer (flat s.file) =
        some ((Place.of s', .of current, new.map .of), flat s'.file) ∧ Fits s' := by
  unfold Place.createNewBlockIfNeeded
  unfold Space.createNewBlockIfNeeded at hs
  have hsame : (BlockHeaderInfo.of info).blockHeader = info.blockHeader := rfl
  rw [hsame]
  by_cases hneed : !checkNeedForNewBlock info.blockHeader
  · rw [if_pos hneed] at hs ⊢
    obtain ⟨rfl, hrest⟩ := Prod.mk.inj (Option.some.inj hs)
    obtain ⟨rfl, rfl⟩ := Prod.mk.inj hrest
    exact ⟨rfl, h⟩
  · rw [if_neg hneed] at hs ⊢
    obtain ⟨s₁, hs₁, heq⟩ := Option.map_eq_some_iff.mp hs
    obtain ⟨rfl, hrest⟩ := Prod.mk.inj heq
    obtain ⟨rfl, rfl⟩ := Prod.mk.inj hrest
    obtain ⟨⟨f, hensure, hwrite⟩, hfits, hplace⟩ := h.writeNext hs₁ hsize
    refine ⟨?_, hfits⟩
    rw [UInt32.ofNat_toNat] at hensure hplace
    rw [hplace]
    rw [Calling.run_bind_of hensure]
    exact Calling.run_bind_of hwrite _

theorem Fits.writeLogRecord (h : Fits s) {info current : Logdb.BlockHeaderInfo}
    {new : Option Logdb.BlockHeaderInfo} {r : LogRecord} (hs : s.writeLogRecord info new r = some (s', current)) :
    (OnPages.writeLogRecord (.of info) (new.map .of) r).run flatServer (flat s.file) =
        some (.of current, flat s'.file) ∧ Fits s' ∧ Place.of s' = Place.of s := by
  simp only [Space.writeLogRecord, Option.bind_eq_bind, Option.bind_eq_some_iff] at hs
  obtain ⟨s₁, hs₁, s₂, hs₂, hs⟩ := hs
  obtain ⟨hrun₁, hfits₁, hplace₁⟩ := h.write hs₁
  obtain ⟨hrun₂, hfits₂, hplace₂⟩ := hfits₁.write hs₂
  have hcurrent : (new.map BlockHeaderInfo.of).getD (.of info) = .of (new.getD info) := Option.getD_map ..
  have hoffset : (BlockHeaderInfo.of (new.getD info)).offset + 12 +
      48 * (BlockHeaderInfo.of (new.getD info)).blockHeader.usedCount =
        UInt32.ofNat ((new.getD info).offset + blockHeaderSize +
          logRecordSize * (new.getD info).blockHeader.usedCount.toNat) := by
    simp only [blockHeaderSize, logRecordSize, UInt32.ofNat_add, UInt32.ofNat_mul, UInt32.ofNat_toNat]
    rfl
  unfold OnPages.writeLogRecord
  dsimp only
  rw [hcurrent, hoffset, Calling.run_bind_of hrun₁]
  have hnext := Calling.run_bind_of hrun₂ (fun _ : Unit => (do
    if (new.map BlockHeaderInfo.of).isSome then
      Paged.write (BlockHeaderInfo.of info).offset (BlockHeaderInfo.of info).blockHeader.encode
    pure (BlockHeaderInfo.of { new.getD info with
      blockHeader := { (new.getD info).blockHeader with
        usedCount := (new.getD info).blockHeader.usedCount + 1 } }) : FileM BlockHeaderInfo))
  refine (and_congr_left' (Eq.congr_left hnext)).mpr ?_
  cases new with
  | none =>
    obtain ⟨rfl, rfl⟩ := Prod.mk.inj (Option.some.inj hs)
    exact ⟨rfl, hfits₂, hplace₂.trans hplace₁⟩
  | some new =>
    obtain ⟨s₃, hs₃, heq⟩ := Option.map_eq_some_iff.mp hs
    obtain ⟨rfl, rfl⟩ := Prod.mk.inj heq
    obtain ⟨hrun₃, hfits₃, hplace₃⟩ := hfits₂.write hs₃
    exact ⟨Calling.run_bind_of hrun₃ _, hfits₃, hplace₃.trans (hplace₂.trans hplace₁)⟩

theorem Fits.appendLogRecord (h : Fits s) {t t' : Logdb.TableInfo} {operation : Operation} {recordIndex : UInt32}
    {key value metadata : Option Bytes}
    (hs : s.appendLogRecord t operation recordIndex key value metadata = some (s', t'))
    (hsize : s'.file.size < 2 ^ 32) :
    ((Place.of s).appendLogRecord (.of t) operation recordIndex key value metadata).run flatServer (flat s.file) =
        some ((Place.of s', .of t'), flat s'.file) ∧ Fits s' := by
  simp only [Space.appendLogRecord, Option.bind_eq_bind, Option.bind_eq_some_iff] at hs
  obtain ⟨⟨s₀, current, new⟩, h₀, ⟨s₁, k⟩, h₁, ⟨s₂, v⟩, h₂, ⟨s₃, m⟩, h₃, r, hr, ⟨s₄, info⟩, h₄, heq⟩ := hs
  obtain ⟨rfl, rfl⟩ := Prod.mk.inj (Option.some.inj heq)
  -- the file only grows, so it has been small all the time
  have hsize₃ : s₃.file.size < 2 ^ 32 := writeLogRecord_size h₄ ▸ hsize
  have hsize₂ := lt_of_le_of_lt (writeLdbData_size_le h₃) hsize₃
  have hsize₁ := lt_of_le_of_lt (writeLdbData_size_le h₂) hsize₂
  have hsize₀ := lt_of_le_of_lt (writeLdbData_size_le h₁) hsize₁
  have hfits : Fits { s with lastRecordID := s.lastRecordID + 1 } := ⟨h.whole, h.next, h.size, h.step⟩
  obtain ⟨hrun₀, hfits₀⟩ := hfits.createNewBlockIfNeeded h₀ hsize₀
  obtain ⟨hrun₁, hfits₁⟩ := hfits₀.writeLdbData h₁ hsize₁
  obtain ⟨hrun₂, hfits₂⟩ := hfits₁.writeLdbData h₂ hsize₂
  obtain ⟨hrun₃, hfits₃⟩ := hfits₂.writeLdbData h₃ hsize₃
  obtain ⟨hrun₄, hfits₄, hplace₄⟩ := hfits₃.writeLogRecord h₄
  have hrecord : (ofOption (setFields operation recordIndex key value metadata t.records
      ⟨operation.code, recordIndex, s.lastRecordID + 1, k, v, m⟩) : FileM LogRecord).run flatServer (flat s₃.file) =
        some (r, flat s₃.file) := by
    rw [Calling.run_ofOption, hr]
    rfl
  refine ⟨?_, hfits₄⟩
  unfold Place.appendLogRecord
  refine (Calling.run_bind_of hrun₀ _).trans ?_
  refine (Calling.run_bind_of hrun₁ _).trans ?_
  refine (Calling.run_bind_of hrun₂ _).trans ?_
  refine (Calling.run_bind_of hrun₃ _).trans ?_
  refine (Calling.run_bind_of hrecord _).trans ?_
  refine (Calling.run_bind_of hrun₄ _).trans ?_
  rw [← hplace₄]
  rfl

end Writing

/-! ## Reading -/

section Reading

variable {f : FlatFile} {r : LogRecord}

theorem run_readField (hsize : f.file.size < 2 ^ 32) {field : Field} {bytes : Bytes}
    (h : Logdb.readField f.file field = some bytes) : (readField field).run flatServer f = some (bytes, f) := by
  have := run_read h hsize
  rwa [Field.start, UInt32.ofNat_toNat, UInt32.ofNat_toNat] at this

theorem run_getField (hsize : f.file.size < 2 ^ 32) {field : Field} {bytes : Bytes}
    (h : Logdb.getField f.file field = some bytes) : (getField field).run flatServer f = some (bytes, f) := by
  unfold getField
  unfold Logdb.getField at h
  by_cases hempty : field.dataSize = 0
  · rw [if_pos hempty] at h ⊢
    obtain rfl := Option.some.inj h
    rfl
  · rw [if_neg hempty] at h ⊢
    exact run_readField hsize h

theorem run_getRecord (hsize : f.file.size < 2 ^ 32) {fields : Bytes × Bytes × Bytes}
    (h : Logdb.getRecord f.file r = some fields) : (getRecord r).run flatServer f = some (fields, f) := by
  simp only [Logdb.getRecord, Option.bind_eq_bind, Option.bind_eq_some_iff] at h
  obtain ⟨key, hkey, value, hvalue, metadata, hmetadata, heq⟩ := h
  obtain rfl := Option.some.inj heq
  refine (Calling.run_bind_of (run_getField hsize hkey) _).trans ?_
  refine (Calling.run_bind_of (run_getField hsize hvalue) _).trans ?_
  exact Calling.run_bind_of (run_getField hsize hmetadata) _

theorem run_findKeyFrom (hsize : f.file.size < 2 ^ 32) {key : Bytes} (hkey : key.length < 2 ^ 32)
    {records : List LogRecord} {index : Nat} {found : Option UInt32}
    (h : Logdb.findKeyFrom f.file key index records = some found) :
    (findKeyFrom key index records).run flatServer f = some (found, f) := by
  induction records generalizing index with
  | nil =>
    obtain rfl := Option.some.inj h
    rfl
  | cons r rest ih =>
    have hdiffer : (r.key.dataSize ≠ UInt32.ofNat key.length ∨ r.key.hash ≠ doHash key) ↔
        (r.key.dataSize.toNat ≠ key.length ∨ r.key.hash ≠ doHash key) := by
      rw [ne_eq, ← UInt32.toNat_inj, toNat_ofNat hkey]
    unfold findKeyFrom
    unfold Logdb.findKeyFrom at h
    by_cases hskip : r.key.dataSize.toNat ≠ key.length ∨ r.key.hash ≠ doHash key
    · rw [if_pos hskip] at h
      rw [if_pos (hdiffer.mpr hskip)]
      exact ih h
    · rw [if_neg hskip] at h
      rw [if_neg (mt hdiffer.mp hskip)]
      obtain ⟨keyFromDb, hget, h⟩ := Option.bind_eq_some_iff.mp h
      refine (Calling.run_bind_of (run_getField hsize hget) _).trans ?_
      by_cases heq : keyFromDb = key
      · rw [if_pos heq] at h ⊢
        obtain rfl := Option.some.inj h
        rfl
      · rw [if_neg heq] at h ⊢
        exact ih h

theorem run_findKey (hsize : f.file.size < 2 ^ 32) {key : Bytes} (hkey : key.length < 2 ^ 32)
    {t : Logdb.TableInfo} {startIndex : UInt32} {found : Option UInt32}
    (h : Logdb.findKey f.file t startIndex key = some found) :
    (findKey (.of t) startIndex key).run flatServer f = some (found, f) := by
  unfold Logdb.findKey at h
  unfold findKey
  change (if startIndex.toNat < t.records.length then findKeyFrom key startIndex.toNat
    (t.records.drop startIndex.toNat) else pure none : FileM (Option UInt32)).run _ _ = _
  by_cases hin : startIndex.toNat < t.records.length
  · rw [if_pos hin] at h ⊢
    exact run_findKeyFrom hsize hkey h
  · rw [if_neg hin] at h ⊢
    obtain rfl := Option.some.inj h
    rfl

end Reading

/-! ## The operations on a table -/

/-- The program does to the file what an operation does to the space. -/
def Does (s : Space) (out : Option Logdb.Outcome) (x : FileM Outcome) : Prop :=
  ∀ s' t' index, out = some (s', t', index) → s'.file.size < 2 ^ 32 →
    x.run flatServer (flat s.file) = some ((Place.of s', .of t', index), flat s'.file) ∧ Fits s'

namespace Fits

variable {s : Space} (h : Fits s) (t : Logdb.TableInfo)

include h

theorem does_nothing (index : Option UInt32) : Does s (some (s, t, index)) (pure (Place.of s, .of t, index)) := by
  intro s' t' index' heq _
  obtain ⟨rfl, hrest⟩ := Prod.mk.inj (Option.some.inj heq)
  obtain ⟨rfl, rfl⟩ := Prod.mk.inj hrest
  exact ⟨rfl, h⟩

theorem does_log (operation : Operation) (recordIndex : UInt32) (key value metadata : Option Bytes)
    (index : Option UInt32) :
    Does s ((s.appendLogRecord t operation recordIndex key value metadata).map fun r => (r.1, r.2, index))
      (do let (p, tableInfo) ← (Place.of s).appendLogRecord (.of t) operation recordIndex key value metadata
          pure (p, tableInfo, index)) := by
  intro s' t' index' heq hsize
  obtain ⟨⟨s₁, t₁⟩, happend, heq⟩ := Option.map_eq_some_iff.mp heq
  obtain ⟨rfl, hrest⟩ := Prod.mk.inj heq
  obtain ⟨rfl, rfl⟩ := Prod.mk.inj hrest
  obtain ⟨hrun, hfits⟩ := h.appendLogRecord happend hsize
  exact ⟨Calling.run_bind_of hrun _, hfits⟩

theorem does_append (key value metadata : Option Bytes) :
    Does s (s.append t key value metadata) ((Place.of s).append (.of t) key value metadata) :=
  h.does_log t _ _ _ _ _ _

theorem does_clearAllRecords : Does s (s.clearAllRecords t) ((Place.of s).clearAllRecords (.of t)) :=
  h.does_log t _ _ _ _ _ _

theorem does_setByIndex (index : UInt32) (key value metadata : Option Bytes) :
    Does s (s.setByIndex t index key value metadata) ((Place.of s).setByIndex (.of t) index key value metadata) := by
  unfold Space.setByIndex Place.setByIndex
  have hrecords : (TableInfo.of t).records = t.records := rfl
  rw [hrecords]
  by_cases hin : index.toNat < t.records.length
  · rw [if_pos hin, if_pos hin]
    exact h.does_log t _ _ _ _ _ _
  · rw [if_neg hin, if_neg hin]
    exact h.does_nothing t _

theorem does_deleteByIndex (index : UInt32) :
    Does s (s.deleteByIndex t index) ((Place.of s).deleteByIndex (.of t) index) := by
  unfold Space.deleteByIndex Place.deleteByIndex
  have hrecords : (TableInfo.of t).records = t.records := rfl
  rw [hrecords]
  by_cases hin : index.toNat < t.records.length
  · rw [if_pos hin, if_pos hin]
    exact h.does_log t _ _ _ _ _ _
  · rw [if_neg hin, if_neg hin]
    exact h.does_nothing t _

theorem does_insertByIndex (index : UInt32) (key value metadata : Option Bytes) :
    Does s (s.insertByIndex t index key value metadata)
      ((Place.of s).insertByIndex (.of t) index key value metadata) := by
  unfold Space.insertByIndex Place.insertByIndex
  have hrecords : (TableInfo.of t).records = t.records := rfl
  rw [hrecords]
  by_cases hout : index ≠ 0 ∧ ¬ index.toNat < t.records.length
  · rw [if_pos hout, if_pos hout]
    exact h.does_nothing t _
  · rw [if_neg hout, if_neg hout]
    exact h.does_log t _ _ _ _ _ _

theorem does_find (startIndex : UInt32) {key : Bytes} (hkey : key.length < 2 ^ 32)
    {out : Option UInt32 → Option Logdb.Outcome} {x : Option UInt32 → FileM Outcome}
    (hdoes : ∀ found, Does s (out found) (x found)) :
    Does s ((Logdb.findKey s.file t startIndex key).bind out) (findKey (.of t) startIndex key >>= x) := by
  intro s' t' index heq hsize
  obtain ⟨found, hfound, heq⟩ := Option.bind_eq_some_iff.mp heq
  obtain ⟨hrun, hfits⟩ := hdoes found s' t' index heq hsize
  have hfind : (findKey (.of t) startIndex key).run flatServer (flat s.file) = some (found, flat s.file) :=
    run_findKey h.size hkey hfound
  exact ⟨(Calling.run_bind_of hfind _).trans hrun, hfits⟩

theorem does_set (startIndex : UInt32) {key : Bytes} (hkey : key.length < 2 ^ 32) (value metadata : Option Bytes) :
    Does s (s.set t startIndex key value metadata) ((Place.of s).set (.of t) startIndex key value metadata) := by
  refine h.does_find t startIndex hkey fun found => ?_
  cases found with
  | none => exact h.does_append t _ _ _
  | some index => exact h.does_setByIndex t _ _ _ _

theorem does_delete (startIndex : UInt32) {key : Bytes} (hkey : key.length < 2 ^ 32) :
    Does s (s.delete t startIndex key) ((Place.of s).delete (.of t) startIndex key) := by
  refine h.does_find t startIndex hkey fun found => ?_
  cases found with
  | none => exact h.does_nothing t _
  | some index => exact h.does_deleteByIndex t _

end Fits

/-! ## The operations on the database -/

/-- The database with the numbers of another one. -/
structure Ldb.Is (d : Ldb) (s : Logdb.Ldb) : Prop where
  place : d.place = .of s.space
  metatable : d.metatable = .of s.metatable
  tables : ∀ name : Bytes, d.tables[name]? = s.tables[name]?.map TableInfo.of

/-- A key has the size of a `DWORD`. -/
def Command.InDwords : Command → Prop
  | .deleteTable name => name.length < 2 ^ 32
  | .set _ _ key _ _ => key.length < 2 ^ 32
  | .delete _ _ key => key.length < 2 ^ 32
  | _ => True

section Database

variable {s s' : Logdb.Ldb} {d : Ldb}

theorem Ldb.Is.onTable (hd : d.Is s) {name : Bytes} {op : Space → Logdb.TableInfo → Option Logdb.Outcome}
    {x : Place → TableInfo → FileM Outcome} (hs : s.onTable name op = some s')
    (hsize : s'.space.file.size < 2 ^ 32) (hdoes : ∀ t, Does s.space (op s.space t) (x (.of s.space) (.of t))) :
    ∃ d', (d.onTable name x).run flatServer (flat s.space.file) = some (d', flat s'.space.file) ∧ d'.Is s' ∧
      Fits s'.space := by
  obtain ⟨t, ht, hs⟩ := Option.bind_eq_some_iff.mp hs
  obtain ⟨⟨sp, t', index⟩, hop, rfl⟩ := Option.map_eq_some_iff.mp hs
  obtain ⟨hrun, hfits⟩ := hdoes t sp t' index hop hsize
  have htable : (ofOption d.tables[name]? : FileM TableInfo).run flatServer (flat s.space.file) =
      some (.of t, flat s.space.file) := by
    rw [Calling.run_ofOption, hd.tables, ht]
    rfl
  refine ⟨{ d with place := .of sp, tables := d.tables.insert name (.of t') }, ?_,
    ⟨rfl, hd.metatable, map_insert hd.tables name t'⟩, hfits⟩
  refine (Calling.run_bind_of htable _).trans ?_
  rw [hd.place]
  exact (Calling.run_bind_of hrun _).trans rfl

theorem Ldb.Is.createTable (hd : d.Is s) (hfits : Fits s.space) {name : Bytes} (hs : s.createTable name = some s')
    (hsize : s'.space.file.size < 2 ^ 32) :
    ∃ d', (d.createTable name).run flatServer (flat s.space.file) = some (d', flat s'.space.file) ∧ d'.Is s' ∧
      Fits s'.space := by
  unfold Logdb.Ldb.createTable at hs
  unfold Ldb.createTable
  rw [map_contains hd.tables, hd.place, hd.metatable]
  by_cases hnew : s.tables.contains name
  · rw [if_pos hnew] at hs ⊢
    obtain rfl := Option.some.inj hs
    exact ⟨d, rfl, hd, hfits⟩
  · rw [if_neg hnew] at hs ⊢
    obtain ⟨⟨sp, t', index⟩, happend, hs⟩ := Option.bind_eq_some_iff.mp hs
    obtain ⟨record, hrecord, rfl⟩ := Option.map_eq_some_iff.mp hs
    obtain ⟨hrun, hfits'⟩ := hfits.does_append s.metatable _ _ _ sp t' index happend hsize
    have hfound : (ofOption (index.bind fun index => t'.records[index.toNat]?) : FileM LogRecord).run flatServer
        (flat sp.file) = some (record, flat sp.file) := by
      rw [Calling.run_ofOption, hrecord]
      rfl
    have hoffset : UInt32.ofNat record.value.start = record.value.dataOffset := UInt32.ofNat_toNat
    have hinsert := map_insert hd.tables name (f := TableInfo.of)
      ⟨name, ⟨⟨defaultBlockSize, 0, 0⟩, record.value.start⟩, [], [⟨record.value.start, []⟩]⟩
    refine ⟨⟨.of sp, .of t', _⟩, ?_, ⟨rfl, rfl, hinsert⟩, hfits'⟩
    refine (Calling.run_bind_of hrun _).trans ?_
    refine (Calling.run_bind_of hfound _).trans ?_
    simp only [TableInfo.of, BlockHeaderInfo.of, hoffset]
    rfl

theorem Ldb.Is.deleteTable (hd : d.Is s) (hfits : Fits s.space) {name : Bytes} (hname : name.length < 2 ^ 32)
    (hnames : ∀ t, s.tables[name]? = some t → t.name = name) (hs : s.deleteTable name = some s')
    (hsize : s'.space.file.size < 2 ^ 32) :
    ∃ d', (d.deleteTable name).run flatServer (flat s.space.file) = some (d', flat s'.space.file) ∧ d'.Is s' ∧
      Fits s'.space := by
  obtain ⟨t, ht, hs⟩ := Option.bind_eq_some_iff.mp hs
  obtain ⟨found, hfound, hs⟩ := Option.bind_eq_some_iff.mp hs
  have htable : (ofOption d.tables[name]? : FileM TableInfo).run flatServer (flat s.space.file) =
      some (.of t, flat s.space.file) := by
    rw [Calling.run_ofOption, hd.tables, ht]
    rfl
  have hfind : (findKey (.of s.metatable) 0 t.name).run flatServer (flat s.space.file) =
      some (found, flat s.space.file) := run_findKey hfits.size (by rw [hnames t ht]; exact hname) hfound
  unfold Ldb.deleteTable
  rw [Calling.run_bind_of htable, hd.metatable, hd.place]
  have hnext {x : Option UInt32 → FileM Ldb} := Calling.run_bind_of hfind x
  cases found with
  | none =>
    obtain rfl := Option.some.inj hs
    exact ⟨d, hnext.trans rfl, hd, hfits⟩
  | some index =>
    obtain ⟨⟨sp, t', index'⟩, hdelete, rfl⟩ := Option.map_eq_some_iff.mp hs
    obtain ⟨hrun, hfits'⟩ := hfits.does_deleteByIndex s.metatable index sp t' index' hdelete hsize
    refine ⟨_, hnext.trans ((Calling.run_bind_of hrun _).trans rfl), ⟨rfl, rfl, ?_⟩, hfits'⟩
    exact map_erase hd.tables t.name

theorem Ldb.Is.apply (hd : d.Is s) (hfits : Fits s.space)
    (hnames : ∀ (name : Bytes) t, s.tables[name]? = some t → t.name = name) {c : Command} (hc : Command.InDwords c)
    (hs : s.apply c = some s') (hsize : s'.space.file.size < 2 ^ 32) :
    ∃ d', (d.apply c).run flatServer (flat s.space.file) = some (d', flat s'.space.file) ∧ d'.Is s' ∧
      Fits s'.space := by
  unfold Logdb.Ldb.apply at hs
  unfold Ldb.apply
  cases c with
  | createTable name => exact hd.createTable hfits hs hsize
  | deleteTable name => exact hd.deleteTable hfits hc (hnames name) hs hsize
  | append => exact hd.onTable hs hsize fun t => hfits.does_append t _ _ _
  | set => exact hd.onTable hs hsize fun t => hfits.does_set t _ hc _ _
  | setByIndex => exact hd.onTable hs hsize fun t => hfits.does_setByIndex t _ _ _ _
  | insertByIndex => exact hd.onTable hs hsize fun t => hfits.does_insertByIndex t _ _ _ _
  | delete => exact hd.onTable hs hsize fun t => hfits.does_delete t _ hc
  | deleteByIndex => exact hd.onTable hs hsize fun t => hfits.does_deleteByIndex t _
  | clearAllRecords => exact hd.onTable hs hsize fun t => hfits.does_clearAllRecords t

end Database

end Tiodb.Logdb.OnPages
