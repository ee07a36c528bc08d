import Tiodb.Ldb.ByKey
import Tiodb.Ldb.CachedRuns

/-!
# A file that has outgrown its offsets

Behind byte 2^32 the `DWORD`s of `Ldb` wrap. The next data then goes to the start of the
file, over the header and the first blocks: a key that is there is not found any more, and
a load begins the record numbers again.
-/

namespace Tiodb.Logdb.OnPages

open Lib
open Calling (ofOption)

/-! ## One call on a file of which nothing is cached -/

section Calls

variable {f : FlatFile} {p p' : Place} {t : TableInfo}

theorem run_write_of {offset : UInt32} {bytes : Bytes} {file : File} (hwrite : f.file.write offset.toNat bytes = some file)
    (hpages : f.pageSize ∣ f.file.size) (hdword : offset.toNat + bytes.length ≤ 2 ^ 32) :
    (Paged.write offset bytes).run flatServer f = some ((), { f with file := file }) := by
  unfold Paged.write
  rw [Calling.run_ask, flatServer, if_pos ⟨hpages, hdword⟩, hwrite]
  rfl

theorem run_read_of {offset size : UInt32} {bytes : Bytes} (hread : f.file.read offset.toNat size.toNat = some bytes)
    (hdword : offset.toNat + size.toNat ≤ 2 ^ 32) : (Paged.read offset size).run flatServer f = some (bytes, f) := by
  unfold Paged.read
  rw [Calling.run_ask, flatServer, if_pos hdword, hread]
  rfl

theorem run_ensureSpace_enough {size : UInt32}
    (henough : ¬ UInt32.ofNat f.file.size - p.nextDataOffset < size) :
    (p.ensureSpace size).run flatServer f = some ((), f) := by
  unfold Place.ensureSpace
  rw [Calling.run_bind_of run_getFileSize]
  dsimp only
  rw [if_neg henough]
  rfl

theorem run_ensureSpace_step {size : UInt32} (hsmall : UInt32.ofNat f.file.size - p.nextDataOffset < size)
    (hstep : (size - (UInt32.ofNat f.file.size - p.nextDataOffset)) / UInt32.ofNat f.pageSize + 1 < p.growPagesStep)
    (hpages : f.pageSize ∣ f.file.size) (hsize : f.file.size < 2 ^ 32)
    (hgrow : p.growPagesStep.toNat * f.pageSize < 2 ^ 32) :
    (p.ensureSpace size).run flatServer f =
      some ((), { f with file := f.file.grow (p.growPagesStep.toNat * f.pageSize) uninitializedByte }) := by
  unfold Place.ensureSpace
  rw [Calling.run_bind_of run_getFileSize]
  dsimp only
  rw [if_pos hsmall]
  unfold Place.leaveRoom
  rw [Calling.run_bind_of run_getPageSize]
  dsimp only
  rw [if_pos hstep]
  unfold Paged.growFile
  rw [Calling.run_ask, flatServer, if_pos ⟨hpages, hsize, hgrow⟩]

theorem run_writeLdbData {b : Bytes} {g : FlatFile} {file : File}
    (hensure : (p.ensureSpace (UInt32.ofNat b.length)).run flatServer f = some ((), g))
    (hwrite : g.file.write p.nextDataOffset.toNat b = some file) (hpages : g.pageSize ∣ g.file.size)
    (hdword : p.nextDataOffset.toNat + b.length ≤ 2 ^ 32) :
    (p.writeLdbData (some b)).run flatServer f =
      some (({ p with nextDataOffset := p.nextDataOffset + UInt32.ofNat b.length },
        ⟨p.nextDataOffset, UInt32.ofNat b.length, doHash b⟩), { g with file := file }) := by
  unfold Place.writeLdbData
  rw [Calling.run_bind_of hensure]
  exact Calling.run_bind_of (run_write_of hwrite hpages hdword) _

theorem run_append {key : Bytes} {value : Option Bytes} {p₁ p₂ : Place} {k v : Field} {f₁ f₂ : FlatFile}
    (block record : Nat)
    (hroom : checkNeedForNewBlock t.lastBlockHeaderInfo.blockHeader = false)
    (hkey : ({ p with lastRecordID := p.lastRecordID + 1 }.writeLdbData (some key)).run flatServer f =
      some ((p₁, k), f₁))
    (hvalue : (p₁.writeLdbData value).run flatServer f₁ = some ((p₂, v), f₂))
    (hpages : f₂.pageSize ∣ f₂.file.size) (hblock : t.lastBlockHeaderInfo.offset.toNat = block)
    (hrecord : (t.lastBlockHeaderInfo.offset + 12 + 48 * t.lastBlockHeaderInfo.blockHeader.usedCount).toNat = record)
    (hinside : block ≤ record ∧ record + 48 ≤ block + 4096) (hend : block + 4096 ≤ 2 ^ 32)
    (hsize : block + 4096 ≤ f₂.file.size) :
    let index := UInt32.ofNat t.records.length
    let header := { t.lastBlockHeaderInfo.blockHeader with
      usedCount := t.lastBlockHeaderInfo.blockHeader.usedCount + 1 }
    ∃ file, (p.append t (some key) value none).run flatServer f =
        some ((p₂, { t with
          lastBlockHeaderInfo := ⟨header, t.lastBlockHeaderInfo.offset⟩
          records := t.records ++ [⟨1, index, p.lastRecordID + 1, k, v, .zero⟩] }, some index), { f₂ with file := file }) ∧
      f₂.file.Keeps (fun i => i < block ∨ block + 4096 ≤ i) file ∧ file.size = f₂.file.size := by
  intro index header
  obtain ⟨hlow, hhigh⟩ := hinside
  let r : LogRecord := ⟨1, index, p.lastRecordID + 1, k, v, .zero⟩
  obtain ⟨file₁, hfile₁, hsize₁⟩ : ∃ file₁, f₂.file.write record r.encode = some file₁ ∧ file₁.size = f₂.file.size :=
    File.exists_write (by rw [LogRecord.length_encode]; exact hhigh.trans hsize)
  obtain ⟨file₂, hfile₂, hsize₂⟩ : ∃ file₂, file₁.write block header.encode = some file₂ ∧ file₂.size = file₁.size :=
    File.exists_write (by
      rw [BlockHeader.length_encode, hsize₁]
      exact (Nat.add_le_add_left (by decide) _).trans hsize)
  have hlog : (Paged.write (t.lastBlockHeaderInfo.offset + 12 + 48 * t.lastBlockHeaderInfo.blockHeader.usedCount)
      r.encode).run flatServer f₂ = some ((), { f₂ with file := file₁ }) := by
    refine run_write_of (by rw [hrecord]; exact hfile₁) hpages ?_
    rw [hrecord, LogRecord.length_encode]
    exact hhigh.trans hend
  have hheader : (Paged.write t.lastBlockHeaderInfo.offset header.encode).run flatServer { f₂ with file := file₁ } =
      some ((), { f₂ with file := file₂ }) := by
    refine run_write_of (by rw [hblock]; exact hfile₂) (by exact hsize₁ ▸ hpages) ?_
    rw [hblock, BlockHeader.length_encode]
    exact (Nat.add_le_add_left (by decide) _).trans hend
  refine ⟨file₂, ?_, ?_, hsize₂.trans hsize₁⟩
  · have hnone : ({ p with lastRecordID := p.lastRecordID + 1 }.createNewBlockIfNeeded t.lastBlockHeaderInfo).run
        flatServer f = some (({ p with lastRecordID := p.lastRecordID + 1 }, t.lastBlockHeaderInfo, none), f) := by
      unfold Place.createNewBlockIfNeeded
      rw [if_pos (by simp [hroom])]
      rfl
    have hwrite : (writeLogRecord t.lastBlockHeaderInfo none r).run flatServer f₂ =
        some (⟨header, t.lastBlockHeaderInfo.offset⟩, { f₂ with file := file₂ }) := by
      unfold writeLogRecord
      exact (Calling.run_bind_of hlog _).trans (Calling.run_bind_of hheader _)
    have hlogged : (p.appendLogRecord t .append index (some key) value none).run flatServer f =
        some ((p₂, { t with
          lastBlockHeaderInfo := ⟨header, t.lastBlockHeaderInfo.offset⟩
          records := t.records ++ [r] }), { f₂ with file := file₂ }) := by
      unfold Place.appendLogRecord
      refine (Calling.run_bind_of hnone _).trans ((Calling.run_bind_of hkey _).trans
        ((Calling.run_bind_of hvalue _).trans ?_))
      exact Calling.run_bind_of hwrite _
    unfold Place.append
    exact Calling.run_bind_of hlogged _
  · refine (File.keeps_of_write hfile₁ fun i hi hi' => ?_).trans (File.keeps_of_write hfile₂ fun i hi hi' => ?_)
    · rw [LogRecord.length_encode, logRecordSize] at hi'
      omega
    · rw [BlockHeader.length_encode, blockHeaderSize] at hi'
      omega

theorem run_set_new {d : Ldb} {name key : Bytes} {value : Option Bytes} {t' : TableInfo} {index : Option UInt32}
    {g : FlatFile} (ht : d.tables[name]? = some t)
    (hfind : (findKey t 0 key).run flatServer f = some (none, f))
    (happend : (d.place.append t (some key) value none).run flatServer f = some ((p', t', index), g)) :
    (d.apply (.set name 0 key value none)).run flatServer f =
      some (({ d with place := p', tables := d.tables.insert name t' } : Ldb), g) := by
  have htable : (ofOption d.tables[name]? : FileM TableInfo).run flatServer f = some (t, f) := by
    rw [Calling.run_ofOption, ht]
    rfl
  have hset : (d.place.set t 0 key value none).run flatServer f = some ((p', t', index), g) :=
    (Calling.run_bind_of hfind _).trans happend
  exact (Calling.run_bind_of htable _).trans (Calling.run_bind_of hset _)

end Calls

/-! ## A file that outgrows them -/

theorem run_create : ∃ d₀ file₀ d file,
    (Ldb.initializeFile 525312).run flatServer (flat .empty) = some (d₀, flat file₀) ∧
      (d₀.apply (.createTable (ascii "t"))).run flatServer (flat file₀) = some (d, flat file) ∧
      d.place = ⟨8209, 525312, 1⟩ ∧ d.tables[ascii "t"]? = some ⟨ascii "t", ⟨⟨4096, 0, 0⟩, 4113⟩, []⟩ ∧
      file.size = 2 ^ 31 + 2 ^ 22 := by
  obtain ⟨s₀, hcreate, hinv, -⟩ := Logdb.Ldb.create_inv 525312
  have hview : ((Logdb.Ldb.create 525312).bind fun s₀ => (s₀.createTable (ascii "t")).map fun s =>
      (s₀.space.file.size, Place.of s.space, s.tables[ascii "t"]?.map TableInfo.of, s.space.file.size)) =
      some (2 ^ 31 + 2 ^ 22, ⟨8209, 525312, 1⟩, some ⟨ascii "t", ⟨⟨4096, 0, 0⟩, 4113⟩, []⟩, 2 ^ 31 + 2 ^ 22) := by
    decide +kernel
  rw [hcreate, Option.bind_some] at hview
  obtain ⟨s, hs, hview⟩ := Option.map_eq_some_iff.mp hview
  simp only [Prod.mk.injEq] at hview
  obtain ⟨hsize₀, hplace, htable, hsize⟩ := hview
  obtain ⟨d₀, hinit, hd₀, hfits₀⟩ := run_initializeFile (by decide) hcreate (by rw [hsize₀]; decide)
  obtain ⟨d, hrun, hd, -⟩ := hd₀.createTable hfits₀ hs (by rw [hsize]; decide)
  exact ⟨d₀, _, d, _, hinit, hrun, hd.place.trans hplace, (hd.tables _).trans htable, hsize⟩

/-- The value ends at byte 2^32, so the next data go to byte 0. -/
theorem run_outgrow {d : Ldb} {file : File} {value : Bytes} (hplace : d.place = ⟨8209, 525312, 1⟩)
    (ht : d.tables[ascii "t"]? = some ⟨ascii "t", ⟨⟨4096, 0, 0⟩, 4113⟩, []⟩) (hsize : file.size = 2 ^ 31 + 2 ^ 22)
    (hvalue : value.length = 2 ^ 32 - 8210) :
    ∃ d' file' r, (d.apply (.set (ascii "t") 0 (ascii "k") (some value) none)).run flatServer (flat file) =
        some (d', flat file') ∧
      d'.place = ⟨0, 525312, 2⟩ ∧ d'.tables[ascii "t"]? = some ⟨ascii "t", ⟨⟨4096, 1, 0⟩, 4113⟩, [r]⟩ ∧
      r.key = ⟨8209, 1, doHash (ascii "k")⟩ ∧ file'.size = 2 ^ 32 + 2 ^ 23 := by
  obtain ⟨file₁, hfile₁, hsize₁⟩ : ∃ file₁, file.write 8209 (ascii "k") = some file₁ ∧ file₁.size = file.size :=
    File.exists_write (by rw [hsize]; decide)
  rw [hsize] at hsize₁
  let file₂ := file₁.grow (525312 * 4096) uninitializedByte
  have hsize₂ : file₂.size = 2 ^ 32 + 2 ^ 23 := by
    change file₁.size + 525312 * 4096 = _
    rw [hsize₁]
    rfl
  obtain ⟨file₃, hfile₃, hsize₃⟩ : ∃ file₃, file₂.write 8210 value = some file₃ ∧ file₃.size = file₂.size :=
    File.exists_write (by rw [hsize₂, hvalue]; decide)
  rw [hsize₂] at hsize₃
  have hlength : UInt32.ofNat value.length = 4294959086 := by
    rw [hvalue]
    rfl
  have hkey : (Place.writeLdbData ⟨8209, 525312, 2⟩ (some (ascii "k"))).run flatServer (flat file) =
      some ((⟨8210, 525312, 2⟩, ⟨8209, 1, doHash (ascii "k")⟩), flat file₁) := by
    refine run_writeLdbData (run_ensureSpace_enough ?_) hfile₁ ?_ (by decide)
    · change ¬ UInt32.ofNat file.size - _ < _
      rw [hsize]
      decide
    · change 4096 ∣ file.size
      rw [hsize]
      decide
  have hdata : (Place.writeLdbData ⟨8210, 525312, 2⟩ (some value)).run flatServer (flat file₁) =
      some ((⟨0, 525312, 2⟩, ⟨8210, 4294959086, doHash value⟩), flat file₃) := by
    have hgrow : (Place.ensureSpace ⟨8210, 525312, 2⟩ (UInt32.ofNat value.length)).run flatServer (flat file₁) =
        some ((), flat file₂) := by
      have hfirst : (flat file₁).file.size = 2 ^ 31 + 2 ^ 22 := hsize₁
      have hpage : (flat file₁).pageSize = 4096 := rfl
      have hnext : (⟨8210, 525312, 2⟩ : Place).nextDataOffset = 8210 := rfl
      have hstep : (⟨8210, 525312, 2⟩ : Place).growPagesStep = 525312 := rfl
      rw [hlength]
      exact run_ensureSpace_step (by rw [hfirst, hnext]; decide) (by rw [hfirst, hpage, hnext, hstep]; decide)
        (by rw [hfirst, hpage]; decide) (by rw [hfirst]; decide) (by rw [hpage, hstep]; decide)
    have hwrite := run_writeLdbData hgrow hfile₃ (show 4096 ∣ file₂.size by rw [hsize₂]; decide)
      (show 8210 + value.length ≤ 2 ^ 32 by rw [hvalue]; decide)
    rw [hlength] at hwrite
    exact hwrite
  obtain ⟨file₄, happend, -, hsize₄⟩ := run_append (p := ⟨8209, 525312, 1⟩)
    (t := ⟨ascii "t", ⟨⟨4096, 0, 0⟩, 4113⟩, []⟩) 4113 4125 (by decide) hkey hdata
    (show 4096 ∣ file₃.size by rw [hsize₃]; decide) rfl rfl (by decide) (by decide)
    (show 4113 + 4096 ≤ file₃.size by rw [hsize₃]; decide)
  have hset := run_set_new ht rfl (hplace ▸ happend)
  exact ⟨_, file₄, _, hset, rfl, Std.ExtTreeMap.getElem?_insert_self, rfl, hsize₄.trans hsize₃⟩

/-- The next key goes over the first bytes of the file, and only the block of the table is written after it. -/
theorem run_overwrite {d : Ldb} {file : File} {r : LogRecord} {front : Bytes} (hplace : d.place = ⟨0, 525312, 2⟩)
    (ht : d.tables[ascii "t"]? = some ⟨ascii "t", ⟨⟨4096, 1, 0⟩, 4113⟩, [r]⟩)
    (hr : r.key = ⟨8209, 1, doHash (ascii "k")⟩) (hsize : file.size = 2 ^ 32 + 2 ^ 23)
    (hfront : front.length = 8210) :
    ∃ (d' : Ldb) (file' file₁ : File) (r' : LogRecord),
      (d.apply (.set (ascii "t") 0 front none none)).run flatServer (flat file) = some (d', flat file') ∧
      d'.place.lastRecordID = 3 ∧ d'.tables[ascii "t"]? = some ⟨ascii "t", ⟨⟨4096, 2, 0⟩, 4113⟩, [r, r']⟩ ∧
      r'.key.dataSize = 8210 ∧ file₁.read 0 8210 = some front ∧
      file₁.Keeps (fun i => i < 4113 ∨ 8209 ≤ i) file' ∧ file'.size = 2 ^ 32 + 2 ^ 23 := by
  obtain ⟨file₁, hfile₁, hsize₁⟩ : ∃ file₁, file.write 0 front = some file₁ ∧ file₁.size = file.size :=
    File.exists_write (by rw [hsize, hfront]; decide)
  have hlength : UInt32.ofNat front.length = 8210 := by
    rw [hfront]
    rfl
  have hkey : (Place.writeLdbData ⟨0, 525312, 3⟩ (some front)).run flatServer (flat file) =
      some ((⟨8210, 525312, 3⟩, ⟨0, 8210, doHash front⟩), flat file₁) := by
    have hpages : 4096 ∣ file.size := by
      rw [hsize]
      decide
    have henough : ¬ UInt32.ofNat (flat file).file.size - (⟨0, 525312, 3⟩ : Place).nextDataOffset < 8210 := by
      change ¬ UInt32.ofNat file.size - _ < _
      rw [hsize]
      decide
    have hwrite := run_writeLdbData (p := ⟨0, 525312, 3⟩) (f := flat file) (b := front)
      (run_ensureSpace_enough (by rw [hlength]; exact henough)) hfile₁ hpages (by rw [hfront]; decide)
    rw [hlength] at hwrite
    exact hwrite
  have hdata : (Place.writeLdbData ⟨8210, 525312, 3⟩ none).run flatServer (flat file₁) =
      some ((⟨8210, 525312, 3⟩, .zero), flat file₁) := rfl
  have hfind : (findKey ⟨ascii "t", ⟨⟨4096, 1, 0⟩, 4113⟩, [r]⟩ 0 front).run flatServer (flat file) =
      some (none, flat file) := by
    have hskip : r.key.dataSize ≠ UInt32.ofNat front.length ∨ r.key.hash ≠ doHash front :=
      .inl (by rw [hr, hlength]; decide)
    change (findKeyFrom front 0 [r]).run flatServer (flat file) = _
    rw [findKeyFrom, if_pos hskip]
    rfl
  have hroom : checkNeedForNewBlock ⟨4096, 1, 0⟩ = false := by decide
  obtain ⟨file₂, happend, hk, hsize₂⟩ := run_append (p := ⟨0, 525312, 2⟩)
    (t := ⟨ascii "t", ⟨⟨4096, 1, 0⟩, 4113⟩, [r]⟩) 4113 4173 hroom hkey hdata
    (show 4096 ∣ file₁.size by rw [hsize₁, hsize]; decide) rfl rfl (by decide) (by decide)
    (show 4113 + 4096 ≤ file₁.size by rw [hsize₁, hsize]; decide)
  have hset := run_set_new ht hfind (hplace ▸ happend)
  have hread := File.read_write hfile₁
  rw [hfront] at hread
  exact ⟨_, file₂, file₁, _, hset, rfl, Std.ExtTreeMap.getElem?_insert_self, rfl, hread,
    hk, hsize₂.trans (hsize₁.trans hsize)⟩

/-- A key that goes over the start of the file: there it has the headers of a new file, and a 0 where the other key was. -/
def frontKey : Bytes :=
  FileHeader.encode ⟨ldbMagic, 1, 0, 16⟩ ++ (BlockHeader.encode ⟨4096, 0, 0⟩ ++ List.replicate 8182 0)

theorem length_frontKey : frontKey.length = 8210 := by
  rw [frontKey, List.length_append, List.length_append, List.length_replicate, FileHeader.length_encode,
    BlockHeader.length_encode]
  rfl

theorem drop_frontKey {m : Nat} (h : 28 ≤ m) : frontKey.drop m = List.replicate (8210 - m) 0 := by
  have hheader : (FileHeader.encode ⟨ldbMagic, 1, 0, 16⟩).length ≤ m := by
    rw [FileHeader.length_encode, fileHeaderSize]
    omega
  have hblock : (BlockHeader.encode ⟨4096, 0, 0⟩).length ≤ m - fileHeaderSize := by
    rw [BlockHeader.length_encode, blockHeaderSize, fileHeaderSize]
    omega
  have hrest : 8182 - (m - fileHeaderSize - blockHeaderSize) = 8210 - m := by
    rw [blockHeaderSize, fileHeaderSize]
    omega
  rw [frontKey, List.drop_append, List.drop_eq_nil_of_le hheader, List.nil_append, FileHeader.length_encode,
    List.drop_append, List.drop_eq_nil_of_le hblock, List.nil_append, BlockHeader.length_encode, List.drop_replicate,
    hrest]

/-- What a file has where `frontKey` was written, less the block of the table. -/
structure Overwritten (file : File) : Prop where
  size : file.size = 2 ^ 32 + 2 ^ 23
  header : file.read 0 16 = some (FileHeader.encode ⟨ldbMagic, 1, 0, 16⟩)
  block : file.read 16 12 = some (BlockHeader.encode ⟨4096, 0, 0⟩)
  key : file.read 8209 1 = some [0]

theorem overwritten_of_keeps {file file' : File} (hread : file.read 0 8210 = some frontKey)
    (hk : file.Keeps (fun i => i < 4113 ∨ 8209 ≤ i) file') (hsize : file'.size = 2 ^ 32 + 2 ^ 23) : Overwritten file' := by
  have hrest := File.read_drop hread (show 16 ≤ 8210 by decide)
  have hlast := File.read_drop hread (show 8209 ≤ 8210 by decide)
  refine ⟨hsize, ?_, ?_, ?_⟩
  · exact File.read_of_keeps (File.read_take hread (by decide)) hk fun i _ hi => .inl (by omega)
  · exact File.read_of_keeps (File.read_take hrest (by decide)) hk fun i _ hi => .inl (by omega)
  · rw [drop_frontKey (by decide)] at hlast
    exact File.read_of_keeps hlast hk fun i hi _ => .inr hi

/-- The record of the first key is there, and the byte that it says is its key is another one. -/
theorem Overwritten.run_get {file : File} {r r' : LogRecord} (h : Overwritten file) (info : BlockHeaderInfo)
    (hr : r.key = ⟨8209, 1, doHash (ascii "k")⟩) (hr' : r'.key.dataSize = 8210) :
    (get ⟨ascii "t", info, [r, r']⟩ 0 (ascii "k")).run flatServer (flat file) = some (none, flat file) := by
  have hsame : ¬ (r.key.dataSize ≠ UInt32.ofNat (ascii "k").length ∨ r.key.hash ≠ doHash (ascii "k")) := by
    rw [hr]
    decide
  have hskip : r'.key.dataSize ≠ UInt32.ofNat (ascii "k").length ∨ r'.key.hash ≠ doHash (ascii "k") :=
    .inl (by rw [hr']; decide)
  have hfield : (getField r.key).run flatServer (flat file) = some ([0], flat file) := by
    rw [hr]
    exact run_read_of h.key (by decide)
  have hfind : (findKey ⟨ascii "t", info, [r, r']⟩ 0 (ascii "k")).run flatServer (flat file) = some (none, flat file) := by
    change (findKeyFrom (ascii "k") 0 [r, r']).run flatServer (flat file) = _
    rw [findKeyFrom, if_neg hsame, Calling.run_bind_of hfield, if_neg (by decide), findKeyFrom, if_pos hskip]
    rfl
  exact Calling.run_bind_of hfind _

theorem run_loadAllBlocks_empty {f : FlatFile} (offset : UInt32) {size : UInt32} {fuel : Nat} (p : Place) (t : TableInfo)
    (hread : f.file.read offset.toNat 12 = some (BlockHeader.encode ⟨size, 0, 0⟩)) (hoffset : offset ≠ 0)
    (hdword : offset.toNat + 12 ≤ 2 ^ 32) (hfuel : fuel ≠ 0) :
    (loadAllBlocks fuel offset p t).run flatServer f =
      some ((p.past (offset + size), { t with lastBlockHeaderInfo := ⟨⟨size, 0, 0⟩, offset⟩ }), f) := by
  obtain ⟨fuel, rfl⟩ := Nat.exists_eq_succ_of_ne_zero hfuel
  have hdecode : (ofOption (BlockHeader.decode (BlockHeader.encode ⟨size, 0, 0⟩)) : FileM BlockHeader).run flatServer f =
      some (⟨size, 0, 0⟩, f) := by
    rw [BlockHeader.decode_encode]
    rfl
  have hblock : (loadBlock p { t with lastBlockHeaderInfo := { t.lastBlockHeaderInfo with offset := offset } }).run
      flatServer f = some ((p.past (offset + size), { t with lastBlockHeaderInfo := ⟨⟨size, 0, 0⟩, offset⟩ }), f) := by
    unfold loadBlock
    exact (Calling.run_bind_of (run_read_of hread hdword) _).trans ((Calling.run_bind_of hdecode _).trans rfl)
  rw [loadAllBlocks, if_neg hoffset, Calling.run_bind_of hblock]
  cases fuel <;> rfl

/-- A load finds the headers of a new file. -/
theorem Overwritten.run_loadFile {file : File} (h : Overwritten file) (growPagesStep : UInt32) :
    ∃ d, (loadFile growPagesStep).run flatServer (flat file) = some (d, flat file) ∧ d.place.lastRecordID = 0 := by
  let large : FlatFile := { file := file, pageSize := 4194304 }
  have hsize : (UInt32.ofNat (flat file).file.size).toNat ≠ 0 := by
    change (UInt32.ofNat file.size).toNat ≠ 0
    rw [h.size]
    decide
  have hread : (Paged.read 0 16).run flatServer (flat file) =
      some (FileHeader.encode ⟨ldbMagic, 1, 0, 16⟩, flat file) := run_read_of h.header (by decide)
  have hdecode : (ofOption (FileHeader.decode (FileHeader.encode ⟨ldbMagic, 1, 0, 16⟩)) : FileM FileHeader).run
      flatServer (flat file) = some (⟨ldbMagic, 1, 0, 16⟩, flat file) := by
    rw [FileHeader.decode_encode]
    rfl
  have hwide : (Paged.setPageSize 4194304).run flatServer (flat file) = some ((), large) :=
    run_setPageSize (by decide) (by decide)
  have hnarrow : (Paged.setPageSize (UInt32.ofNat 4096)).run flatServer large = some ((), flat file) :=
    run_setPageSize (by decide) (by decide)
  have hchain := run_loadAllBlocks_empty (f := large) 16 ⟨0, growPagesStep, 0⟩ (unloaded []) h.block
    (by decide) (by decide) hsize
  refine ⟨⟨⟨4112, growPagesStep, 0⟩, ⟨[], ⟨⟨4096, 0, 0⟩, 16⟩, []⟩, ∅⟩, ?_, rfl⟩
  unfold loadFile
  refine (Calling.run_bind_of run_getFileSize _).trans ((Calling.run_bind_of hread _).trans
    ((Calling.run_bind_of hdecode _).trans ?_))
  rw [if_neg (by decide)]
  refine (Calling.run_bind_of run_getPageSize _).trans ((Calling.run_bind_of hwide _).trans
    ((Calling.run_bind_of hchain _).trans ?_))
  exact Calling.run_bind_of hnarrow _

/-! ## On the cache -/

/-- A value that ends at byte 2^32, and then a key over the start of the file. -/
def outgrowing (value : Bytes) : List ByKey := [.set (ascii "k") (some value) none, .set frontKey none none]

def outgrowingActions (value : Bytes) : List Action :=
  .command (.createTable (ascii "t")) :: (outgrowing value).map fun op => .command (op.command (ascii "t"))

theorem run_outgrowing {value : Bytes} (hvalue : value.length = 2 ^ 32 - 8210) (memory : Memory) :
    ∃ c₀ c file info r r', (Ldb.initializeFile 525312).run (pagedServer memory) { file := .empty } = some c₀ ∧
      Lib.run (Ldb.step memory) c₀ (outgrowingActions value) = some c ∧ Behind (flat file) c.2 ∧ Overwritten file ∧
      c.1.place.lastRecordID = 3 ∧ c.1.tables[ascii "t"]? = some ⟨ascii "t", info, [r, r']⟩ ∧
      r.key = ⟨8209, 1, doHash (ascii "k")⟩ ∧ r'.key.dataSize = 8210 := by
  obtain ⟨d₀, file₀, d₁, file₁, hinit, hcreate, hplace, ht, hsize⟩ := run_create
  obtain ⟨d₂, file₂, r, hset, hplace₂, ht₂, hr, hsize₂⟩ := run_outgrow hplace ht hsize hvalue
  obtain ⟨d₃, file₃, file₄, r', hset₃, hlast, ht₃, hr', hread, hk, hsize₃⟩ :=
    run_overwrite hplace₂ ht₂ hr hsize₂ length_frontKey
  obtain ⟨paged₀, hpaged₀, hbehind₀⟩ := Calling.Follows.run (behind_follows memory) (behind_open .empty) hinit
  obtain ⟨paged₁, hpaged₁, hbehind₁⟩ := Calling.Follows.run (behind_follows memory) hbehind₀ hcreate
  obtain ⟨paged₂, hpaged₂, hbehind₂⟩ := Calling.Follows.run (behind_follows memory) hbehind₁ hset
  obtain ⟨paged₃, hpaged₃, hbehind₃⟩ := Calling.Follows.run (behind_follows memory) hbehind₂ hset₃
  exact ⟨(d₀, paged₀), (d₃, paged₃), file₃, _, r, r', hpaged₀,
    Lib.run_cons.mpr ⟨(d₁, paged₁), hpaged₁, Lib.run_cons.mpr ⟨(d₂, paged₂), hpaged₂,
      Lib.run_cons.mpr ⟨(d₃, paged₃), hpaged₃, rfl⟩⟩⟩, hbehind₃,
    overwritten_of_keeps hread hk hsize₃, hlast, ht₃, hr, hr'⟩

theorem get_after_outgrowing {value : Bytes} (hvalue : value.length = 2 ^ 32 - 8210) (memory : Memory) :
    ∃ c₀ c t paged, (Ldb.initializeFile 525312).run (pagedServer memory) { file := .empty } = some c₀ ∧
      Lib.run (Ldb.step memory) c₀ (outgrowingActions value) = some c ∧ c.1.tables[ascii "t"]? = some t ∧
      (get t 0 (ascii "k")).run (pagedServer memory) c.2 = some (none, paged) ∧
      remembered (outgrowing value) (ascii "k") = some (value, []) := by
  obtain ⟨c₀, c, file, info, r, r', hinit, hrun, hbehind, hover, -, ht, hr, hr'⟩ := run_outgrowing hvalue memory
  obtain ⟨paged, hget, -⟩ := Calling.Follows.run (behind_follows memory) hbehind (hover.run_get info hr hr')
  refine ⟨c₀, c, _, paged, hinit, hrun, ht, hget, ?_⟩
  have hne : ascii "k" ≠ frontKey := fun h => by
    have hlength := congrArg List.length h
    rw [length_frontKey] at hlength
    cases hlength
  simp [outgrowing, remembered, remember, Function.update_of_ne hne]

/-- A key that was set is not found: the next key was written over the start of the file, and over the key. -/
theorem wrapped_offset_hides_key :
    ∃ c₀ c t paged, (Ldb.initializeFile 525312).run (pagedServer fun _ _ => 205) { file := .empty } = some c₀ ∧
      Lib.run (Ldb.step fun _ _ => 205) c₀ (outgrowingActions (List.replicate (2 ^ 32 - 8210) 0)) = some c ∧
      c.1.tables[ascii "t"]? = some t ∧
      (get t 0 (ascii "k")).run (pagedServer fun _ _ => 205) c.2 = some (none, paged) ∧
      remembered (outgrowing (List.replicate (2 ^ 32 - 8210) 0)) (ascii "k") =
        some (List.replicate (2 ^ 32 - 8210) 0, []) :=
  get_after_outgrowing List.length_replicate fun _ _ => 205

theorem load_after_outgrowing {value : Bytes} (hvalue : value.length = 2 ^ 32 - 8210) (memory : Memory) :
    ∃ c₀ c c', (Ldb.initializeFile 525312).run (pagedServer memory) { file := .empty } = some c₀ ∧
      Lib.run (Ldb.step memory) c₀ (outgrowingActions value) = some c ∧ c.1.place.lastRecordID = 3 ∧
      Ldb.step memory c (.reload 525312) = some c' ∧ c'.1.place.lastRecordID = 0 := by
  obtain ⟨c₀, c, file, -, -, -, hinit, hrun, hbehind, hover, hlast, -⟩ := run_outgrowing hvalue memory
  obtain ⟨d, hload, hzero⟩ := hover.run_loadFile 525312
  have hopened : Behind (flat file) { file := c.2.file } := { behind_open c.2.file with file := hbehind.file }
  obtain ⟨paged, hpaged, -⟩ := Calling.Follows.run (behind_follows memory) hopened hload
  exact ⟨c₀, c, (d, paged), hinit, hrun, hlast, hpaged, hzero⟩

/-- Three records were numbered, and the load begins at 0 again: it finds the headers of a new file. -/
theorem wrapped_offset_forgets_ids :
    ∃ c₀ c c', (Ldb.initializeFile 525312).run (pagedServer fun _ _ => 205) { file := .empty } = some c₀ ∧
      Lib.run (Ldb.step fun _ _ => 205) c₀ (outgrowingActions (List.replicate (2 ^ 32 - 8210) 0)) = some c ∧
      c.1.place.lastRecordID = 3 ∧ Ldb.step (fun _ _ => 205) c (.reload 525312) = some c' ∧
      c'.1.place.lastRecordID = 0 :=
  load_after_outgrowing List.length_replicate fun _ _ => 205

end Tiodb.Logdb.OnPages
