import Tiodb.Ldb.Cached

/-!
# A database opened, used and closed on its cache

The load with `DWORD`s gives what the load of `Database.lean` gives, as long as what it
comes past ends below 2^32. With the operations this makes every run on the cache a run of
the database, and the records read through the cache are the ones of the file.
-/

namespace Tiodb.Logdb.OnPages

open Lib
open Calling (ofOption)

section Loading

/-! ## The records of a block -/

theorem decodeRecords_of_mapM {f : File} {offset n : Nat} {rs : List LogRecord} (hin : offset ≤ f.size)
    (h : (List.range n).mapM (fun a => (f.read (offset + logRecordSize * a) logRecordSize).bind LogRecord.decode) =
      some rs) :
    ∃ buffer, f.read offset (n * logRecordSize) = some buffer ∧ decodeRecords n buffer = some rs := by
  induction n generalizing offset rs with
  | zero =>
    obtain rfl : [] = rs := Option.some.inj h
    exact ⟨[], File.read_eq_some.mpr ⟨by omega, by simp⟩, rfl⟩
  | succ n ih =>
    rw [List.range_succ_eq_map, List.mapM_cons, List.mapM_map] at h
    simp only [Option.bind_eq_bind, Option.bind_eq_some_iff] at h
    obtain ⟨r, ⟨first, hfirst, hr⟩, rest, hrest, heq⟩ := h
    obtain rfl := Option.some.inj heq
    have hlength := File.length_of_read hfirst
    have hend := (File.read_eq_some.mp hfirst).1
    rw [Nat.mul_zero, Nat.add_zero] at hfirst hend
    obtain ⟨others, hothers, hdecode⟩ := ih (show offset + logRecordSize ≤ f.size from hend)
      (by simpa only [Function.comp_def, Nat.mul_succ, Nat.add_assoc, Nat.add_comm (logRecordSize * _)] using hrest)
    refine ⟨first ++ others, ?_, ?_⟩
    · rw [Nat.succ_mul, Nat.add_comm]
      exact File.read_append hfirst hothers
    · have htake : (first ++ others).take logRecordSize = first := by rw [← hlength, List.take_left]
      have hdrop : (first ++ others).drop logRecordSize = others := by rw [← hlength, List.drop_left]
      simp only [decodeRecords, htake, hdrop, hr, hdecode, Option.bind_eq_bind, Option.bind_some]

theorem run_loadLogRecords {f : FlatFile} (hsize : f.file.size < 2 ^ 32) {info : Logdb.BlockHeaderInfo}
    {rs : List LogRecord} (hin : info.offset + blockHeaderSize ≤ f.file.size)
    (h : Logdb.loadLogRecords f.file info = some rs) :
    (loadLogRecords (.of info)).run flatServer f = some (rs, f) := by
  obtain ⟨buffer, hread, hdecode⟩ := decodeRecords_of_mapM hin h
  unfold loadLogRecords
  have hcount : (BlockHeaderInfo.of info).blockHeader.usedCount = info.blockHeader.usedCount := rfl
  dsimp only
  rw [hcount]
  by_cases hnone : info.blockHeader.usedCount = 0
  · rw [if_pos hnone]
    rw [hnone] at hdecode
    obtain rfl := Option.some.inj hdecode
    rfl
  · rw [if_neg hnone]
    have hoffset : (BlockHeaderInfo.of info).offset + 12 = UInt32.ofNat (info.offset + blockHeaderSize) := by
      rw [UInt32.ofNat_add]
      rfl
    have hbytes : info.blockHeader.usedCount * 48 =
        UInt32.ofNat (info.blockHeader.usedCount.toNat * logRecordSize) := by
      rw [UInt32.ofNat_mul, UInt32.ofNat_toNat]
      rfl
    rw [hoffset, hbytes]
    refine (Calling.run_bind_of (run_read hread hsize) _).trans ?_
    rw [Calling.run_ofOption, hdecode]
    rfl

/-! ## One block -/

theorem Place.past_of {s : Space} {offset : Nat} (hnext : max s.nextDataOffset offset < 2 ^ 32) :
    (Place.of s).past (UInt32.ofNat offset) = .of { s with nextDataOffset := max s.nextDataOffset offset } := by
  have hgreater : max s.nextDataOffset offset = if s.nextDataOffset < offset then offset else s.nextDataOffset := by
    split <;> omega
  unfold Place.past Place.of
  rw [hgreater, ← ofNat_ite_lt (by omega) (by omega)]
  exact (apply_ite (fun next => Place.mk next (UInt32.ofNat s.growPagesStep) s.lastRecordID) _ _ _).symm

theorem ofNat_lastFieldEnd (r : LogRecord) : UInt32.ofNat (Logdb.lastFieldEnd r) = lastFieldEnd r := by
  unfold Logdb.lastFieldEnd lastFieldEnd Field.stop
  split_ifs <;> simp

theorem Place.loadRecord_of {s : Space} {r : LogRecord}
    (hnext : max s.nextDataOffset (Logdb.lastFieldEnd r) < 2 ^ 32) :
    (Place.of s).loadRecord r =
      .of { s with
        nextDataOffset := max s.nextDataOffset (Logdb.lastFieldEnd r)
        lastRecordID := max s.lastRecordID r.recordID } := by
  have hlast : (if s.lastRecordID < r.recordID then r.recordID else s.lastRecordID) =
      max s.lastRecordID r.recordID := by
    rw [← UInt32.toNat_inj, UInt32.toNat_max, apply_ite UInt32.toNat]
    simp only [UInt32.lt_iff_toNat_lt]
    split <;> omega
  have hpast := Place.past_of (s := { s with lastRecordID := max s.lastRecordID r.recordID }) hnext
  rw [ofNat_lastFieldEnd] at hpast
  unfold Place.loadRecord
  have hsame : (Place.of s).lastRecordID = s.lastRecordID := rfl
  rw [hsame, hlast]
  exact hpast

theorem le_foldl_max {α : Type} (g : α → Nat) (l : List α) (n : Nat) : n ≤ l.foldl (fun m a => max m (g a)) n :=
  ((foldl_max_le g l n _).mp (Nat.le_refl _)).1

theorem Place.foldl_loadRecord (rs : List LogRecord) {s : Space}
    (hnext : rs.foldl (fun next r => max next (Logdb.lastFieldEnd r)) s.nextDataOffset < 2 ^ 32) :
    rs.foldl Place.loadRecord (.of s) =
      .of { s with
        nextDataOffset := rs.foldl (fun next r => max next (Logdb.lastFieldEnd r)) s.nextDataOffset
        lastRecordID := rs.foldl (fun last r => max last r.recordID) s.lastRecordID } := by
  induction rs generalizing s with
  | nil => rfl
  | cons r rs ih =>
    rw [List.foldl_cons] at hnext
    rw [List.foldl_cons, Place.loadRecord_of (Nat.lt_of_le_of_lt (le_foldl_max _ rs _) hnext)]
    exact ih hnext

/-- What a load of blocks does, for a file of which nothing is cached and for the database. -/
structure Loads (f : FlatFile) (x : FileM (Place × TableInfo)) (s s' : Space) (t' : Logdb.TableInfo) : Prop where
  run : s'.nextDataOffset < 2 ^ 32 → x.run flatServer f = some ((.of s', .of t'), f)
  file : s'.file = s.file
  step : s'.growPagesStep = s.growPagesStep
  next_le : s.nextDataOffset ≤ s'.nextDataOffset

variable {f : FlatFile} {s s' : Space} {t t' : Logdb.TableInfo}

theorem loads_loadBlock (hf : f.file = s.file) (hsize : s.file.size < 2 ^ 32)
    (h : Logdb.loadBlock s t = some (s', t')) : Loads f (loadBlock (.of s) (.of t)) s s' t' := by
  simp only [Logdb.loadBlock, Option.bind_eq_bind, Option.bind_eq_some_iff] at h
  obtain ⟨blockHeader, ⟨buffer, hbuffer, hheader⟩, rs, hrs, heq⟩ := h
  obtain ⟨rfl, rfl⟩ := Prod.mk.inj (Option.some.inj heq)
  have hin := (File.read_eq_some.mp hbuffer).1
  rw [← hf] at hbuffer hrs hin hsize
  have hle := le_foldl_max Logdb.lastFieldEnd rs (max s.nextDataOffset
    (t.lastBlockHeaderInfo.offset + blockHeader.size.toNat))
  refine ⟨fun hnext => ?_, rfl, rfl, (le_max_left _ _).trans hle⟩
  have hblock : (TableInfo.of t).lastBlockHeaderInfo.offset = UInt32.ofNat t.lastBlockHeaderInfo.offset := rfl
  have hread : (Paged.read (UInt32.ofNat t.lastBlockHeaderInfo.offset) 12).run flatServer f = some (buffer, f) :=
    run_read hbuffer hsize
  have hdecode : (ofOption (BlockHeader.decode buffer) : FileM BlockHeader).run flatServer f =
      some (blockHeader, f) := by
    rw [Calling.run_ofOption, hheader]
    rfl
  have hrecords : (loadLogRecords (.of ⟨blockHeader, t.lastBlockHeaderInfo.offset⟩)).run flatServer f = some (rs, f) :=
    run_loadLogRecords hsize hin hrs
  have hend : UInt32.ofNat t.lastBlockHeaderInfo.offset + blockHeader.size =
      UInt32.ofNat (t.lastBlockHeaderInfo.offset + blockHeader.size.toNat) := by
    rw [UInt32.ofNat_add, UInt32.ofNat_toNat]
  unfold loadBlock
  dsimp only
  rw [hblock]
  refine (Calling.run_bind_of hread _).trans ((Calling.run_bind_of hdecode _).trans
    ((Calling.run_bind_of hrecords _).trans ?_))
  rw [hend, Place.past_of (Nat.lt_of_le_of_lt hle hnext), Place.foldl_loadRecord rs hnext]
  rfl

/-! ## Chains of blocks -/

theorem loads_loadAllBlocks (hf : f.file = s.file) (hsize : s.file.size < 2 ^ 32) {fuel : Nat}
    {nextTableOffset : UInt32} (h : Logdb.loadAllBlocks fuel nextTableOffset.toNat s t = some (s', t')) :
    Loads f (loadAllBlocks fuel nextTableOffset (.of s) (.of t)) s s' t' := by
  have hzero : nextTableOffset = 0 ↔ nextTableOffset.toNat = 0 := UInt32.toNat_inj.symm
  induction fuel generalizing s t nextTableOffset with
  | zero =>
    unfold Logdb.loadAllBlocks at h
    unfold loadAllBlocks
    by_cases hend : nextTableOffset.toNat = 0
    · rw [if_pos hend] at h
      obtain ⟨rfl, rfl⟩ := Prod.mk.inj (Option.some.inj h)
      rw [if_pos (hzero.mpr hend)]
      exact ⟨fun _ => rfl, rfl, rfl, Nat.le_refl _⟩
    · rw [if_neg hend] at h
      cases h
  | succ fuel ih =>
    unfold Logdb.loadAllBlocks at h
    unfold loadAllBlocks
    by_cases hend : nextTableOffset.toNat = 0
    · rw [if_pos hend] at h
      obtain ⟨rfl, rfl⟩ := Prod.mk.inj (Option.some.inj h)
      rw [if_pos (hzero.mpr hend)]
      exact ⟨fun _ => rfl, rfl, rfl, Nat.le_refl _⟩
    · rw [if_neg hend] at h
      obtain ⟨⟨s₁, t₁⟩, hblock, h⟩ := Option.bind_eq_some_iff.mp h
      have hfirst := loads_loadBlock hf hsize hblock
      have hrest := ih (hf.trans hfirst.file.symm) (hfirst.file ▸ hsize) h UInt32.toNat_inj.symm
      have hoffset : UInt32.ofNat nextTableOffset.toNat = nextTableOffset := UInt32.ofNat_toNat
      rw [if_neg (mt hzero.mp hend)]
      refine ⟨fun hnext => ?_, hrest.file.trans hfirst.file, hrest.step.trans hfirst.step,
        hfirst.next_le.trans hrest.next_le⟩
      have hrun := hfirst.run (Nat.lt_of_le_of_lt hrest.next_le hnext)
      simp only [TableInfo.of, BlockHeaderInfo.of, hoffset] at hrun
      exact (Calling.run_bind_of hrun _).trans (hrest.run hnext)

theorem run_loadTables {fuel : Nat} {rs : List LogRecord} {m m' : StringMap Logdb.TableInfo}
    {n : StringMap TableInfo} (hf : f.file = s.file) (hsize : s.file.size < 2 ^ 32)
    (hn : ∀ name : Bytes, n[name]? = m[name]?.map TableInfo.of)
    (h : rs.foldlM (loadTable fuel) (s, m) = some (s', m')) :
    s.nextDataOffset ≤ s'.nextDataOffset ∧ s'.growPagesStep = s.growPagesStep ∧ (s'.nextDataOffset < 2 ^ 32 →
      ∃ n', (loadTables fuel rs (.of s) n).run flatServer f = some ((.of s', n'), f) ∧
        ∀ name : Bytes, n'[name]? = m'[name]?.map TableInfo.of) := by
  induction rs generalizing s m n with
  | nil =>
    obtain ⟨rfl, rfl⟩ := Prod.mk.inj (Option.some.inj h)
    exact ⟨Nat.le_refl _, rfl, fun _ => ⟨n, rfl, hn⟩⟩
  | cons r rs ih =>
    rw [List.foldlM_cons] at h
    obtain ⟨⟨s₁, m₁⟩, hfirst, h⟩ := Option.bind_eq_some_iff.mp h
    obtain ⟨name, hname, hfirst⟩ := Option.bind_eq_some_iff.mp hfirst
    obtain ⟨⟨s₂, t⟩, hload, heq⟩ := Option.map_eq_some_iff.mp hfirst
    obtain ⟨rfl, rfl⟩ := Prod.mk.inj heq
    have hloads := loads_loadAllBlocks hf hsize hload
    obtain ⟨hle, hstep, hrest⟩ := ih (hf.trans hloads.file.symm) (hloads.file ▸ hsize) (map_insert hn name t) h
    refine ⟨hloads.next_le.trans hle, hstep.trans hloads.step, fun hnext => ?_⟩
    obtain ⟨n', hrun, hn'⟩ := hrest hnext
    have hread : (readField r.key).run flatServer f = some (name, f) := run_readField (hf ▸ hsize) (hf ▸ hname)
    refine ⟨n', ?_, hn'⟩
    unfold loadTables
    exact (Calling.run_bind_of hread _).trans
      ((Calling.run_bind_of (hloads.run (Nat.lt_of_le_of_lt hle hnext)) _).trans hrun)

/-- A load with `DWORD`s gives the numbers of the load. -/
theorem run_loadFile {file : File} {growPagesStep : Nat} {l : Logdb.Ldb} (hsize : file.size < 2 ^ 32)
    (h : Logdb.loadFile file growPagesStep = some l) (hnext : l.space.nextDataOffset < 2 ^ 32) :
    ∃ d, (loadFile (UInt32.ofNat growPagesStep)).run flatServer (flat file) = some (d, flat file) ∧ d.Is l ∧
      l.space.growPagesStep = growPagesStep := by
  simp only [Logdb.loadFile, Option.bind_eq_bind, Option.bind_eq_some_iff] at h
  obtain ⟨header, ⟨buffer, hbuffer, hheader⟩, h⟩ := h
  by_cases hmagic : header.magic ≠ ldbMagic
  · rw [if_pos hmagic] at h
    cases h
  rw [if_neg hmagic] at h
  obtain ⟨⟨s₁, metatable⟩, hmeta, h⟩ := Option.bind_eq_some_iff.mp h
  obtain ⟨⟨s₂, tables⟩, htables, h⟩ := Option.bind_eq_some_iff.mp h
  obtain rfl := Option.some.inj h
  -- the load goes through pages of 4 MB
  let large : FlatFile := { file := file, pageSize := 4194304 }
  have hloads := loads_loadAllBlocks (f := large) rfl hsize hmeta
  obtain ⟨hle, hstep, hrest⟩ := run_loadTables (f := large) (n := ∅) (hloads.file.symm) (hloads.file ▸ hsize)
    (fun name => by simp) htables
  obtain ⟨n', hrun, hn'⟩ := hrest hnext
  have hread : (Paged.read 0 16).run flatServer (flat file) = some (buffer, flat file) := run_read hbuffer hsize
  have hdecode : (ofOption (FileHeader.decode buffer) : FileM FileHeader).run flatServer (flat file) =
      some (header, flat file) := by
    rw [Calling.run_ofOption, hheader]
    rfl
  have hwide : (Paged.setPageSize 4194304).run flatServer (flat file) = some ((), large) :=
    run_setPageSize (by decide) (by decide)
  have hnarrow : (Paged.setPageSize (UInt32.ofNat 4096)).run flatServer large = some ((), flat file) :=
    run_setPageSize (by decide) (by decide)
  have hcount : (UInt32.ofNat file.size).toNat = file.size := toNat_ofNat hsize
  have hchain := hloads.run (Nat.lt_of_le_of_lt hle hnext)
  refine ⟨⟨.of s₂, .of metatable, n'⟩, ?_, ⟨rfl, rfl, hn'⟩, hstep.trans hloads.step⟩
  unfold loadFile
  refine (Calling.run_bind_of run_getFileSize _).trans ((Calling.run_bind_of hread _).trans
    ((Calling.run_bind_of hdecode _).trans ?_))
  rw [if_neg hmagic]
  refine (Calling.run_bind_of run_getPageSize _).trans ((Calling.run_bind_of hwide _).trans ?_)
  have hfile : (flat file).file.size = file.size := rfl
  rw [hfile, hcount]
  exact (Calling.run_bind_of hchain _).trans ((Calling.run_bind_of hrun _).trans (Calling.run_bind_of hnarrow _))

end Loading

/-! ## A new file -/

theorem run_initializeFile {growPagesStep : Nat} {s : Logdb.Ldb} (hstep : growPagesStep < 2 ^ 32)
    (h : Logdb.Ldb.create growPagesStep = some s) (hsize : s.space.file.size < 2 ^ 32) :
    ∃ d, (Ldb.initializeFile (UInt32.ofNat growPagesStep)).run flatServer (flat .empty) =
        some (d, flat s.space.file) ∧ d.Is s ∧ Fits s.space := by
  simp only [Logdb.Ldb.create, Option.bind_eq_bind, Option.bind_eq_some_iff] at h
  obtain ⟨s₁, h₁, s₂, h₂, heq⟩ := h
  obtain rfl := Option.some.inj heq
  let s₀ : Space := ⟨.empty, 4112, growPagesStep, 0, []⟩
  have hroom := Space.leaveRoom_size s₀ 8208
  have h₁ : (s₀.leaveRoom 8208).write 16 (BlockHeader.encode ⟨defaultBlockSize, 0, 0⟩) = some s₁ := h₁
  have hgrown : (s₀.leaveRoom 8208).file.size < 2 ^ 32 := by
    rw [← Space.size_of_write h₁, ← Space.size_of_write h₂]
    exact hsize
  have hwhole : pageSize ∣ s₀.file.size := Nat.dvd_zero _
  have hleave := run_leaveRoom hwhole hstep hgrown
  have hfits : Fits (s₀.leaveRoom 8208) := ⟨Nat.dvd_add hwhole (Nat.dvd_mul_left ..), by
    change 4112 ≤ _
    omega, hgrown, hstep⟩
  obtain ⟨hrun₁, hfits₁, hplace₁⟩ := hfits.write h₁
  obtain ⟨hrun₂, hfits₂, hplace₂⟩ := hfits₁.write h₂
  refine ⟨⟨.of s₂, .of ⟨[], ⟨⟨defaultBlockSize, 0, 0⟩, 16⟩, [], [⟨16, []⟩]⟩, ∅⟩, ?_, ⟨rfl, rfl, fun name => by simp⟩,
    hfits₂⟩
  rw [hplace₂, hplace₁]
  unfold Ldb.initializeFile
  exact (Calling.run_bind_of run_getPageSize _).trans ((Calling.run_bind_of hleave _).trans
    ((Calling.run_bind_of hrun₁ _).trans (Calling.run_bind_of hrun₂ _)))

/-! ## Runs -/

def InDwords : Action → Prop
  | .command c => Command.InDwords c
  | .reload growPagesStep => growPagesStep < 2 ^ 32

/-- A database and its cache are the database on its file. -/
structure Cached (s : Logdb.Ldb) (c : Ldb × PagedFile) : Prop where
  numbers : c.1.Is s
  behind : Behind (flat s.space.file) c.2
  fits : Fits s.space

section Runs

variable {s s' : Logdb.Ldb} {c : Ldb × PagedFile} {growPagesStep : Nat} (memory : Memory)

theorem Cached.step (h : Cached s c) (hframe : s.Frame) {a : Action} (ha : InDwords a) (hs : s.step a = some s')
    (hsize : s'.space.file.size < 2 ^ 32) : ∃ c', Ldb.step memory c a = some c' ∧ Cached s' c' := by
  cases a with
  | command command =>
    obtain ⟨d, hrun, hd, hfits⟩ := h.numbers.apply h.fits hframe.names ha hs hsize
    obtain ⟨paged, hpaged, hbehind⟩ := Calling.Follows.run (behind_follows memory) h.behind hrun
    exact ⟨(d, paged), hpaged, hd, hbehind, hfits⟩
  | reload growPagesStep =>
    have hfile : s'.space.file = s.space.file := loadFile_file hs
    rw [hfile] at hsize
    obtain ⟨s₁, hs₁, hframe', -⟩ := hframe.reload hsize growPagesStep
    obtain rfl := Option.some.inj (hs₁.symm.trans hs)
    have hnext := hframe'.next_le
    obtain ⟨d, hrun, hd, hgrow⟩ := run_loadFile hsize hs (by rw [hfile] at hnext; omega)
    have hopened : Behind (flat s.space.file) { file := c.2.file } :=
      { behind_open c.2.file with file := h.behind.file }
    obtain ⟨paged, hpaged, hbehind⟩ := Calling.Follows.run (behind_follows memory) hopened hrun
    refine ⟨(d, paged), hpaged, hd, by rw [hfile]; exact hbehind, ?_, hnext, by rw [hfile]; exact hsize, ?_⟩
    · rw [hfile]
      exact h.fits.whole
    · rw [hgrow]
      exact ha

theorem Cached.run (h : Cached s c) (hframe : s.Frame) {actions : List Action} (ha : ∀ a ∈ actions, InDwords a)
    (hrun : Lib.run Logdb.Ldb.step s actions = some s') (hsize : s'.space.file.size < 2 ^ 32) :
    ∃ c', Lib.run (Ldb.step memory) c actions = some c' ∧ Cached s' c' ∧ s'.Frame := by
  induction actions generalizing s c with
  | nil =>
    obtain rfl := Option.some.inj hrun
    exact ⟨c, rfl, h, hframe⟩
  | cons a as ih =>
    obtain ⟨s₁, hs₁, hrest⟩ := Option.bind_eq_some_iff.mp hrun
    have hsize₁ := Nat.lt_of_le_of_lt (Logdb.Ldb.run_size_le hrest) hsize
    obtain ⟨c₁, hc₁, h₁⟩ := h.step memory hframe (ha a List.mem_cons_self) hs₁ hsize₁
    obtain ⟨c', hc', h', hframe'⟩ := ih h₁ (Logdb.Ldb.step_frame (fun _ => hframe) hs₁ hsize₁)
      (fun a' h' => ha a' (List.mem_cons_of_mem a h')) hrest
    exact ⟨c', Option.bind_eq_some_iff.mpr ⟨c₁, hc₁, hc'⟩, h', hframe'⟩

/-- The tables, with the bytes of each of their records as they are read through the cache. -/
def Ldb.contents (c : Ldb × PagedFile) (name : Bytes) : Option (List (Option (Bytes × Bytes × Bytes))) :=
  c.1.tables[name]?.map fun t => t.records.map fun r => ((getRecord r).run (pagedServer memory) c.2).map (·.1)

theorem Cached.contents (h : Cached s c) (hframe : s.Frame) : Ldb.contents memory c = s.contents := by
  funext name
  unfold Ldb.contents Logdb.Ldb.contents
  rw [h.numbers.tables, Option.map_map]
  refine Option.map_congr fun t ht => List.map_congr_left fun r hr => ?_
  obtain ⟨x, hx⟩ := Logdb.Ldb.exists_getRecord (f := s.space.file)
    (hframe.stops name t ht r (hframe.records (some name) t ht r hr))
  obtain ⟨paged, hpaged, -⟩ := Calling.Follows.run (behind_follows memory) h.behind (run_getRecord (f := flat s.space.file) h.fits.size hx)
  rw [hpaged, hx]
  rfl

/-- While the file stays below 2^32 bytes, the cache and the `DWORD`s are not seen: what the calls and loads of a run
leave in the file, and what is read through the cache after it, is what they leave without. -/
theorem cache_not_seen {s₀ : Logdb.Ldb} {actions : List Action} (hstep : growPagesStep < 2 ^ 32)
    (hcreate : Logdb.Ldb.create growPagesStep = some s₀) (ha : ∀ a ∈ actions, InDwords a)
    (hrun : Lib.run Logdb.Ldb.step s₀ actions = some s) (hsize : s.space.file.size < 2 ^ 32) :
    ∃ c₀ c, (Ldb.initializeFile (UInt32.ofNat growPagesStep)).run (pagedServer memory) { file := .empty } = some c₀ ∧
      Lib.run (Ldb.step memory) c₀ actions = some c ∧ s.space.file.Same c.2.file ∧ c.1.Is s ∧
      Ldb.contents memory c = s.contents := by
  obtain ⟨s₁, hs₁, hinv, -⟩ := Logdb.Ldb.create_inv growPagesStep
  obtain rfl := Option.some.inj (hs₁.symm.trans hcreate)
  obtain ⟨d, hinit, hd, hfits⟩ := run_initializeFile hstep hcreate
    (Nat.lt_of_le_of_lt (Logdb.Ldb.run_size_le hrun) hsize)
  obtain ⟨paged, hpaged, hbehind⟩ := Calling.Follows.run (behind_follows memory) (behind_open .empty) hinit
  obtain ⟨c, hc, hcached, hframe⟩ := Cached.run memory (c := (d, paged)) ⟨hd, hbehind, hfits⟩ hinv.frame ha hrun hsize
  exact ⟨(d, paged), c, hpaged, hc, hcached.behind.file, hcached.numbers, hcached.contents memory hframe⟩

end Runs

theorem cache_not_seen_after_load :
    ∃ s c₀ c, Lib.run Logdb.Ldb.step Logdb.Ldb.fresh Logdb.Ldb.keptActions = some s ∧
      (Ldb.initializeFile 1).run (pagedServer fun _ _ => 205) { file := .empty } = some c₀ ∧
      Lib.run (Ldb.step fun _ _ => 205) c₀ Logdb.Ldb.keptActions = some c ∧ s.space.file.Same c.2.file ∧ c.1.Is s ∧
      Ldb.contents (fun _ _ => 205) c = s.contents := by
  have hview : ((Lib.run Logdb.Ldb.step Logdb.Ldb.fresh Logdb.Ldb.keptActions).map fun s => s.space.file.size) =
      some 12288 := by decide +kernel
  obtain ⟨s, hrun, hsize⟩ := Option.map_eq_some_iff.mp hview
  obtain ⟨c₀, c, h⟩ := cache_not_seen (fun _ _ => 205) (by decide) Logdb.Ldb.create_fresh
    (by simp [Logdb.Ldb.keptActions, InDwords, Command.InDwords]) hrun (by rw [hsize]; decide)
  exact ⟨s, c₀, c, hrun, h⟩

end Tiodb.Logdb.OnPages
