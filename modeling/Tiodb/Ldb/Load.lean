import Tiodb.Ldb.Chain
import Tiodb.Lib.Tables

/-!
# What a load gives

A file lays out chains of blocks: one of the metatable, and one of each table that a record
of the metatable names. `LoadFile` gives back these tables, and nothing else of the file
has a say in it.
-/

namespace Tiodb.Logdb

open Lib

def logOf (blocks : List Block) : List LogRecord := blocks.flatMap (·.records)

/-- The records of a table with these blocks, as they are loaded. -/
def recordsOf (blocks : List Block) : List LogRecord := (logOf blocks).foldl loadRecord []

structure Layout where
  metatable : List Block
  tables : Bytes → Option (List Block)

/-- A chain on the file: it has a block, and each next one lies further on. -/
structure Chain (f : File) (blocks : List Block) : Prop where
  ne_nil : blocks ≠ []
  linked : Linked f 0 blocks
  ascending : blocks.Pairwise fun b c => b.stop ≤ c.offset

def fileHeader : FileHeader := ⟨ldbMagic, 1, 0, 16⟩

structure OnFile (f : File) (l : Layout) : Prop where
  header : f.read 0 fileHeaderSize = some fileHeader.encode
  metatable : Chain f l.metatable
  start : startOf 0 l.metatable = fileHeader.tableBlockOffset.toNat
  /-- A record of the metatable has a table's name as its key, and the table's first block as its value. -/
  listed : ∀ r ∈ recordsOf l.metatable, ∃ name blocks, readField f r.key = some name ∧
    l.tables name = some blocks ∧ Chain f blocks ∧ startOf 0 blocks = r.value.start
  complete : ∀ name blocks, l.tables name = some blocks →
    ∃ r ∈ recordsOf l.metatable, readField f r.key = some name

/-! ## One block -/

section Block

variable {f : File} {link : Nat} {b : Block}

theorem loadLogRecords_eq (h : b.At f link) : loadLogRecords f (b.headerInfo link) = some b.records := by
  have hcount : (UInt32.ofNat b.records.length).toNat = b.records.length :=
    UInt32.toNat_ofNat_of_lt' (Nat.lt_of_le_of_lt h.room (by decide))
  simp only [loadLogRecords, Block.headerInfo, hcount]
  apply mapM_range_eq_some
  intro i r hr
  rw [h.records i r hr, Option.bind_some, LogRecord.decode_encode]

/-- What a block does to the space while it is loaded. -/
def Space.past (s : Space) (b : Block) : Space :=
  { s with
    nextDataOffset := b.records.foldl (fun next r => max next (lastFieldEnd r)) (max s.nextDataOffset b.stop)
    lastRecordID := b.records.foldl (fun last r => max last r.recordID) s.lastRecordID }

theorem loadBlock_eq {s : Space} {t : TableInfo} (h : b.At s.file link)
    (ht : t.lastBlockHeaderInfo.offset = b.offset) :
    loadBlock s t = some (s.past b,
      { t with
        lastBlockHeaderInfo := b.headerInfo link
        records := b.records.foldl loadRecord t.records
        blocks := t.blocks ++ [b] }) := by
  have hrecords : loadLogRecords s.file ⟨(b.headerInfo link).blockHeader, b.offset⟩ = some b.records :=
    loadLogRecords_eq h
  simp only [loadBlock, ht, h.header, Option.bind_eq_bind, Option.bind_some, BlockHeader.decode_encode, hrecords]
  rfl

end Block

/-! ## A chain -/

def lastInfo (info : BlockHeaderInfo) (blocks : List Block) : BlockHeaderInfo :=
  (blocks.getLast?.map (·.headerInfo 0)).getD info

theorem loadAllBlocks_eq {s : Space} {blocks : List Block} (hsize : s.file.size < 2 ^ 32)
    (h : Linked s.file 0 blocks) {fuel : Nat} (hfuel : blocks.length ≤ fuel) (t : TableInfo) :
    loadAllBlocks fuel (startOf 0 blocks) s t = some (blocks.foldl Space.past s,
      { t with
        lastBlockHeaderInfo := lastInfo t.lastBlockHeaderInfo blocks
        records := (logOf blocks).foldl loadRecord t.records
        blocks := t.blocks ++ blocks }) := by
  -- one block at a time; the link of each is where the rest of the chain starts
  induction blocks generalizing s t fuel with
  | nil =>
    have hnil : t.blocks ++ [] = t.blocks := List.append_nil _
    cases fuel <;> simp [loadAllBlocks, startOf, lastInfo, logOf, hnil]
  | cons b bs ih =>
    obtain ⟨fuel, rfl⟩ : ∃ n, fuel = n + 1 := ⟨fuel - 1, by simp only [List.length_cons] at hfuel; omega⟩
    have hlink : (UInt32.ofNat (startOf 0 bs)).toNat = startOf 0 bs := by
      apply UInt32.toNat_ofNat_of_lt'
      cases bs with
      | nil => decide
      | cons c bs =>
        have hc : c.offset + defaultBlockSize.toNat ≤ s.file.size := h.2.1.inside
        exact Nat.lt_of_le_of_lt (Nat.le_trans (Nat.le_add_right _ _) hc) hsize
    have hrest := ih (s := s.past b) hsize h.2 (show bs.length ≤ fuel by simpa using hfuel)
      { t with
        lastBlockHeaderInfo := b.headerInfo (startOf 0 bs)
        records := b.records.foldl loadRecord t.records
        blocks := t.blocks ++ [b] }
    have hlast : lastInfo (b.headerInfo (startOf 0 bs)) bs = lastInfo t.lastBlockHeaderInfo (b :: bs) := by
      cases bs with
      | nil => rfl
      | cons c bs => simp [lastInfo, List.getLast?_cons]
    have hne : b.offset ≠ 0 := Nat.pos_iff_ne_zero.mp h.1.pos
    rw [startOf, loadAllBlocks, if_neg hne, loadBlock_eq h.1 rfl, Option.bind_some]
    simp only [Block.headerInfo] at hrest hlast ⊢
    rw [hlink, hrest, hlast]
    simp [logOf]

theorem length_mul_le {blocks : List Block} {n lo : Nat} (h : blocks.Pairwise fun b c => b.stop ≤ c.offset)
    (hlo : ∀ b ∈ blocks, lo ≤ b.offset) (hn : ∀ b ∈ blocks, b.stop ≤ n) (hle : lo ≤ n) :
    lo + defaultBlockSize.toNat * blocks.length ≤ n := by
  induction blocks generalizing lo with
  | nil => simpa using hle
  | cons b bs ih =>
    obtain ⟨hb, hbs⟩ := List.pairwise_cons.mp h
    have hrest := ih hbs hb (fun c hc => hn c (by simp [hc])) (hn b (by simp))
    have hfirst := hlo b (by simp)
    rw [List.length_cons, Nat.mul_add]
    simp only [Block.stop] at hrest
    omega

theorem Chain.length_le {f : File} {blocks : List Block} (h : Chain f blocks) :
    defaultBlockSize.toNat * blocks.length ≤ f.size := by
  have hin : ∀ b ∈ blocks, b.stop ≤ f.size := fun b hb => (h.linked.exists_at hb).choose_spec.inside
  simpa using length_mul_le h.ascending (fun _ _ => Nat.zero_le _) hin (Nat.zero_le _)

/-! ## Where the next data goes after a load -/

/-- `B` is at or beyond all that a load of these blocks looks at. -/
def Below (B : Nat) (blocks : List Block) : Prop :=
  ∀ b ∈ blocks, b.stop ≤ B ∧ ∀ r ∈ b.records, lastFieldEnd r ≤ B

theorem foldl_max_le {α : Type} (g : α → Nat) (l : List α) (n B : Nat) :
    l.foldl (fun m a => max m (g a)) n ≤ B ↔ n ≤ B ∧ ∀ a ∈ l, g a ≤ B := by
  induction l generalizing n with
  | nil => simp
  | cons a l ih => simp [ih, and_assoc]

theorem past_next_le (blocks : List Block) (s : Space) (B : Nat) :
    (blocks.foldl Space.past s).nextDataOffset ≤ B ↔ s.nextDataOffset ≤ B ∧ Below B blocks := by
  induction blocks generalizing s with
  | nil => simp [Below]
  | cons b bs ih =>
    have hb : (s.past b).nextDataOffset ≤ B ↔
        (s.nextDataOffset ≤ B ∧ b.stop ≤ B) ∧ ∀ r ∈ b.records, lastFieldEnd r ≤ B := by
      rw [Space.past, foldl_max_le, max_le_iff]
    simp only [List.foldl_cons, ih, hb, Below, List.forall_mem_cons, and_assoc]

theorem foldl_max_recordID (l : List LogRecord) (n : UInt32) :
    (l.foldl (fun last r => max last r.recordID) n).toNat = l.foldl (fun last r => max last r.recordID.toNat) n.toNat := by
  induction l generalizing n with
  | nil => rfl
  | cons r l ih => rw [List.foldl_cons, List.foldl_cons, ih, UInt32.toNat_max]

theorem past_last_le (blocks : List Block) (s : Space) (B : Nat) :
    (blocks.foldl Space.past s).lastRecordID.toNat ≤ B ↔
      s.lastRecordID.toNat ≤ B ∧ ∀ r ∈ logOf blocks, r.recordID.toNat ≤ B := by
  induction blocks generalizing s with
  | nil => simp [logOf]
  | cons b bs ih =>
    have hb : (s.past b).lastRecordID.toNat ≤ B ↔
        s.lastRecordID.toNat ≤ B ∧ ∀ r ∈ b.records, r.recordID.toNat ≤ B := by
      rw [Space.past, foldl_max_recordID, foldl_max_le]
    simp only [List.foldl_cons, ih, hb, logOf, List.flatMap_cons, List.forall_mem_append, and_assoc]

theorem past_frame (blocks : List Block) (s : Space) :
    (blocks.foldl Space.past s).file = s.file ∧ (blocks.foldl Space.past s).calls = s.calls := by
  induction blocks generalizing s with
  | nil => exact ⟨rfl, rfl⟩
  | cons b bs ih => exact ih (s.past b)

/-! ## The tables -/

/-- A table as it is loaded. -/
def tableOf (name : Bytes) (blocks : List Block) : TableInfo :=
  ⟨name, lastInfo (unloaded name).lastBlockHeaderInfo blocks, recordsOf blocks, blocks⟩

theorem loadChain_eq {s : Space} {blocks : List Block} (hsize : s.file.size < 2 ^ 32) (h : Chain s.file blocks)
    (name : Bytes) :
    loadAllBlocks s.file.size (startOf 0 blocks) s (unloaded name) =
      some (blocks.foldl Space.past s, tableOf name blocks) := by
  have hlen := h.length_le
  have hfuel : blocks.length ≤ s.file.size := (Nat.le_mul_of_pos_left _ (by decide)).trans hlen
  rw [loadAllBlocks_eq hsize h.linked hfuel]
  rfl

section Tables

variable {f : File} {tables : Bytes → Option (List Block)}

theorem foldlM_loadTable (hsize : f.size < 2 ^ 32) {rs : List LogRecord}
    (hlisted : ∀ r ∈ rs, ∃ name blocks, readField f r.key = some name ∧ tables name = some blocks ∧
      Chain f blocks ∧ startOf 0 blocks = r.value.start) {s : Space} (hs : s.file = f) (m : StringMap TableInfo) :
    ∃ s' m', rs.foldlM (loadTable f.size) (s, m) = some (s', m') ∧ s'.file = f ∧ s'.calls = s.calls ∧
      (∀ name, (∃ r ∈ rs, readField f r.key = some name) → m'[name]? = (tables name).map (tableOf name)) ∧
      (∀ name, (¬ ∃ r ∈ rs, readField f r.key = some name) → m'[name]? = m[name]?) ∧
      ∀ (P : Space → Prop) (R : List Block → Prop), (∀ s bs, P (bs.foldl Space.past s) ↔ P s ∧ R bs) →
        (P s' ↔ P s ∧ ∀ r ∈ rs, ∀ name blocks, readField f r.key = some name → tables name = some blocks → R blocks) := by
  induction rs generalizing s m with
  | nil => exact ⟨s, m, rfl, hs, rfl, by simp, by simp, by simp⟩
  | cons r rs ih =>
    obtain ⟨name, blocks, hname, htable, hchain, hstart⟩ := hlisted r (by simp)
    have hload : loadTable f.size (s, m) r =
        some (blocks.foldl Space.past s, m.insert name (tableOf name blocks)) := by
      have hread : readField s.file r.key = some name := hs.symm ▸ hname
      have hblocks := loadChain_eq (s := s) (hs.symm ▸ hsize) (hs.symm ▸ hchain) name
      rw [hs] at hblocks
      simp only [loadTable, hread, Option.bind_some, ← hstart, hblocks, Option.map_some]
    obtain ⟨hfile, hcalls⟩ := past_frame blocks s
    obtain ⟨s', m', hrun, hfile', hcalls', hin, hout, hnext⟩ :=
      ih (fun r' hr' => hlisted r' (by simp [hr'])) (hfile.trans hs) (m.insert name (tableOf name blocks))
    refine ⟨s', m', ?_, hfile', hcalls'.trans hcalls, fun n hn => ?_, fun n hn => ?_, fun P R hP => ?_⟩
    · rw [List.foldlM_cons, hload]
      exact hrun
    · by_cases hlater : ∃ r' ∈ rs, readField f r'.key = some n
      · exact hin n hlater
      · obtain rfl : name = n := by
          obtain ⟨r', hr', hn⟩ := hn
          rcases List.mem_cons.mp hr' with rfl | hr'
          · exact Option.some.inj (hname.symm.trans hn)
          · exact absurd ⟨r', hr', hn⟩ hlater
        rw [hout name hlater, Std.ExtTreeMap.getElem?_insert_self, htable]
        rfl
    · have hne : name ≠ n := fun h => hn ⟨r, by simp, h ▸ hname⟩
      rw [hout n fun ⟨r', hr', h⟩ => hn ⟨r', by simp [hr'], h⟩, insert_of_ne m _ hne]
    · have hfirst : (∀ n bs, readField f r.key = some n → tables n = some bs → R bs) ↔ R blocks := by
        constructor
        · exact fun h => h name blocks hname htable
        · intro h n bs hn hbs
          obtain rfl := Option.some.inj (hname.symm.trans hn)
          obtain rfl := Option.some.inj (htable.symm.trans hbs)
          exact h
      rw [hnext P R hP, hP, List.forall_mem_cons, hfirst, and_assoc]

end Tables

/-- The one spec of `LoadFile`. -/
theorem loadFile_spec {f : File} {l : Layout} (h : OnFile f l) (hsize : f.size < 2 ^ 32) (growPagesStep : Nat) :
    ∃ s, loadFile f growPagesStep = some s ∧ s.space.file = f ∧ s.metatable = tableOf [] l.metatable ∧
      (∀ name, s.tables[name]? = (l.tables name).map (tableOf name)) ∧
      (∀ B, s.space.nextDataOffset ≤ B ↔
        Below B l.metatable ∧ ∀ name blocks, l.tables name = some blocks → Below B blocks) ∧
      ∀ B, s.space.lastRecordID.toNat ≤ B ↔ (∀ r ∈ logOf l.metatable, r.recordID.toNat ≤ B) ∧
        ∀ name blocks, l.tables name = some blocks → ∀ r ∈ logOf blocks, r.recordID.toNat ≤ B := by
  have hmeta := loadChain_eq (s := ⟨f, 0, growPagesStep, 0, []⟩) hsize h.metatable []
  rw [h.start] at hmeta
  obtain ⟨hfile, hcalls⟩ := past_frame l.metatable ⟨f, 0, growPagesStep, 0, []⟩
  obtain ⟨s', m', hrun, hfile', hcalls', hin, hout, hpast⟩ := foldlM_loadTable hsize h.listed hfile ∅
  -- the tables that are loaded are those of the layout
  have htables (R : List Block → Prop) :
      (∀ r ∈ recordsOf l.metatable, ∀ name blocks, readField f r.key = some name → l.tables name = some blocks → R blocks) ↔
        ∀ name blocks, l.tables name = some blocks → R blocks := by
    constructor
    · intro hrest name blocks htable
      obtain ⟨r, hr, hname⟩ := h.complete name blocks htable
      exact hrest r hr name blocks hname htable
    · exact fun hrest _ _ name blocks _ htable => hrest name blocks htable
  refine ⟨⟨s', tableOf [] l.metatable, m'⟩, ?_, hfile', rfl, fun name => ?_, fun B => ?_, fun B => ?_⟩
  · have hmagic : ¬ fileHeader.magic ≠ ldbMagic := by decide
    have hrun' : (tableOf [] l.metatable).records.foldlM (loadTable f.size)
        (l.metatable.foldl Space.past ⟨f, 0, growPagesStep, 0, []⟩, ∅) = some (s', m') := hrun
    simp only [loadFile, h.header, Option.bind_eq_bind, Option.bind_some, FileHeader.decode_encode, hmagic, if_false,
      hmeta, hrun']
  · by_cases hlisted : ∃ r ∈ recordsOf l.metatable, readField f r.key = some name
    · exact hin name hlisted
    · have hnone : l.tables name = none := by
        cases htable : l.tables name with
        | none => rfl
        | some blocks => exact absurd (h.complete name blocks htable) hlisted
      rw [hout name hlisted, hnone]
      simp
  · have hnext := hpast (·.nextDataOffset ≤ B) (Below B) fun s bs => past_next_le bs s B
    rw [hnext, past_next_le, htables]
    simp
  · have hlast := hpast (·.lastRecordID.toNat ≤ B) (fun bs => ∀ r ∈ logOf bs, r.recordID.toNat ≤ B)
      fun s bs => past_last_le bs s B
    rw [hlast, past_last_le, htables]
    simp

end Tiodb.Logdb
