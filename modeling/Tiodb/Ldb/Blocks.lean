import Tiodb.Ldb.Calls

/-!
# The blocks of a table

Whatever is done to a database, and however often it is closed and loaded, the links of the
headers lead from the first block of a table through blocks that have all that was logged
for the table, in its order.
-/

namespace Tiodb.Logdb

open Lib

/-- A block as the loop of `LoadAllBlocks` meets it. -/
structure Visited where
  offset : Nat
  header : BlockHeader
  records : List LogRecord

/-- The blocks that `nextBlockOffset` leads to from an offset on, if they are no more than so many. -/
def visit (f : File) : Nat → Nat → Option (List Visited)
  | 0, offset => if offset = 0 then some [] else none
  | fuel + 1, offset =>
    if offset = 0 then some []
    else do
      let header ← (f.read offset blockHeaderSize).bind BlockHeader.decode
      let records ← loadLogRecords f ⟨header, offset⟩
      let rest ← visit f fuel header.nextBlockOffset.toNat
      some (⟨offset, header, records⟩ :: rest)

/-- The blocks lie one behind the other, each with its records behind its header, and have this log. -/
structure Visits (f : File) (first : Nat) (log : List LogRecord) (vs : List Visited) : Prop where
  visited : visit f f.size first = some vs
  increasing : (vs.map Visited.offset).Pairwise (· < ·)
  used : ∀ v ∈ vs, v.records.length = v.header.usedCount.toNat ∧
    blockHeaderSize + logRecordSize * v.header.usedCount.toNat ≤ v.header.size.toNat ∧
    v.offset + v.header.size.toNat ≤ f.size
  log : vs.flatMap Visited.records = log

/-- `LoadAllBlocks` comes to an end with the records that the log gives. -/
def Replays (f : File) (first : Nat) (log : List LogRecord) : Prop :=
  ∀ (s : Space) (name : Bytes), s.file = f → ∃ s' t, loadAllBlocks f.size first s (unloaded name) = some (s', t) ∧
    logOf t.blocks = log ∧ t.records = log.foldl loadRecord []

/-- Where the first block of a table is, or of the metatable: what `LoadTables` starts from. -/
def Ldb.FirstBlock (s : Ldb) : Option Bytes → Nat → Prop
  | none, first => ∃ header, (s.space.file.read 0 fileHeaderSize).bind FileHeader.decode = some header ∧
    first = header.tableBlockOffset.toNat
  | some name, first => ∃ r ∈ s.metatable.records, readField s.space.file r.key = some name ∧ first = r.value.start

/-! ## The chain of a table -/

def visitedOf : List Block → List Visited
  | [] => []
  | b :: bs => ⟨b.offset, (b.headerInfo (startOf 0 bs)).blockHeader, b.records⟩ :: visitedOf bs

section Chain

variable {f : File} {blocks : List Block}

theorem mem_visitedOf {v : Visited} (h : v ∈ visitedOf blocks) :
    ∃ b ∈ blocks, ∃ link, v = ⟨b.offset, (b.headerInfo link).blockHeader, b.records⟩ := by
  induction blocks with
  | nil => cases h
  | cons b bs ih =>
    rcases List.mem_cons.mp h with rfl | h
    · exact ⟨b, by simp, _, rfl⟩
    · obtain ⟨c, hc, hv⟩ := ih h
      exact ⟨c, by simp [hc], hv⟩

theorem map_offset_visitedOf : (visitedOf blocks).map Visited.offset = blocks.map Block.offset := by
  induction blocks with
  | nil => rfl
  | cons b bs ih => rw [visitedOf, List.map_cons, List.map_cons, ih]

theorem flatMap_records_visitedOf : (visitedOf blocks).flatMap Visited.records = logOf blocks := by
  induction blocks with
  | nil => rfl
  | cons b bs ih => rw [visitedOf, List.flatMap_cons, ih, logOf, logOf, List.flatMap_cons]

theorem startOf_lt (hsize : f.size < 2 ^ 32) (h : Linked f 0 blocks) : startOf 0 blocks < 2 ^ 32 := by
  cases blocks with
  | nil => decide
  | cons b bs =>
    have hin : b.offset + defaultBlockSize.toNat ≤ f.size := h.1.inside
    exact (Nat.le_add_right _ _).trans_lt (hin.trans_lt hsize)

theorem visit_eq (hsize : f.size < 2 ^ 32) (h : Linked f 0 blocks) {fuel : Nat} (hfuel : blocks.length ≤ fuel) :
    visit f fuel (startOf 0 blocks) = some (visitedOf blocks) := by
  induction blocks generalizing fuel with
  | nil => cases fuel <;> rfl
  | cons b bs ih =>
    obtain ⟨fuel, rfl⟩ := Nat.exists_eq_succ_of_ne_zero (n := fuel) (by rintro rfl; cases hfuel)
    have hlink : (UInt32.ofNat (startOf 0 bs)).toNat = startOf 0 bs :=
      UInt32.toNat_ofNat_of_lt' (startOf_lt hsize h.2)
    have hrest : visit f fuel (b.headerInfo (startOf 0 bs)).blockHeader.nextBlockOffset.toNat = some (visitedOf bs) := by
      rw [Block.headerInfo, hlink]
      exact ih h.2 (Nat.le_of_succ_le_succ hfuel)
    have hrecords : loadLogRecords f ⟨(b.headerInfo (startOf 0 bs)).blockHeader, b.offset⟩ = some b.records :=
      loadLogRecords_eq h.1
    have hne : b.offset ≠ 0 := Nat.pos_iff_ne_zero.mp h.1.pos
    rw [startOf, visit, if_neg hne]
    simp only [h.1.header, Option.bind_some, BlockHeader.decode_encode, hrecords, hrest, Option.bind_eq_bind]
    rfl

theorem Chain.visits (h : Chain f blocks) (hsize : f.size < 2 ^ 32) :
    Visits f (startOf 0 blocks) (logOf blocks) (visitedOf blocks) := by
  have hfuel : blocks.length ≤ f.size := (Nat.le_mul_of_pos_left _ (by decide)).trans h.length_le
  refine ⟨visit_eq hsize h.linked hfuel, ?_, ?_, flatMap_records_visitedOf⟩
  · rw [map_offset_visitedOf, List.pairwise_map]
    refine h.ascending.imp fun {b c} hbc => ?_
    have hstop : b.stop = b.offset + defaultBlockSize.toNat := rfl
    have hpos : 0 < defaultBlockSize.toNat := by decide
    omega
  · intro v hv
    obtain ⟨b, hb, link, rfl⟩ := mem_visitedOf hv
    obtain ⟨_, hat⟩ := h.linked.exists_at hb
    have hcount : (UInt32.ofNat b.records.length).toNat = b.records.length :=
      UInt32.toNat_ofNat_of_lt' (Nat.lt_of_le_of_lt hat.room (by decide))
    refine ⟨hcount.symm, ?_, hat.inside⟩
    have hused := Block.used_le_stop hat.room
    simp only [Block.headerInfo, hcount]
    simp only [Block.used, Block.stop] at hused
    omega

theorem Chain.replays (h : Chain f blocks) (hsize : f.size < 2 ^ 32) : Replays f (startOf 0 blocks) (logOf blocks) := by
  rintro s name rfl
  exact ⟨_, _, loadChain_eq hsize h name, rfl, rfl⟩

end Chain

/-! ## Every run -/

namespace Ldb

variable {s s₀ : Ldb} {growPagesStep : Nat} {actions : List Action}

theorem Frame.firstBlock_iff (h : s.Frame) {o : Option Bytes} {t : TableInfo} (ht : s.table? o = some t) {first : Nat} :
    s.FirstBlock o first ↔ first = startOf 0 t.blocks := by
  cases o with
  | none =>
    obtain rfl := Option.some.inj ht
    have hdecode : (s.space.file.read 0 fileHeaderSize).bind FileHeader.decode = some fileHeader := by
      rw [h.onFile.header, Option.bind_some, FileHeader.decode_encode]
    have hstart : startOf 0 s.metatable.blocks = fileHeader.tableBlockOffset.toNat := h.onFile.start
    rw [hstart]
    constructor
    · rintro ⟨header, hheader, rfl⟩
      rw [Option.some.inj (hdecode.symm.trans hheader)]
    · rintro rfl
      exact ⟨fileHeader, hdecode, rfl⟩
  | some name =>
    have htables : s.layout.tables name = some t.blocks := by
      have ht : s.tables[name]? = some t := ht
      simp [layout, ht]
    constructor
    · rintro ⟨r, hr, hname, rfl⟩
      rw [h.metatable] at hr
      obtain ⟨n, bs, hn, hbs, -, hstart⟩ := h.onFile.listed r hr
      obtain rfl := Option.some.inj (hname.symm.trans hn)
      obtain rfl := Option.some.inj (htables.symm.trans hbs)
      exact hstart.symm
    · rintro rfl
      obtain ⟨r, hr, hname⟩ := h.onFile.complete name t.blocks htables
      obtain ⟨n, bs, hn, hbs, -, hstart⟩ := h.onFile.listed r hr
      obtain rfl := Option.some.inj (hname.symm.trans hn)
      obtain rfl := Option.some.inj (htables.symm.trans hbs)
      exact ⟨r, h.metatable.symm ▸ hr, hname, hstart⟩

theorem exists_table_of_layout {s' : Ldb} (h : s'.layout = s.layout) {o : Option Bytes} {t : TableInfo}
    (ht : s'.table? o = some t) : ∃ t₀, s.table? o = some t₀ ∧ t₀.blocks = t.blocks := by
  have hblocks : s.layout.blocks o = some t.blocks := by rw [← h, layout_blocks, ht]; rfl
  rw [layout_blocks] at hblocks
  exact Option.map_eq_some_iff.mp hblocks

theorem Remembers.reload {s' : Ldb} {logs : Option Bytes → List LogRecord} (h : s.Remembers logs)
    (hlayout : s'.layout = s.layout) : s'.Remembers logs := by
  intro o t ht
  obtain ⟨t₀, ht₀, heq⟩ := exists_table_of_layout hlayout ht
  rw [← heq]
  exact h o t₀ ht₀

/-- The history of a run is in its tables, whatever was done and however often the file was loaded. -/
theorem traced_inv {s : Traced} (hcreate : create growPagesStep = some s₀)
    (hrun : run Traced.step (.start s₀) actions = some s) (hsize : s.ldb.space.file.size < 2 ^ 32) :
    s.ldb.Frame ∧ s.ldb.Remembers s.logs := by
  obtain ⟨s₁, hs₁, hinv, -⟩ := create_inv growPagesStep
  obtain rfl := Option.some.inj (hs₁.symm.trans hcreate)
  refine run_invariant (I := fun s : Traced => s.ldb.space.file.size < 2 ^ 32 → s.ldb.Frame ∧ s.ldb.Remembers s.logs)
    ?_ (fun _ => ⟨hinv.frame, remembers_create hcreate⟩) hrun hsize
  intro s a s' h hs hsize
  obtain ⟨ldb, hldb, rfl⟩ := Option.map_eq_some_iff.mp hs
  cases a with
  | command c =>
    have hbefore : s.ldb.space.file.size < 2 ^ 32 := (apply_size_le hldb).trans_lt hsize
    obtain ⟨hframe, hlogs⟩ := h hbefore
    exact ⟨step_frame (fun _ => hframe) hldb hsize, hlogs.apply hframe hldb⟩
  | reload growPagesStep =>
    have hbefore : s.ldb.space.file.size < 2 ^ 32 := loadFile_file hldb ▸ hsize
    obtain ⟨hframe, hlogs⟩ := h hbefore
    obtain ⟨s₁, hs₁, hframe', -, hlayout, -⟩ := hframe.reload hbefore growPagesStep
    obtain rfl := Option.some.inj (hs₁.symm.trans hldb)
    exact ⟨hframe', hlogs.reload hlayout⟩

/-- In a file below 2^32 bytes the links lead from the first block of a table, or of the metatable, through blocks
further and further on that have all that was logged for it, and a load comes to their end. -/
theorem block_chain_has_log {s : Traced} (hcreate : create growPagesStep = some s₀)
    (hrun : run Traced.step (.start s₀) actions = some s) (hsize : s.ldb.space.file.size < 2 ^ 32) {o : Option Bytes}
    {t : TableInfo} (ht : s.ldb.table? o = some t) :
    (∃ first, s.ldb.FirstBlock o first) ∧ ∀ first, s.ldb.FirstBlock o first →
      (∃ vs, Visits s.ldb.space.file first (s.logs o) vs) ∧ Replays s.ldb.space.file first (s.logs o) := by
  obtain ⟨hframe, hlogs⟩ := traced_inv hcreate hrun hsize
  have hchain := hframe.chain ht
  rw [← hlogs o t ht]
  refine ⟨⟨_, (hframe.firstBlock_iff ht).mpr rfl⟩, fun first hfirst => ?_⟩
  obtain rfl := (hframe.firstBlock_iff ht).mp hfirst
  exact ⟨⟨_, hchain.visits hsize⟩, hchain.replays hsize⟩

/-- A table that was loaded, next to one that was deleted, gets one record more than its first block has room for. -/
def reloadedActions : List Action :=
  [.command (.createTable (ascii "t")), .command (.createTable (ascii "d")),
    .command (.append (ascii "t") (some (ascii "k")) (some (ascii "v")) none), .reload 1,
    .command (.setByIndex (ascii "t") 0 none (some (ascii "w")) none), .command (.deleteTable (ascii "d"))] ++
    List.replicate 84 (.command (.append (ascii "t") (some (ascii "k")) none none))

theorem block_chain_has_log_after_load :
    ∃ s t first vs, run Traced.step (.start fresh) reloadedActions = some s ∧
      s.ldb.table? (some (ascii "t")) = some t ∧ t.blocks.length = 2 ∧ (s.logs (some (ascii "t"))).length = 86 ∧
      s.ldb.FirstBlock (some (ascii "t")) first ∧ Visits s.ldb.space.file first (s.logs (some (ascii "t"))) vs := by
  have hview : ((run Traced.step (.start fresh) reloadedActions).bind fun s =>
      (s.ldb.table? (some (ascii "t"))).map fun t =>
        (s.ldb.space.file.size, t.blocks.length, (s.logs (some (ascii "t"))).length)) =
      some (20480, 2, 86) := by decide +kernel
  obtain ⟨s, hrun, hview⟩ := Option.bind_eq_some_iff.mp hview
  obtain ⟨t, ht, hview⟩ := Option.map_eq_some_iff.mp hview
  simp only [Prod.mk.injEq] at hview
  obtain ⟨hsize, hblocks, hlength⟩ := hview
  obtain ⟨⟨first, hfirst⟩, hvisits⟩ := block_chain_has_log create_fresh hrun (by rw [hsize]; decide) ht
  obtain ⟨⟨vs, hvs⟩, -⟩ := hvisits first hfirst
  exact ⟨s, t, first, vs, hrun, ht, hblocks, hlength, hfirst, hvs⟩

end Ldb

end Tiodb.Logdb
