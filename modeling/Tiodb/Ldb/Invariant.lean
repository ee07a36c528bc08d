import Tiodb.Ldb.Placement

/-!
# The invariant of an open database

The tables in memory are those on the file, and everything on the file lies apart and below
the next data offset. Every operation keeps this while the file stays below 2^32 bytes.
-/

namespace Tiodb.Logdb

open Lib

/-! ## Records and logs -/

theorem mem_loadRecord {records : List LogRecord} {r r' : LogRecord} (h : r' ∈ loadRecord records r) :
    r' ∈ records ∨ r' = r := by
  unfold loadRecord at h
  split at h
  · simpa using h
  · split at h
    · exact List.mem_or_eq_of_mem_set h
    · exact .inl h
  · cases h
  · have hpush : ∀ r', r' ∈ (if r.recordIndex.toNat = records.length then records ++ [r] else records) →
        r' ∈ records ∨ r' = r := by
      intro r' hr'
      split at hr'
      · simpa using hr'
      · exact .inl hr'
    dsimp only at h
    generalize (if r.recordIndex.toNat = records.length then records ++ [r] else records) = pushed at h hpush
    split at h
    case isTrue hlt =>
      rcases (List.mem_insertIdx (Nat.le_of_lt hlt)).mp h with rfl | h
      · exact .inr rfl
      · exact hpush r' h
    case isFalse => exact hpush r' h
  · split at h
    · exact .inl (List.mem_of_mem_eraseIdx h)
    · exact .inl h
  · exact .inl h

theorem mem_foldl_loadRecord {log records : List LogRecord} {r : LogRecord} (h : r ∈ log.foldl loadRecord records) :
    r ∈ records ∨ r ∈ log := by
  induction log generalizing records with
  | nil => exact .inl h
  | cons r' log ih =>
    rcases ih h with h | h
    · exact (mem_loadRecord h).imp_right fun h => by simp [h]
    · exact .inr (by simp [h])

theorem mem_logOf_of_mem_recordsOf {blocks : List Block} {r : LogRecord} (h : r ∈ recordsOf blocks) :
    r ∈ logOf blocks :=
  (mem_foldl_loadRecord h).resolve_left (by simp)

theorem mem_applyOperation {operation : Operation} {i : Nat} {records : List LogRecord} {r r' : LogRecord}
    (h : r' ∈ applyOperation operation i r records) : r' ∈ records ∨ r' = r := by
  cases operation with
  | append => simpa [applyOperation] using h
  | set => exact List.mem_or_eq_of_mem_set h
  | insert =>
    simp only [applyOperation] at h
    split at h
    · simpa using h
    · by_cases hi : i ≤ records.length
      · exact ((List.mem_insertIdx hi).mp h).symm
      · rw [List.insertIdx_of_length_lt (by omega)] at h
        exact .inl h
  | delete => exact .inl (List.mem_of_mem_eraseIdx h)
  | clear => cases h

theorem recordsOf_tailOf (bs : List Block) (b : Block) (next : Nat) (r : LogRecord) :
    recordsOf (bs ++ tailOf next b r) = loadRecord (recordsOf (bs ++ [b])) r := by
  rw [recordsOf, logOf_tailOf, List.foldl_append]
  rfl

theorem length_loadRecord_le (records : List LogRecord) (r : LogRecord) :
    (loadRecord records r).length ≤ records.length + 2 := by
  unfold loadRecord
  split
  · simp
  · split <;> simp
  · simp
  · dsimp only
    split <;> split <;> simp [List.length_insertIdx] <;> split <;> omega
  · have := List.length_eraseIdx_le records r.recordIndex.toNat
    split <;> omega
  · omega

theorem Chain.length_logOf_le {f : File} {blocks : List Block} (h : Chain f blocks) :
    (logOf blocks).length ≤ Block.capacity * blocks.length := by
  have hlinked := h.linked
  clear h
  induction blocks with
  | nil => simp [logOf]
  | cons b bs ih =>
    have hrest := ih hlinked.2
    have hroom := hlinked.1.room
    rw [logOf, List.flatMap_cons, List.length_append, ← logOf, List.length_cons, Nat.mul_add]
    omega

theorem Chain.length_recordsOf_lt {f : File} {blocks : List Block} (h : Chain f blocks) (hsize : f.size < 2 ^ 32) :
    (recordsOf blocks).length < 2 ^ 32 := by
  have hload : ∀ log records : List LogRecord, (log.foldl loadRecord records).length ≤ records.length + 2 * log.length := by
    intro log
    induction log with
    | nil => simp
    | cons r log ih =>
      intro records
      have hfirst := length_loadRecord_le records r
      have hrest := ih (loadRecord records r)
      rw [List.foldl_cons, List.length_cons]
      omega
  have hrecords := hload (logOf blocks) []
  have hblocks := h.length_logOf_le
  have hfile := h.length_le
  rw [recordsOf]
  simp only [Block.capacity, List.length_nil, defaultBlockSize, UInt32.reduceToNat] at *
  omega

/-! ## What an operation leaves alone -/

/-- The bytes that no write of an operation touches, on a table whose last block is `b`. -/
def Untouched (next : Nat) (b : Block) (i : Nat) : Prop := i < next ∧ ¬ (b.offset ≤ i ∧ i < b.stop)

section Frame

variable {f f' : File} {l : Layout} {next : Nat} {owner o : Option Bytes} {bs cs : List Block} {b c : Block}
  {r : LogRecord} {P : Nat → Prop}

theorem extent_last (hlast : l.blocks owner = some (bs ++ [b])) :
    l.extent (.block owner bs.length) = some (b.offset, b.stop) :=
  Layout.extent_block.mpr ⟨_, b, hlast, by simp, rfl⟩

/-- Of all the items, an operation touches only the last block of its table. -/
theorem Layout.PlacedOn.untouched {Q : Item → Prop} (h : l.PlacedOn Q next) (hlast : l.blocks owner = some (bs ++ [b]))
    (hQb : Q (.block owner bs.length)) {x : Item} {e : Nat × Nat} (hQx : Q x) (hx : x ≠ .block owner bs.length)
    (he : l.extent x = some e) {i : Nat} (hi : e.1 ≤ i) (hi' : i < e.2) : Untouched next b i := by
  have hbelow := h.below x e hQx he
  refine ⟨by omega, fun hin => ?_⟩
  rcases h.apart_block hQx hQb hx he (extent_last hlast) with hapart | hapart
  · exact absurd hin.1 (by simp only at hapart; omega)
  · exact absurd hin.2 (by simp only at hapart; omega)

theorem Layout.Placed.untouched (h : l.Placed next) (hlast : l.blocks owner = some (bs ++ [b])) {x : Item}
    {e : Nat × Nat} (hx : x ≠ .block owner bs.length) (he : l.extent x = some e) {i : Nat} (hi : e.1 ≤ i)
    (hi' : i < e.2) : Untouched next b i :=
  (Layout.placed_iff.mp h).untouched hlast trivial trivial hx he hi hi'

theorem Layout.Framed.untouched (h : l.Framed next) (hlast : l.blocks owner = some (bs ++ [b])) {x : Item}
    {e : Nat × Nat} (hx : x ≠ .block owner bs.length) (he : l.extent x = some e) (hframe : x.OfFrame) {i : Nat}
    (hi : e.1 ≤ i) (hi' : i < e.2) : Untouched next b i :=
  Layout.PlacedOn.untouched h hlast trivial hframe hx he hi hi'

theorem Linked.used_le_stop {after : Nat} (h : Linked f after bs) (hc : c ∈ bs) : c.used ≤ c.stop := by
  obtain ⟨link, hat⟩ := h.exists_at hc
  exact Block.used_le_stop hat.room

theorem Layout.Framed.untouched_block (h : l.Framed next) (hlast : l.blocks owner = some (bs ++ [b]))
    (hcs : l.blocks o = some cs) {i : Nat} (hc : cs[i]? = some c) (hne : o = owner → i ≠ bs.length)
    (hused : c.used ≤ c.stop) {k : Nat} (hk : c.offset ≤ k) (hk' : k < c.used) : Untouched next b k := by
  have hx : Item.block o i ≠ .block owner bs.length := fun h => hne (Item.block.inj h).1 (Item.block.inj h).2
  exact h.untouched hlast hx (Layout.extent_block.mpr ⟨cs, c, hcs, hc, rfl⟩) trivial hk (hk'.trans_le hused)

theorem Chain.of_keeps (h : Chain f cs) (hk : f.Keeps P f')
    (hP : ∀ c ∈ cs, ∀ i, c.offset ≤ i → i < c.used → P i) : Chain f' cs :=
  ⟨h.ne_nil, h.linked.of_keeps hk hP, h.ascending⟩

theorem Chain.of_other (h : Chain f cs) (hp : l.Framed next) (hlast : l.blocks owner = some (bs ++ [b]))
    (hcs : l.blocks o = some cs) (hne : o ≠ owner) (hk : f.Keeps (Untouched next b) f') : Chain f' cs := by
  refine h.of_keeps hk fun c hc i hi hi' => ?_
  obtain ⟨j, hj⟩ := List.mem_iff_getElem?.mp hc
  exact hp.untouched_block hlast hcs hj (fun ho => absurd ho hne) (h.linked.used_le_stop hc) hi hi'

theorem Chain.append (h : Chain f (bs ++ [b])) (hp : l.Framed next) (hlast : l.blocks owner = some (bs ++ [b]))
    (hk : f.Keeps (Untouched next b) f') (htail : Linked f' 0 (tailOf next b r)) : Chain f' (bs ++ tailOf next b r) := by
  have hstop : ∀ c ∈ bs ++ [b], c.stop ≤ next := fun c hc => hp.below_block hlast hc
  refine ⟨?_, ?_, ?_⟩
  · unfold tailOf
    split <;> simp
  · rw [linked_append, startOf_tailOf]
    refine ⟨?_, htail⟩
    have hbs : Linked f b.offset bs := (linked_append.mp h.linked).1
    refine hbs.of_keeps hk fun c hc i hi hi' => ?_
    obtain ⟨j, hj⟩ := List.mem_iff_getElem?.mp hc
    have hj' : j < bs.length := (List.getElem?_eq_some_iff.mp hj).1
    exact hp.untouched_block hlast hlast (getElem?_append_some hj _) (fun _ => Nat.ne_of_lt hj')
      (hbs.used_le_stop hc) hi hi'
  · obtain ⟨hbs, -, hcross⟩ := List.pairwise_append.mp h.ascending
    refine List.pairwise_append.mpr ⟨hbs, ?_, fun c hc d hd => ?_⟩
    · unfold tailOf
      split
      · simp
      · simpa using hstop b (by simp)
    · have hcb := hcross c hc b (by simp)
      unfold tailOf at hd
      split at hd
      · obtain rfl := List.mem_singleton.mp hd
        exact hcb
      · rcases List.mem_cons.mp hd with rfl | hd
        · exact hcb
        · obtain rfl := List.mem_singleton.mp hd
          exact hstop c (by simp [hc])

theorem readField_key (hp : l.Framed next) (hlast : l.blocks owner = some (bs ++ [b]))
    (hr : r ∈ logOf l.metatable) {name : Bytes} (h : readField f r.key = some name)
    (hk : f.Keeps (Untouched next b) f') : readField f' r.key = some name := by
  obtain ⟨j, hj⟩ := List.mem_iff_getElem?.mp hr
  have he : l.extent (.field none j .key) = some (r.key.start, r.key.stop) :=
    Layout.extent_field.mpr ⟨fun _ => rfl, _, r, rfl, hj, rfl⟩
  exact File.read_of_keeps h hk fun i hi hi' => hp.untouched hlast (by simp) he rfl hi hi'

theorem header_of_keeps (hp : l.Framed next) (hlast : l.blocks owner = some (bs ++ [b]))
    (h : f.read 0 fileHeaderSize = some fileHeader.encode) (hk : f.Keeps (Untouched next b) f') :
    f'.read 0 fileHeaderSize = some fileHeader.encode := by
  have he : l.extent .header = some (0, fileHeaderSize) := rfl
  exact File.read_of_keeps h hk fun i hi hi' => hp.untouched hlast (by simp) he trivial hi (by simpa using hi')

theorem startOf_append_tailOf (bs : List Block) (b : Block) (next : Nat) (r : LogRecord) :
    startOf 0 (bs ++ tailOf next b r) = startOf 0 (bs ++ [b]) := by
  cases bs with
  | nil => exact startOf_tailOf 0 next b r
  | cons c bs => rfl

theorem OnFile.append_table {name : Bytes} (h : OnFile f l) (hp : l.Framed next)
    (hlast : l.tables name = some (bs ++ [b])) (hk : f.Keeps (Untouched next b) f')
    (htail : Linked f' 0 (tailOf next b r)) : OnFile f' (l.set (some name) (bs ++ tailOf next b r)) := by
  have hlast' : l.blocks (some name) = some (bs ++ [b]) := hlast
  refine ⟨header_of_keeps hp hlast' h.header hk, h.metatable.of_other (o := none) hp hlast' rfl (by simp) hk, h.start, ?_, ?_⟩
  · intro r' hr'
    obtain ⟨n, cs, hn, hcs, hchain, hcsStart⟩ := h.listed r' hr'
    have hn' := readField_key hp hlast' (mem_logOf_of_mem_recordsOf hr') hn hk
    by_cases heq : n = name
    · subst heq
      obtain rfl := Option.some.inj (hlast.symm.trans hcs)
      exact ⟨n, _, hn', if_pos rfl, hchain.append hp hlast' hk htail,
        (startOf_append_tailOf bs b next r).trans hcsStart⟩
    · refine ⟨n, cs, hn', (if_neg heq).trans hcs, ?_, hcsStart⟩
      exact hchain.of_other (o := some n) hp hlast' hcs (by simpa using heq) hk
  · intro n cs hcs
    have hold : ∃ cs, l.tables n = some cs := by
      by_cases heq : n = name
      · exact ⟨_, heq ▸ hlast⟩
      · exact ⟨cs, (if_neg heq).symm.trans hcs⟩
    obtain ⟨cs', hcs'⟩ := hold
    obtain ⟨r', hr', hn⟩ := h.complete n cs' hcs'
    exact ⟨r', hr', readField_key hp hlast' (mem_logOf_of_mem_recordsOf hr') hn hk⟩

theorem OnFile.listed_of_append (h : OnFile f l) (hp : l.Framed next) (hlast : l.blocks none = some (bs ++ [b]))
    (hk : f.Keeps (Untouched next b) f') {r' : LogRecord} (hr' : r' ∈ recordsOf l.metatable) :
    ∃ name cs, readField f r'.key = some name ∧ readField f' r'.key = some name ∧ l.tables name = some cs ∧
      Chain f' cs ∧ startOf 0 cs = r'.value.start := by
  obtain ⟨n, cs, hn, hcs, hchain, hstart⟩ := h.listed r' hr'
  have hn' := readField_key hp hlast (mem_logOf_of_mem_recordsOf hr') hn hk
  exact ⟨n, cs, hn, hn', hcs, hchain.of_other (o := some n) hp hlast hcs (by simp) hk, hstart⟩

theorem OnFile.create_table {name : Bytes} (h : OnFile f l) (hp : l.Framed next)
    (hlast : l.metatable = bs ++ [b]) (hk : f.Keeps (Untouched next b) f') (htail : Linked f' 0 (tailOf next b r))
    (hnew : l.tables name = none) (hrecords : recordsOf (bs ++ tailOf next b r) = recordsOf l.metatable ++ [r])
    (hkey : readField f' r.key = some name) (hcs : Chain f' cs) (hstart : startOf 0 cs = r.value.start) :
    OnFile f' ((l.set none (bs ++ tailOf next b r)).set (some name) cs) := by
  have hlast' : l.blocks none = some (bs ++ [b]) := congrArg some hlast
  refine ⟨header_of_keeps hp hlast' h.header hk, (hlast ▸ h.metatable).append hp hlast' hk htail, ?_, ?_, ?_⟩
  · exact (startOf_append_tailOf bs b next r).trans (hlast ▸ h.start)
  · intro r' hr'
    change r' ∈ recordsOf (bs ++ tailOf next b r) at hr'
    rw [hrecords] at hr'
    rcases List.mem_append.mp hr' with hr' | hr'
    · obtain ⟨n, cs', -, hn, hcs', hchain, hs⟩ := h.listed_of_append hp hlast' hk hr'
      have hne : n ≠ name := fun heq => by simp [← heq, hcs'] at hnew
      exact ⟨n, cs', hn, (if_neg hne).trans hcs', hchain, hs⟩
    · obtain rfl := List.mem_singleton.mp hr'
      exact ⟨name, cs, hkey, if_pos rfl, hcs, hstart⟩
  · intro n cs' hcs'
    change ∃ r' ∈ recordsOf (bs ++ tailOf next b r), _
    rw [hrecords]
    by_cases heq : n = name
    · exact ⟨r, by simp, heq ▸ hkey⟩
    · obtain ⟨r', hr', hn⟩ := h.complete n cs' ((if_neg heq).symm.trans hcs')
      exact ⟨r', by simp [hr'], readField_key hp hlast' (mem_logOf_of_mem_recordsOf hr') hn hk⟩

def Layout.erase (l : Layout) (name : Bytes) : Layout :=
  { l with tables := fun n => if n = name then none else l.tables n }

theorem OnFile.delete_table {name : Bytes} {i : Nat} {r₀ : LogRecord} (h : OnFile f l) (hp : l.Framed next)
    (hlast : l.metatable = bs ++ [b]) (hk : f.Keeps (Untouched next b) f') (htail : Linked f' 0 (tailOf next b r))
    (hrecords : recordsOf (bs ++ tailOf next b r) = (recordsOf l.metatable).eraseIdx i)
    (hr₀ : (recordsOf l.metatable)[i]? = some r₀) (hname : readField f r₀.key = some name)
    (hdistinct : ((recordsOf l.metatable).map fun r => readField f r.key).Nodup) :
    OnFile f' ((l.set none (bs ++ tailOf next b r)).erase name) := by
  have hlast' : l.blocks none = some (bs ++ [b]) := congrArg some hlast
  -- no other record has the name
  have hother : ∀ (j : Nat) r', (recordsOf l.metatable)[j]? = some r' → readField f r'.key = some name → j = i := by
    intro j r' hj hn
    have hji : ((recordsOf l.metatable).map fun r => readField f r.key)[j]? =
        ((recordsOf l.metatable).map fun r => readField f r.key)[i]? := by
      rw [List.getElem?_map, List.getElem?_map, hj, hr₀, Option.map_some, Option.map_some, hn, hname]
    have hlt : j < ((recordsOf l.metatable).map fun r => readField f r.key).length := by
      rw [List.length_map]
      exact (List.getElem?_eq_some_iff.mp hj).1
    exact (List.getElem?_inj hlt hdistinct).mp hji
  refine ⟨header_of_keeps hp hlast' h.header hk, (hlast ▸ h.metatable).append hp hlast' hk htail, ?_, ?_, ?_⟩
  · exact (startOf_append_tailOf bs b next r).trans (hlast ▸ h.start)
  · intro r' hr'
    change r' ∈ recordsOf (bs ++ tailOf next b r) at hr'
    rw [hrecords] at hr'
    obtain ⟨j, hj, hji⟩ := List.mem_eraseIdx_iff_getElem?.mp hr'
    obtain ⟨n, cs', hn₀, hn, hcs', hchain, hs⟩ := h.listed_of_append hp hlast' hk (List.mem_of_getElem? hji)
    have hne : n ≠ name := fun heq => hj (hother j r' hji (heq ▸ hn₀))
    exact ⟨n, cs', hn, (if_neg hne).trans hcs', hchain, hs⟩
  · intro n cs' hcs'
    have hne : n ≠ name := by
      rintro rfl
      simp [Layout.erase] at hcs'
    change ∃ r' ∈ recordsOf (bs ++ tailOf next b r), _
    rw [hrecords]
    obtain ⟨r', hr', hn⟩ := h.complete n cs' ((if_neg hne).symm.trans hcs')
    obtain ⟨j, hj⟩ := List.mem_iff_getElem?.mp hr'
    have hji : j ≠ i := by
      rintro rfl
      obtain rfl := Option.some.inj (hr₀.symm.trans hj)
      exact hne (Option.some.inj (hn.symm.trans hname))
    exact ⟨r', List.mem_eraseIdx_iff_getElem?.mpr ⟨j, hji, hj⟩,
      readField_key hp hlast' (mem_logOf_of_mem_recordsOf hr') hn hk⟩

end Frame

/-! ## The invariant -/

namespace Ldb

def layout (s : Ldb) : Layout := ⟨s.metatable.blocks, fun name => s.tables[name]?.map (·.blocks)⟩

def table? (s : Ldb) : Option Bytes → Option TableInfo
  | none => some s.metatable
  | some name => s.tables[name]?

structure Inv (s : Ldb) : Prop where
  next_le : s.space.nextDataOffset ≤ s.space.file.size
  onFile : OnFile s.space.file s.layout
  placed : s.layout.Placed s.space.nextDataOffset
  infos : ∀ o t, s.table? o = some t → ∃ bs b, t.blocks = bs ++ [b] ∧ t.lastBlockHeaderInfo = b.headerInfo 0
  names : ∀ (name : Bytes) t, s.tables[name]? = some t → t.name = name
  records : ∀ o t, s.table? o = some t → ∀ r ∈ t.records, r ∈ logOf t.blocks
  metatable : s.metatable.records = recordsOf s.metatable.blocks
  distinct : (s.metatable.records.map fun r => readField s.space.file r.key).Nodup
  /-- The last field of a metatable's record is the first block of a table. -/
  ends : ∀ r ∈ logOf s.metatable.blocks, r.key.stop ≤ lastFieldEnd r ∧ lastFieldEnd r ≤ s.space.nextDataOffset

/-- The same less the places of the tables' fields, which only have to be inside the file. -/
structure Frame (s : Ldb) : Prop where
  next_le : s.space.nextDataOffset ≤ s.space.file.size
  onFile : OnFile s.space.file s.layout
  framed : s.layout.Framed s.space.nextDataOffset
  infos : ∀ o t, s.table? o = some t → ∃ bs b, t.blocks = bs ++ [b] ∧ t.lastBlockHeaderInfo = b.headerInfo 0
  names : ∀ (name : Bytes) t, s.tables[name]? = some t → t.name = name
  records : ∀ o t, s.table? o = some t → ∀ r ∈ t.records, r ∈ logOf t.blocks
  metatable : s.metatable.records = recordsOf s.metatable.blocks
  distinct : (s.metatable.records.map fun r => readField s.space.file r.key).Nodup
  ends : ∀ r ∈ logOf s.metatable.blocks, r.key.stop ≤ lastFieldEnd r ∧ lastFieldEnd r ≤ s.space.nextDataOffset
  stops : ∀ (name : Bytes) t, s.tables[name]? = some t → ∀ r ∈ logOf t.blocks, ∀ p, (r.part p).stop ≤ s.space.file.size

theorem layout_blocks (s : Ldb) (o : Option Bytes) : s.layout.blocks o = (s.table? o).map (·.blocks) := by
  cases o <;> rfl

theorem layout_insert (s : Ldb) (sp : Space) (name : Bytes) (t : TableInfo) :
    layout { s with space := sp, tables := s.tables.insert name t } = s.layout.set (some name) t.blocks := by
  simp only [layout, Layout.set, Layout.mk.injEq, true_and]
  funext n
  by_cases h : n = name
  · subst h
    simp
  · rw [insert_of_ne _ _ (Ne.symm h), if_neg h]

variable {s : Ldb} {o : Option Bytes} {t : TableInfo}

theorem Inv.frame (h : s.Inv) : s.Frame := by
  refine ⟨h.next_le, h.onFile, h.placed.framed, h.infos, h.names, h.records, h.metatable, h.distinct, h.ends, ?_⟩
  intro name t ht r hr p
  obtain ⟨j, hj⟩ := List.mem_iff_getElem?.mp hr
  have hblocks : s.layout.blocks (some name) = some t.blocks := by simp [layout, Layout.blocks, ht]
  have hextent : s.layout.extent (.field (some name) j p) = some ((r.part p).start, (r.part p).stop) :=
    Layout.extent_field.mpr ⟨by simp, _, r, hblocks, hj, rfl⟩
  exact (h.placed.below _ _ hextent).trans h.next_le

theorem Frame.inv (h : s.Frame) (hplaced : s.layout.Placed s.space.nextDataOffset) : s.Inv :=
  ⟨h.next_le, h.onFile, hplaced, h.infos, h.names, h.records, h.metatable, h.distinct, h.ends⟩

theorem Frame.chain (h : s.Frame) (ht : s.table? o = some t) : Chain s.space.file t.blocks := by
  cases o with
  | none =>
    obtain rfl := Option.some.inj ht
    exact h.onFile.metatable
  | some name =>
    have htables : s.layout.tables name = some t.blocks := by
      have ht : s.tables[name]? = some t := ht
      simp [layout, ht]
    obtain ⟨r, hr, hn⟩ := h.onFile.complete name t.blocks htables
    obtain ⟨n, bs, hn', hbs, hchain, -⟩ := h.onFile.listed r hr
    obtain rfl := Option.some.inj (hn.symm.trans hn')
    obtain rfl := Option.some.inj (htables.symm.trans hbs)
    exact hchain

/-- An operation that logs a record can do so, and what it does. -/
theorem Frame.append_spec (h : s.Frame) (ht : s.table? o = some t) {operation : Operation} {recordIndex : UInt32}
    (hset : operation = .set → recordIndex.toNat < t.records.length) (key value metadata : Option Bytes) :
    ∃ sp t' r bs b, s.space.appendLogRecord t operation recordIndex key value metadata = some (sp, t') ∧
      t.blocks = bs ++ [b] ∧ Appended s.space sp t t' bs b operation recordIndex key value metadata r := by
  obtain ⟨bs, b, hblocks, hinfo⟩ := h.infos o t ht
  have hlast : s.layout.blocks o = some (bs ++ [b]) := by rw [layout_blocks, ht, Option.map_some, hblocks]
  have hchain := h.chain ht
  rw [hblocks] at hchain
  have hb : b.At s.space.file 0 := linked_singleton.mp (linked_append.mp hchain.linked).2
  have hstop : b.stop ≤ s.space.nextDataOffset := h.framed.below_block hlast (by simp)
  obtain ⟨sp, t', r, heq, happ⟩ :=
    appendLogRecord_spec h.next_le hblocks hinfo hb hstop hset key value metadata
  exact ⟨sp, t', r, bs, b, heq, hblocks, happ⟩

end Ldb

section Appended

variable {s s' : Space} {t t' : TableInfo} {bs : List Block} {b : Block} {operation : Operation} {recordIndex : UInt32}
  {key value metadata : Option Bytes} {r : LogRecord}

theorem Appended.keeps (h : Appended s s' t t' bs b operation recordIndex key value metadata r)
    (hroom : b.records.length ≤ Block.capacity) : s.file.Keeps (Untouched s.nextDataOffset b) s'.file := by
  obtain ⟨g, header, hthrough, hwrite, hlen⟩ := h.commit
  have hoffset : b.offset + blockHeaderSize ≤ b.used := Nat.le_add_right _ _
  have hused := Block.used_le_stop hroom
  have hbefore : s.file.Keeps (Untouched s.nextDataOffset b) g.file :=
    hthrough.keeps.mono fun i hi => ⟨hi.1, fun hin => hi.2 ⟨by omega, hin.2⟩⟩
  refine hbefore.trans (Space.through_of_write hwrite fun i hi hi' hin => hin.2 ⟨hi, by omega⟩).keeps

theorem Appended.lastInfo (h : Appended s s' t t' bs b operation recordIndex key value metadata r) :
    ∃ bs' b', t'.blocks = bs' ++ [b'] ∧ t'.lastBlockHeaderInfo = b'.headerInfo 0 := by
  rw [h.blocks, h.info, tailOf, lastOf]
  split
  · exact ⟨bs, _, rfl, rfl⟩
  · exact ⟨bs ++ [b], _, by simp, rfl⟩

theorem Appended.mem_records (h : Appended s s' t t' bs b operation recordIndex key value metadata r)
    (hblocks : t.blocks = bs ++ [b]) (hrecords : ∀ r ∈ t.records, r ∈ logOf t.blocks) :
    ∀ r ∈ t'.records, r ∈ logOf t'.blocks := by
  intro r' hr'
  rw [h.records] at hr'
  rw [h.blocks, logOf_tailOf, ← hblocks]
  rcases mem_applyOperation hr' with hr' | rfl
  · exact List.mem_append_left _ (hrecords r' hr')
  · simp

end Appended

end Tiodb.Logdb
