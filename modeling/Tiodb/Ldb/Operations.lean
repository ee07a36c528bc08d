import Tiodb.Ldb.Invariant

/-!
# Every operation keeps the invariant

An operation on a table logs one record there; creating and deleting a table logs one
record in the metatable. A load starts from the file alone.
-/

namespace Tiodb.Logdb

open Lib

/-! ## What an operation on a table comes to -/

/-- The operation logs one record, or it does nothing. An insert where there is no record is one at the start, and
only some operations do that. -/
def Logs (s : Space) (t : TableInfo) (insertsFirst : Prop) (r : Outcome) : Prop :=
  r.1 = s ∧ r.2.1 = t ∨
    ∃ operation recordIndex key value metadata,
      s.appendLogRecord t operation recordIndex key value metadata = some (r.1, r.2.1) ∧
      (operation = .set ∨ operation = .delete → recordIndex.toNat < t.records.length) ∧
      (operation = .insert → recordIndex.toNat < t.records.length ∨ recordIndex = 0 ∧ insertsFirst)

section Logs

variable {s : Space} {t : TableInfo} {out : Outcome} {key value metadata : Option Bytes} {index startIndex : UInt32}
  {k : Bytes}

theorem logs_append (h : s.append t key value metadata = some out) : Logs s t False out := by
  obtain ⟨r, hr, rfl⟩ := Option.map_eq_some_iff.mp h
  exact .inr ⟨.append, _, key, value, metadata, hr, by simp, by simp⟩

theorem logs_clearAllRecords (h : s.clearAllRecords t = some out) : Logs s t False out := by
  obtain ⟨r, hr, rfl⟩ := Option.map_eq_some_iff.mp h
  exact .inr ⟨.clear, _, none, none, none, hr, by simp, by simp⟩

theorem logs_setByIndex (h : s.setByIndex t index key value metadata = some out) : Logs s t False out := by
  unfold Space.setByIndex at h
  split at h
  case isTrue hlt =>
    obtain ⟨r, hr, rfl⟩ := Option.map_eq_some_iff.mp h
    exact .inr ⟨.set, _, key, value, metadata, hr, fun _ => hlt, by simp⟩
  case isFalse =>
    obtain rfl := Option.some.inj h
    exact .inl ⟨rfl, rfl⟩

theorem logs_set (h : s.set t startIndex k value metadata = some out) : Logs s t False out := by
  obtain ⟨found, -, h⟩ := Option.bind_eq_some_iff.mp h
  cases found with
  | none => exact logs_append h
  | some index => exact logs_setByIndex h

theorem logs_deleteByIndex (h : s.deleteByIndex t index = some out) : Logs s t False out := by
  unfold Space.deleteByIndex at h
  split at h
  case isTrue hlt =>
    obtain ⟨r, hr, rfl⟩ := Option.map_eq_some_iff.mp h
    exact .inr ⟨.delete, _, none, none, none, hr, fun _ => hlt, by simp⟩
  case isFalse =>
    obtain rfl := Option.some.inj h
    exact .inl ⟨rfl, rfl⟩

theorem logs_delete (h : s.delete t startIndex k = some out) : Logs s t False out := by
  obtain ⟨found, -, h⟩ := Option.bind_eq_some_iff.mp h
  cases found with
  | none =>
    obtain rfl := Option.some.inj h
    exact .inl ⟨rfl, rfl⟩
  | some index => exact logs_deleteByIndex h

theorem logs_insertByIndex (h : s.insertByIndex t index key value metadata = some out) : Logs s t (index = 0) out := by
  unfold Space.insertByIndex at h
  split at h
  case isTrue =>
    obtain rfl := Option.some.inj h
    exact .inl ⟨rfl, rfl⟩
  case isFalse hindex =>
    obtain ⟨r, hr, rfl⟩ := Option.map_eq_some_iff.mp h
    have hok : index.toNat < t.records.length ∨ index = 0 ∧ index = 0 := by
      by_contra hnot
      exact hindex ⟨fun h0 => hnot (.inr ⟨h0, h0⟩), fun hlt => hnot (.inl hlt)⟩
    exact .inr ⟨.insert, _, key, value, metadata, hr, by simp, fun _ => hok⟩

theorem Logs.mono {first first' : Prop} (h : Logs s t first out) (himp : first → first') : Logs s t first' out := by
  refine h.imp_right ?_
  rintro ⟨operation, recordIndex, key, value, metadata, heq, hset, hinsert⟩
  exact ⟨operation, recordIndex, key, value, metadata, heq, hset, fun hop => (hinsert hop).imp_right (And.imp_right himp)⟩

end Logs

/-! ## Searching -/

section Search

variable {f : File} {key : Bytes} {rs : List LogRecord} {n : Nat} {index startIndex : UInt32} {t : TableInfo}

theorem findKeyFrom_sound (h : findKeyFrom f key n rs = some (some index)) :
    ∃ (i : Nat) (r : LogRecord), rs[i]? = some r ∧ index = UInt32.ofNat (n + i) ∧ getField f r.key = some key := by
  induction rs generalizing n with
  | nil => cases h
  | cons r rs ih =>
    have hrest : findKeyFrom f key (n + 1) rs = some (some index) →
        ∃ (i : Nat) (r' : LogRecord), (r :: rs)[i]? = some r' ∧ index = UInt32.ofNat (n + i) ∧
          getField f r'.key = some key := by
      intro h
      obtain ⟨i, r', hr', hindex, hkey⟩ := ih h
      exact ⟨i + 1, r', hr', by rw [hindex, Nat.add_right_comm, Nat.add_assoc], hkey⟩
    rw [findKeyFrom] at h
    split at h
    · exact hrest h
    · obtain ⟨found, hfound, h⟩ := Option.bind_eq_some_iff.mp h
      split at h
      case isTrue heq =>
        obtain rfl := Option.some.inj (Option.some.inj h)
        exact ⟨0, r, rfl, rfl, heq ▸ hfound⟩
      case isFalse => exact hrest h

theorem findKey_sound (h : findKey f t startIndex key = some (some index)) :
    ∃ (i : Nat) (r : LogRecord), t.records[i]? = some r ∧ index = UInt32.ofNat i ∧ getField f r.key = some key := by
  unfold findKey at h
  split at h
  · obtain ⟨i, r, hr, hindex, hkey⟩ := findKeyFrom_sound h
    rw [List.getElem?_drop] at hr
    exact ⟨_, r, hr, hindex, hkey⟩
  · cases h

theorem exists_findKey (h : ∀ r ∈ t.records, ∃ k, getField f r.key = some k) (startIndex : UInt32) (key : Bytes) :
    ∃ found, findKey f t startIndex key = some found := by
  have hfrom : ∀ (rs : List LogRecord) n, (∀ r ∈ rs, ∃ k, getField f r.key = some k) →
      ∃ found, findKeyFrom f key n rs = some found := by
    intro rs
    induction rs with
    | nil => exact fun n _ => ⟨none, rfl⟩
    | cons r rs ih =>
      intro n hrs
      obtain ⟨k, hk⟩ := hrs r (by simp)
      obtain ⟨found, hfound⟩ := ih (n + 1) fun r' hr' => hrs r' (by simp [hr'])
      rw [findKeyFrom]
      split
      · exact ⟨found, hfound⟩
      · rw [hk, Option.bind_some]
        split
        · exact ⟨_, rfl⟩
        · exact ⟨found, hfound⟩
  unfold findKey
  split
  · exact hfrom _ _ fun r hr => h r (List.mem_of_mem_drop hr)
  · exact ⟨none, rfl⟩

theorem readField_of_getField {field : Field} {k k' : Bytes} (h : getField f field = some k)
    (h' : readField f field = some k') : k = k' := by
  unfold getField at h
  split at h
  case isTrue hzero =>
    obtain rfl := Option.some.inj h
    have hlen := File.length_of_read h'
    rw [hzero] at hlen
    exact (List.length_eq_zero_iff.mp hlen).symm
  case isFalse => exact Option.some.inj (h.symm.trans h')

theorem exists_getField {field : Field} (h : field.stop ≤ f.size) : ∃ k, getField f field = some k := by
  unfold getField
  split
  · exact ⟨[], rfl⟩
  · exact File.exists_read h

end Search

/-! ## The file only grows -/

section Size

variable {s s' : Space} {t t' : TableInfo} {operation : Operation} {recordIndex : UInt32}
  {key value metadata : Option Bytes}

theorem ensureSpace_size_le (s : Space) (n : Nat) : s.file.size ≤ (s.ensureSpace n).file.size :=
  (Space.ensureSpace_through (fun _ => True) s n).keeps.size

theorem writeLdbData_size_le {data : Option Bytes} {field : Field} (h : s.writeLdbData data = some (s', field)) :
    s.file.size ≤ s'.file.size := by
  cases data with
  | none =>
    obtain ⟨rfl, -⟩ := Prod.mk.inj (Option.some.inj h)
    exact Nat.le_refl _
  | some data =>
    obtain ⟨s₁, hs₁, heq⟩ := Option.map_eq_some_iff.mp h
    obtain ⟨rfl, -⟩ := Prod.mk.inj heq
    change s.file.size ≤ s₁.file.size
    rw [Space.size_of_write hs₁]
    exact ensureSpace_size_le s _

theorem createNewBlockIfNeeded_size_le {info current : BlockHeaderInfo} {new : Option BlockHeaderInfo}
    (h : s.createNewBlockIfNeeded info = some (s', current, new)) : s.file.size ≤ s'.file.size := by
  unfold Space.createNewBlockIfNeeded at h
  split at h
  · obtain ⟨rfl, -⟩ := Prod.mk.inj (Option.some.inj h)
    exact Nat.le_refl _
  · obtain ⟨s₁, hs₁, heq⟩ := Option.map_eq_some_iff.mp h
    obtain ⟨rfl, -⟩ := Prod.mk.inj heq
    change s.file.size ≤ s₁.file.size
    rw [Space.size_of_write hs₁]
    exact ensureSpace_size_le s _

theorem writeLogRecord_size {info current : BlockHeaderInfo} {new : Option BlockHeaderInfo} {r : LogRecord}
    (h : s.writeLogRecord info new r = some (s', current)) : s'.file.size = s.file.size := by
  simp only [Space.writeLogRecord, Option.bind_eq_bind, Option.bind_eq_some_iff] at h
  obtain ⟨s₁, hs₁, s₂, hs₂, h⟩ := h
  have hsize : s₂.file.size = s.file.size := (Space.size_of_write hs₂).trans (Space.size_of_write hs₁)
  cases new with
  | none =>
    obtain ⟨rfl, -⟩ := Prod.mk.inj (Option.some.inj h)
    exact hsize
  | some new =>
    obtain ⟨s₃, hs₃, heq⟩ := Option.map_eq_some_iff.mp h
    obtain ⟨rfl, -⟩ := Prod.mk.inj heq
    exact (Space.size_of_write hs₃).trans hsize

theorem appendLogRecord_size_le
    (h : s.appendLogRecord t operation recordIndex key value metadata = some (s', t')) :
    s.file.size ≤ s'.file.size := by
  simp only [Space.appendLogRecord, Option.bind_eq_bind, Option.bind_eq_some_iff] at h
  obtain ⟨⟨s₀, current, new⟩, h₀, ⟨s₁, k⟩, h₁, ⟨s₂, v⟩, h₂, ⟨s₃, m⟩, h₃, r, -, ⟨s₄, info⟩, h₄, h⟩ := h
  obtain ⟨rfl, -⟩ := Prod.mk.inj (Option.some.inj h)
  have hblock : s.file.size ≤ s₀.file.size := by
    have := createNewBlockIfNeeded_size_le h₀
    exact this
  change s.file.size ≤ s₄.file.size
  calc s.file.size ≤ s₀.file.size := hblock
    _ ≤ s₁.file.size := writeLdbData_size_le h₁
    _ ≤ s₂.file.size := writeLdbData_size_le h₂
    _ ≤ s₃.file.size := writeLdbData_size_le h₃
    _ = s₄.file.size := (writeLogRecord_size h₄).symm

theorem Logs.size_le {first : Prop} {r : Outcome} (h : Logs s t first r) : s.file.size ≤ r.1.file.size := by
  rcases h with ⟨h, -⟩ | ⟨_, _, _, _, _, h, -⟩
  · rw [h]
  · exact appendLogRecord_size_le h

end Size

/-- The table a command works on, which has to be open. -/
def Command.table : Command → Option Bytes
  | .createTable _ => none
  | .deleteTable name => some name
  | .append name _ _ _ => some name
  | .set name _ _ _ _ => some name
  | .setByIndex name _ _ _ _ => some name
  | .insertByIndex name _ _ _ _ => some name
  | .delete name _ _ => some name
  | .deleteByIndex name _ => some name
  | .clearAllRecords name => some name

/-- The table a command inserts a record at the start of. -/
def Command.insertsFirst : Command → Option Bytes
  | .insertByIndex name index _ _ _ => if index = 0 then some name else none
  | _ => none

namespace Ldb

variable {s s' : Ldb} {sp : Space} {name : Bytes} {t t' : TableInfo} {bs : List Block} {b : Block}
  {operation : Operation} {recordIndex : UInt32} {key value metadata : Option Bytes} {r : LogRecord}

/-! ## A record for a table -/

theorem table?_insert_cases {o : Option Bytes} {t₀ : TableInfo}
    (h : table? { s with space := sp, tables := s.tables.insert name t' } o = some t₀) :
    o = some name ∧ t₀ = t' ∨ o ≠ some name ∧ s.table? o = some t₀ := by
  cases o with
  | none => exact .inr ⟨by simp, h⟩
  | some n =>
    rcases insert_cases h with ⟨rfl, rfl⟩ | ⟨hn, h⟩
    · exact .inl ⟨rfl, rfl⟩
    · exact .inr ⟨by simpa using hn, h⟩

theorem Frame.room (h : s.Frame) {o : Option Bytes} (ht : s.table? o = some t) (hblocks : t.blocks = bs ++ [b]) :
    b.records.length ≤ Block.capacity := by
  have hchain := h.chain ht
  rw [hblocks] at hchain
  exact (linked_singleton.mp (linked_append.mp hchain.linked).2).room

theorem Frame.readField_metatable (h : s.Frame) {f' : File} {o : Option Bytes} (ht : s.table? o = some t)
    (hblocks : t.blocks = bs ++ [b]) (hk : s.space.file.Keeps (Untouched s.space.nextDataOffset b) f') :
    ∀ r ∈ s.metatable.records, readField f' r.key = readField s.space.file r.key := by
  intro r hr
  have hlast : s.layout.blocks o = some (bs ++ [b]) := by rw [layout_blocks, ht, Option.map_some, hblocks]
  rw [h.metatable] at hr
  obtain ⟨n, -, hn, -⟩ := h.onFile.listed r hr
  rw [hn]
  exact readField_key h.framed hlast (mem_logOf_of_mem_recordsOf hr) hn hk

theorem stop_le_of_appended (happ : Appended s.space sp t t' bs b operation recordIndex key value metadata r)
    (hsize : sp.file.size < 2 ^ 32) (hold : ∀ old ∈ t.records, ∀ p, (old.part p).stop ≤ sp.file.size) (p : Part) :
    (r.part p).stop ≤ sp.file.size := by
  have hnext := happ.next
  have hle := happ.next_le
  rcases happ.logged.part_cases (by omega) p with hzero | ⟨-, hstop⟩ | ⟨-, old, hmem, heq⟩
  · rw [hzero]
    exact Nat.zero_le _
  · rw [hstop]
    cases p <;> simp only [partStart, partData] <;> omega
  · rw [heq]
    exact hold old hmem p

theorem Frame.size_le_of_appended (h : s.Frame) {o : Option Bytes} (ht : s.table? o = some t)
    (hblocks : t.blocks = bs ++ [b])
    (happ : Appended s.space sp t t' bs b operation recordIndex key value metadata r) :
    s.space.file.size ≤ sp.file.size := (happ.keeps (h.room ht hblocks)).size

theorem next_le_of_appended (happ : Appended s.space sp t t' bs b operation recordIndex key value metadata r) :
    s.space.nextDataOffset ≤ sp.nextDataOffset := by
  have hnext := happ.next
  have hstart := le_dataStart s.space.nextDataOffset b
  omega

theorem Frame.placed_append_table {P : Item → Prop} (hP : Item.Uniform P) (h : s.Frame)
    (hplaced : s.layout.PlacedOn P s.space.nextDataOffset) (ht : s.tables[name]? = some t)
    (hblocks : t.blocks = bs ++ [b])
    (happ : Appended s.space sp t t' bs b operation recordIndex key value metadata r) (hsize : sp.file.size < 2 ^ 32) :
    (layout { s with space := sp, tables := s.tables.insert name t' }).PlacedOn P sp.nextDataOffset := by
  have hlast : s.layout.tables name = some (bs ++ [b]) := by simp [layout, ht, hblocks]
  have hlt := Nat.lt_of_le_of_lt happ.next_le hsize
  have hnext := happ.next
  have hrecords : ∀ old ∈ t.records, old ∈ logOf (bs ++ [b]) := by
    rw [← hblocks]
    exact h.records (some name) t ht
  rw [layout_insert, happ.blocks, hnext]
  exact hplaced.append hP hlast happ.logged hrecords (hnext ▸ hlt)

theorem Frame.append_table (h : s.Frame) (ht : s.tables[name]? = some t) (hblocks : t.blocks = bs ++ [b])
    (happ : Appended s.space sp t t' bs b operation recordIndex key value metadata r)
    (hsize : sp.file.size < 2 ^ 32) : Frame { s with space := sp, tables := s.tables.insert name t' } := by
  have ht' : s.table? (some name) = some t := ht
  have hlast : s.layout.tables name = some (bs ++ [b]) := by simp [layout, ht, hblocks]
  have hk := happ.keeps (h.room ht' hblocks)
  have hgrow := next_le_of_appended happ
  have hlarger := h.size_le_of_appended ht' hblocks happ
  constructor
  · exact happ.next_le
  · rw [layout_insert, happ.blocks]
    exact h.onFile.append_table h.framed hlast hk happ.linked
  · exact h.placed_append_table Item.uniform_ofFrame h.framed ht hblocks happ hsize
  · intro o t₀ ho
    rcases table?_insert_cases ho with ⟨-, rfl⟩ | ⟨-, ho⟩
    · exact happ.lastInfo
    · exact h.infos o t₀ ho
  · intro n t₀ hn
    rcases table?_insert_cases (o := some n) hn with ⟨hname, rfl⟩ | ⟨-, hn⟩
    · rw [happ.name, Option.some.inj hname]
      exact h.names name t ht
    · exact h.names n t₀ hn
  · intro o t₀ ho
    rcases table?_insert_cases ho with ⟨-, rfl⟩ | ⟨-, ho⟩
    · exact happ.mem_records hblocks (h.records (some name) t ht')
    · exact h.records o t₀ ho
  · exact h.metatable
  · have hsame := List.map_congr_left (h.readField_metatable ht' hblocks hk)
    exact hsame.symm ▸ h.distinct
  · intro r' hr'
    exact ⟨(h.ends r' hr').1, (h.ends r' hr').2.trans hgrow⟩
  · intro n t₀ hn r' hr' p
    rcases table?_insert_cases (o := some n) hn with ⟨-, rfl⟩ | ⟨-, hn⟩
    · rw [happ.blocks, logOf_tailOf, ← hblocks] at hr'
      rcases List.mem_append.mp hr' with hr' | hr'
      · exact (h.stops name t ht r' hr' p).trans hlarger
      · obtain rfl := List.mem_singleton.mp hr'
        refine stop_le_of_appended happ hsize (fun old hold p => ?_) p
        exact (h.stops name t ht old (h.records (some name) t ht' old hold) p).trans hlarger
    · exact (h.stops n t₀ hn r' hr' p).trans hlarger

theorem Inv.append_table (h : s.Inv) (ht : s.tables[name]? = some t) (hblocks : t.blocks = bs ++ [b])
    (happ : Appended s.space sp t t' bs b operation recordIndex key value metadata r)
    (hsize : sp.file.size < 2 ^ 32) : Inv { s with space := sp, tables := s.tables.insert name t' } := by
  refine (h.frame.append_table ht hblocks happ hsize).inv (Layout.placed_iff.mpr ?_)
  exact h.frame.placed_append_table Item.uniform_true (Layout.placed_iff.mp h.placed) ht hblocks happ hsize

/-! ## A record for the metatable -/

theorem layout_metatable (s : Ldb) (sp : Space) (m : TableInfo) (name : Bytes) (t : TableInfo) :
    layout ⟨sp, m, s.tables.insert name t⟩ = (s.layout.set none m.blocks).set (some name) t.blocks := by
  simp only [layout, Layout.set, Layout.mk.injEq, true_and]
  funext n
  by_cases h : n = name
  · subst h
    simp
  · rw [insert_of_ne _ _ (Ne.symm h), if_neg h]

theorem layout_erase (s : Ldb) (sp : Space) (m : TableInfo) (name : Bytes) :
    layout ⟨sp, m, s.tables.erase name⟩ = (s.layout.set none m.blocks).erase name := by
  simp only [layout, Layout.set, Layout.erase, Layout.mk.injEq, true_and]
  funext n
  by_cases h : n = name
  · subst h
    simp
  · rw [erase_of_ne _ (Ne.symm h), if_neg h]

theorem Frame.length_metatable_lt (h : s.Frame) (hsize : s.space.file.size < 2 ^ 32) : s.metatable.records.length < 2 ^ 32 := by
  rw [h.metatable]
  exact h.onFile.metatable.length_recordsOf_lt hsize

/-- What `CreateTable` logs: the name, and a block with nothing in it. -/
def createdBuffer : Bytes :=
  BlockHeader.encode ⟨defaultBlockSize, 0, 0⟩ ++
    List.replicate (defaultBlockSize.toNat - blockHeaderSize) uninitializedByte

theorem length_createdBuffer : createdBuffer.length = defaultBlockSize.toNat := by
  rw [createdBuffer, List.length_append, BlockHeader.length_encode, List.length_replicate]
  rfl

theorem createTable_eq (hnew : ¬ s.tables.contains name)
    (heq : s.space.appendLogRecord s.metatable .append (UInt32.ofNat s.metatable.records.length) (some name)
      (some createdBuffer) none = some (sp, t'))
    (hrecord : t'.records[(UInt32.ofNat s.metatable.records.length).toNat]? = some r) :
    s.createTable name = some ⟨sp, t', s.tables.insert name
      ⟨name, Block.headerInfo ⟨r.value.start, []⟩ 0, [], [⟨r.value.start, []⟩]⟩⟩ := by
  rw [createdBuffer] at heq
  simp only [createTable, hnew, Space.append, heq, Option.map_some, Option.bind_some, hrecord]
  rfl

theorem chain_created {f : File} {v : Nat} (hpos : 0 < v) (h : Holds f v (some createdBuffer)) :
    Chain f [⟨v, []⟩] := by
  have hread : f.read v createdBuffer.length = some createdBuffer := h
  have hin : v + defaultBlockSize.toNat ≤ f.size := by
    rw [← length_createdBuffer]
    exact (File.read_eq_some.mp hread).1
  refine ⟨by simp, linked_singleton.mpr ⟨hpos, hin, Nat.zero_le _, ?_, fun i r hr => by cases hr⟩, by simp⟩
  have htake := File.read_take hread (show blockHeaderSize ≤ _ by rw [length_createdBuffer]; decide)
  rw [htake, createdBuffer, List.take_left' (BlockHeader.length_encode _)]
  rfl

theorem Frame.not_listed (h : s.Frame) (hnew : s.tables[name]? = none) :
    ∀ r ∈ s.metatable.records, readField s.space.file r.key ≠ some name := by
  intro r hr hn
  rw [h.metatable] at hr
  obtain ⟨n, cs, hn', hcs, -⟩ := h.onFile.listed r hr
  obtain rfl := Option.some.inj (hn'.symm.trans hn)
  simp [layout, hnew] at hcs

theorem created_record {start : Nat} {records : List LogRecord}
    (h : Logged start .append recordIndex (some name) (some createdBuffer) none records r)
    (hlt : start + name.length + defaultBlockSize.toNat < 2 ^ 32) (hpos : 0 < start) :
    r.operation = Operation.append.code ∧ r.key.start = start ∧ r.key.dataSize.toNat = name.length ∧
      r.value.start = start + name.length ∧ lastFieldEnd r = start + name.length + defaultBlockSize.toNat := by
  obtain ⟨recordID, ⟨-, rfl⟩ | ⟨hset, -⟩⟩ := h
  case inr => cases hset
  have hsize : UInt32.size = 2 ^ 32 := rfl
  have hkey : (UInt32.ofNat start).toNat = start := UInt32.toNat_ofNat_of_lt' (by omega)
  have hname : (UInt32.ofNat name.length).toNat = name.length := UInt32.toNat_ofNat_of_lt' (by omega)
  have hvalue : (UInt32.ofNat (start + name.length)).toNat = start + name.length :=
    UInt32.toNat_ofNat_of_lt' (by omega)
  have hbuffer : (UInt32.ofNat createdBuffer.length).toNat = defaultBlockSize.toNat := by
    rw [length_createdBuffer, UInt32.ofNat_toNat]
  refine ⟨rfl, hkey, hname, hvalue, ?_⟩
  have hfirst : ¬ UInt32.ofNat (start + name.length) < UInt32.ofNat start := by
    rw [UInt32.lt_iff_toNat_lt, hvalue, hkey]
    omega
  have hsecond : (0 : UInt32) < UInt32.ofNat (start + name.length) := by
    rw [UInt32.lt_iff_toNat_lt, hvalue]
    exact Nat.lt_of_lt_of_le hpos (Nat.le_add_right _ _)
  have hlast : lastFieldEnd (writtenRecord start .append recordIndex recordID (some name) (some createdBuffer) none) =
      Field.stop ⟨UInt32.ofNat (start + name.length), UInt32.ofNat createdBuffer.length, doHash createdBuffer⟩ :=
    (if_neg hfirst).trans (if_pos hsecond)
  rw [hlast, Field.stop, hvalue, hbuffer]

section Create

variable (h : s.Frame) (hnew : s.tables[name]? = none)
  (happ : Appended s.space sp s.metatable t' bs b .append recordIndex (some name) (some createdBuffer) none r)
  (hblocks : s.metatable.blocks = bs ++ [b]) (hsize' : sp.file.size < 2 ^ 32)
include h happ hblocks hsize'

theorem Frame.created :
    sp.nextDataOffset = dataStart s.space.nextDataOffset b + name.length + defaultBlockSize.toNat ∧
      0 < dataStart s.space.nextDataOffset b ∧ r.operation = Operation.append.code ∧
      r.key.start = dataStart s.space.nextDataOffset b ∧ r.key.dataSize.toNat = name.length ∧
      r.value.start = dataStart s.space.nextDataOffset b + name.length ∧ lastFieldEnd r = sp.nextDataOffset := by
  have hlt := Nat.lt_of_le_of_lt happ.next_le hsize'
  have hnext := happ.next
  have hname : dataSize (some name) = name.length := rfl
  have hbuffer : dataSize (some createdBuffer) = defaultBlockSize.toNat := length_createdBuffer
  have hnone : dataSize none = 0 := rfl
  rw [hname, hbuffer, hnone, Nat.add_zero] at hnext
  have hpos : 0 < dataStart s.space.nextDataOffset b := by
    have hlast : s.layout.blocks none = some (bs ++ [b]) := congrArg some hblocks
    have hfirst : b.offset + defaultBlockSize.toNat ≤ s.space.nextDataOffset := h.framed.below_block hlast (by simp)
    have hsome : 0 < b.offset + defaultBlockSize.toNat := Nat.lt_of_lt_of_le (by decide) (Nat.le_add_left _ _)
    exact Nat.lt_of_lt_of_le (Nat.lt_of_lt_of_le hsome hfirst) (le_dataStart _ b)
  obtain ⟨hop, hkeyStart, hkeySize, hvalue, hend⟩ := created_record happ.logged (by omega) hpos
  exact ⟨hnext, hpos, hop, hkeyStart, hkeySize, hvalue, hend.trans hnext.symm⟩

include hnew

theorem Frame.placed_createTable {P : Item → Prop} (hP : Item.Uniform P)
    (hplaced : s.layout.PlacedOn P s.space.nextDataOffset) :
    (layout ⟨sp, t', s.tables.insert name
      ⟨name, Block.headerInfo ⟨r.value.start, []⟩ 0, [], [⟨r.value.start, []⟩]⟩⟩).PlacedOn P sp.nextDataOffset := by
  have ht : s.table? none = some s.metatable := rfl
  have hlast : s.layout.blocks none = some (bs ++ [b]) := congrArg some hblocks
  have hlt := Nat.lt_of_le_of_lt happ.next_le hsize'
  obtain ⟨hnext, -, -, -, -, hvalue, -⟩ := h.created happ hblocks hsize'
  have hbound : dataStart s.space.nextDataOffset b + dataSize (some name) + dataSize (some createdBuffer) +
      dataSize none < 2 ^ 32 := by
    rw [← happ.next]
    exact hlt
  have hrecords : ∀ old ∈ s.metatable.records, old ∈ logOf (bs ++ [b]) := by
    rw [← hblocks]
    exact h.records none _ ht
  have hlower : (s.layout.set none (bs ++ tailOf s.space.nextDataOffset b r)).PlacedOn P r.value.start := by
    refine (hplaced.append hP hlast happ.logged hrecords hbound).lower fun x e hPx he => ?_
    rw [hvalue]
    have hstart := le_dataStart s.space.nextDataOffset b
    cases origin_of_extent hlast happ.logged hrecords hbound he with
    | old hold => exact (hplaced.below x e hPx hold).trans (by omega)
    | block _ hfull hb =>
      have hdata : dataStart s.space.nextDataOffset b = s.space.nextDataOffset + defaultBlockSize.toNat := if_neg hfull
      rw [hb, hdata]
      exact Nat.le_add_right _ _
    | void hv => rw [hv]; exact Nat.zero_le _
    | written part hx hw =>
      -- the metatable has no other field as an item
      subst hx
      obtain rfl : part = .key := (Layout.extent_field.mp he).1 rfl
      rw [hw]
      exact Nat.le_refl _
    | kept part j _ hx _ _ _ hold =>
      exact (hplaced.below _ e (hP none _ j part (hx ▸ hPx)) hold).trans (by omega)
  have hadded := hlower.add_table (show s.tables[name]?.map (·.blocks) = none by rw [hnew]; rfl)
  rw [layout_metatable, happ.blocks, hnext, ← hvalue]
  exact hadded

theorem Frame.createTable :
    Frame ⟨sp, t', s.tables.insert name ⟨name, Block.headerInfo ⟨r.value.start, []⟩ 0, [], [⟨r.value.start, []⟩]⟩⟩ := by
  have ht : s.table? none = some s.metatable := rfl
  have hlast : s.layout.blocks none = some (bs ++ [b]) := congrArg some hblocks
  have hk := happ.keeps (h.room ht hblocks)
  have hlarger := h.size_le_of_appended ht hblocks happ
  have hgrow := next_le_of_appended happ
  obtain ⟨hnext, hpos, hop, hkeyStart, hkeySize, hvalue, hend⟩ := h.created happ hblocks hsize'
  have hrecords : recordsOf (bs ++ tailOf s.space.nextDataOffset b r) = recordsOf s.layout.metatable ++ [r] := by
    rw [recordsOf_tailOf, ← hblocks, loadRecord, hop, Operation.ofCode_code]
    rfl
  have hkey : readField sp.file r.key = some name := by
    have hholds := happ.holds_key
    rw [readField, hkeyStart, hkeySize]
    exact hholds
  have hchain : Chain sp.file [⟨r.value.start, []⟩] := by
    refine chain_created (by omega) ?_
    rw [hvalue]
    exact happ.holds_value
  constructor
  · exact happ.next_le
  · rw [layout_metatable, happ.blocks]
    exact h.onFile.create_table h.framed hblocks hk happ.linked (by simp [layout, hnew]) hrecords hkey hchain rfl
  · exact h.placed_createTable hnew happ hblocks hsize' Item.uniform_ofFrame h.framed
  · intro o t₀ ho
    cases o with
    | none =>
      obtain rfl := Option.some.inj ho
      exact happ.lastInfo
    | some n =>
      rcases insert_cases ho with ⟨-, rfl⟩ | ⟨-, ho⟩
      · exact ⟨[], _, rfl, rfl⟩
      · exact h.infos (some n) t₀ ho
  · intro n t₀ hn
    rcases insert_cases hn with ⟨rfl, rfl⟩ | ⟨-, hn⟩
    · rfl
    · exact h.names n t₀ hn
  · intro o t₀ ho
    cases o with
    | none =>
      obtain rfl := Option.some.inj ho
      exact happ.mem_records hblocks (h.records none _ ht)
    | some n =>
      rcases insert_cases ho with ⟨-, rfl⟩ | ⟨-, ho⟩
      · simp
      · exact h.records (some n) t₀ ho
  · change t'.records = recordsOf t'.blocks
    rw [happ.records, happ.blocks, hrecords]
    exact congrArg (· ++ [r]) h.metatable
  · change (t'.records.map fun r => readField sp.file r.key).Nodup
    rw [happ.records]
    change ((s.metatable.records ++ [r]).map fun r => readField sp.file r.key).Nodup
    rw [List.map_append, List.map_congr_left (h.readField_metatable ht hblocks hk)]
    refine List.nodup_append.mpr ⟨h.distinct, by simp, ?_⟩
    intro a ha c hc heq
    obtain ⟨r', hr', rfl⟩ := List.mem_map.mp ha
    obtain rfl : c = readField sp.file r.key := by simpa using hc
    exact h.not_listed hnew r' hr' (heq.trans hkey)
  · change ∀ r' ∈ logOf t'.blocks, r'.key.stop ≤ lastFieldEnd r' ∧ lastFieldEnd r' ≤ sp.nextDataOffset
    rw [happ.blocks, logOf_tailOf, ← hblocks]
    intro r' hr'
    rcases List.mem_append.mp hr' with hr' | hr'
    · have hends := h.ends r' hr'
      exact ⟨hends.1, hends.2.trans hgrow⟩
    · obtain rfl := List.mem_singleton.mp hr'
      have hstop : r'.key.stop = r'.key.start + r'.key.dataSize.toNat := rfl
      exact ⟨by omega, by omega⟩
  · intro n t₀ hn r' hr' p
    rcases insert_cases hn with ⟨-, rfl⟩ | ⟨-, hn⟩
    · cases hr'
    · exact (h.stops n t₀ hn r' hr' p).trans hlarger

end Create

theorem Inv.createTable (h : s.Inv) (hnew : s.tables[name]? = none)
    (happ : Appended s.space sp s.metatable t' bs b .append recordIndex (some name) (some createdBuffer) none r)
    (hblocks : s.metatable.blocks = bs ++ [b]) (hsize' : sp.file.size < 2 ^ 32) :
    Inv ⟨sp, t', s.tables.insert name ⟨name, Block.headerInfo ⟨r.value.start, []⟩ 0, [], [⟨r.value.start, []⟩]⟩⟩ := by
  refine (h.frame.createTable hnew happ hblocks hsize').inv (Layout.placed_iff.mpr ?_)
  exact h.frame.placed_createTable hnew happ hblocks hsize' Item.uniform_true (Layout.placed_iff.mp h.placed)

section Delete

variable (h : s.Frame)
  (happ : Appended s.space sp s.metatable t' bs b .delete recordIndex none none none r)
  (hblocks : s.metatable.blocks = bs ++ [b]) (hsize' : sp.file.size < 2 ^ 32)
include h happ hblocks hsize'

theorem Frame.placed_deleteTable {P : Item → Prop} (hP : Item.Uniform P)
    (hplaced : s.layout.PlacedOn P s.space.nextDataOffset) (name : Bytes) :
    (layout ⟨sp, t', s.tables.erase name⟩).PlacedOn P sp.nextDataOffset := by
  have hlast : s.layout.blocks none = some (bs ++ [b]) := congrArg some hblocks
  have hlt := Nat.lt_of_le_of_lt happ.next_le hsize'
  have hnext := happ.next
  have hrecords : ∀ old ∈ s.metatable.records, old ∈ logOf (bs ++ [b]) := by
    rw [← hblocks]
    exact h.records none _ rfl
  have hlogged := hplaced.append hP hlast happ.logged hrecords (hnext ▸ hlt)
  rw [layout_erase, happ.blocks, hnext]
  refine hlogged.of_le fun o cs hcs => ?_
  cases o with
  | none => exact hcs
  | some n =>
    have hne : n ≠ name := by
      rintro rfl
      simp [Layout.erase, Layout.blocks] at hcs
    exact (if_neg hne).symm.trans hcs

theorem Frame.deleteTable {r₀ : LogRecord} (hr₀ : s.metatable.records[recordIndex.toNat]? = some r₀)
    (hname : readField s.space.file r₀.key = some name) : Frame ⟨sp, t', s.tables.erase name⟩ := by
  have ht : s.table? none = some s.metatable := rfl
  have hk := happ.keeps (h.room ht hblocks)
  have hlarger := h.size_le_of_appended ht hblocks happ
  have hgrow := next_le_of_appended happ
  have hmeta : s.metatable.records = recordsOf s.layout.metatable := h.metatable
  obtain ⟨hop, hindex, hkey, hend⟩ : r.operation = Operation.delete.code ∧ r.recordIndex = recordIndex ∧
      r.key = .zero ∧ lastFieldEnd r = 0 := by
    obtain ⟨recordID, ⟨-, rfl⟩ | ⟨hset, -⟩⟩ := happ.logged
    · exact ⟨rfl, rfl, rfl, rfl⟩
    · cases hset
  have hrecords : recordsOf (bs ++ tailOf s.space.nextDataOffset b r) =
      (recordsOf s.layout.metatable).eraseIdx recordIndex.toNat := by
    have hin : recordIndex.toNat < (recordsOf (bs ++ [b])).length := by
      rw [← hblocks, ← h.metatable]
      exact (List.getElem?_eq_some_iff.mp hr₀).1
    rw [recordsOf_tailOf, loadRecord, hop, Operation.ofCode_code, hindex]
    simp only [hin, if_true]
    rw [← hblocks]
    rfl
  constructor
  · exact happ.next_le
  · rw [layout_erase, happ.blocks]
    exact h.onFile.delete_table h.framed hblocks hk happ.linked hrecords (hmeta ▸ hr₀) hname (hmeta ▸ h.distinct)
  · exact h.placed_deleteTable happ hblocks hsize' Item.uniform_ofFrame h.framed name
  · intro o t₀ ho
    cases o with
    | none =>
      obtain rfl := Option.some.inj ho
      exact happ.lastInfo
    | some n => exact h.infos (some n) t₀ (erase_some ho).2
  · intro n t₀ hn
    exact h.names n t₀ (erase_some hn).2
  · intro o t₀ ho
    cases o with
    | none =>
      obtain rfl := Option.some.inj ho
      exact happ.mem_records hblocks (h.records none _ ht)
    | some n => exact h.records (some n) t₀ (erase_some ho).2
  · change t'.records = recordsOf t'.blocks
    rw [happ.records, happ.blocks, hrecords, ← hmeta]
    rfl
  · change (t'.records.map fun r => readField sp.file r.key).Nodup
    rw [happ.records]
    change ((s.metatable.records.eraseIdx recordIndex.toNat).map fun r => readField sp.file r.key).Nodup
    refine List.Nodup.sublist ((List.eraseIdx_sublist _ _).map _) ?_
    rw [List.map_congr_left (h.readField_metatable ht hblocks hk)]
    exact h.distinct
  · change ∀ r' ∈ logOf t'.blocks, r'.key.stop ≤ lastFieldEnd r' ∧ lastFieldEnd r' ≤ sp.nextDataOffset
    rw [happ.blocks, logOf_tailOf, ← hblocks]
    intro r' hr'
    rcases List.mem_append.mp hr' with hr' | hr'
    · have hends := h.ends r' hr'
      exact ⟨hends.1, hends.2.trans hgrow⟩
    · obtain rfl := List.mem_singleton.mp hr'
      rw [hend, hkey]
      exact ⟨Nat.le_refl _, Nat.zero_le _⟩
  · intro n t₀ hn r' hr' p
    exact (h.stops n t₀ (erase_some hn).2 r' hr' p).trans hlarger

end Delete

theorem Inv.deleteTable (h : s.Inv) {r₀ : LogRecord}
    (hr₀ : s.metatable.records[recordIndex.toNat]? = some r₀) (hname : readField s.space.file r₀.key = some name)
    (happ : Appended s.space sp s.metatable t' bs b .delete recordIndex none none none r)
    (hblocks : s.metatable.blocks = bs ++ [b]) (hsize' : sp.file.size < 2 ^ 32) :
    Inv ⟨sp, t', s.tables.erase name⟩ := by
  refine (h.frame.deleteTable happ hblocks hsize' hr₀ hname).inv (Layout.placed_iff.mpr ?_)
  exact h.frame.placed_deleteTable happ hblocks hsize' Item.uniform_true (Layout.placed_iff.mp h.placed) name

/-! ## Commands -/

/-- What a command comes to, less what it returns. -/
inductive Effect (s : Ldb) (c : Command) (s' : Ldb) : Prop
  | nothing (h : s' = s)
  | table (name : Bytes) (t t' : TableInfo) (sp : Space) (bs : List Block) (b : Block) (operation : Operation)
      (recordIndex : UInt32) (key value metadata : Option Bytes) (r : LogRecord) (ht : s.tables[name]? = some t)
      (hblocks : t.blocks = bs ++ [b])
      (happ : Appended s.space sp t t' bs b operation recordIndex key value metadata r)
      (hset : operation = .set ∨ operation = .delete → recordIndex.toNat < t.records.length)
      (hinsert : operation = .insert →
        recordIndex.toNat < t.records.length ∨ recordIndex = 0 ∧ c.insertsFirst = some name)
      (h : s' = { s with space := sp, tables := s.tables.insert name t' })
  | create (name : Bytes) (t' : TableInfo) (sp : Space) (bs : List Block) (b : Block) (recordIndex : UInt32)
      (r : LogRecord) (hnew : s.tables[name]? = none) (hblocks : s.metatable.blocks = bs ++ [b])
      (happ : Appended s.space sp s.metatable t' bs b .append recordIndex (some name) (some createdBuffer) none r)
      (h : s' = ⟨sp, t', s.tables.insert name
        ⟨name, Block.headerInfo ⟨r.value.start, []⟩ 0, [], [⟨r.value.start, []⟩]⟩⟩)
  | delete (name : Bytes) (t' : TableInfo) (sp : Space) (bs : List Block) (b : Block) (recordIndex : UInt32)
      (r r₀ : LogRecord) (hr₀ : s.metatable.records[recordIndex.toNat]? = some r₀)
      (hname : readField s.space.file r₀.key = some name) (hblocks : s.metatable.blocks = bs ++ [b])
      (happ : Appended s.space sp s.metatable t' bs b .delete recordIndex none none none r)
      (h : s' = ⟨sp, t', s.tables.erase name⟩)

theorem effect_of_logs {c : Command} {out : Outcome} (h : s.Frame) (ht : s.tables[name]? = some t)
    (hlogs : Logs s.space t (c.insertsFirst = some name) out) :
    Effect s c { s with space := out.1, tables := s.tables.insert name out.2.1 } := by
  rcases hlogs with ⟨hsp, ht'⟩ | ⟨operation, recordIndex, key, value, metadata, heq, hset, hinsert⟩
  · rw [hsp, ht', insert_of_getElem? ht]
    exact .nothing rfl
  · obtain ⟨sp, t', r, bs, b, heq', hblocks, happ⟩ :=
      h.append_spec (o := some name) ht (fun hop => hset (.inl hop)) key value metadata
    obtain ⟨rfl, rfl⟩ := Prod.mk.inj (Option.some.inj (heq.symm.trans heq'))
    exact .table name t _ _ bs b operation recordIndex key value metadata r ht hblocks happ hset hinsert rfl

theorem effect_createTable (h : s.Frame) (hsize : s.space.file.size < 2 ^ 32) (c : Command) (name : Bytes) :
    ∃ s', s.createTable name = some s' ∧ Effect s c s' := by
  by_cases hnew : s.tables.contains name = true
  · exact ⟨s, if_pos hnew, .nothing rfl⟩
  · have hnone : s.tables[name]? = none := by
      rwa [Std.ExtTreeMap.contains_eq_isSome_getElem?, Option.not_isSome_iff_eq_none] at hnew
    have hset : Operation.append = .set →
        (UInt32.ofNat s.metatable.records.length).toNat < s.metatable.records.length := fun hop => by cases hop
    obtain ⟨sp, t', r, bs, b, heq, hblocks, happ⟩ :=
      h.append_spec (o := none) rfl hset (some name) (some createdBuffer) none
    have hindex : (UInt32.ofNat s.metatable.records.length).toNat = s.metatable.records.length :=
      UInt32.toNat_ofNat_of_lt' (h.length_metatable_lt hsize)
    have hrecord : t'.records[(UInt32.ofNat s.metatable.records.length).toNat]? = some r := by
      rw [happ.records, hindex]
      exact List.getElem?_concat_length
    exact ⟨_, createTable_eq hnew heq hrecord, .create name t' sp bs b _ r hnone hblocks happ rfl⟩

theorem effect_deleteTable (h : s.Frame) (hsize : s.space.file.size < 2 ^ 32) (c : Command)
    (hs : s.deleteTable name = some s') : Effect s c s' := by
  obtain ⟨t, ht, hs⟩ := Option.bind_eq_some_iff.mp hs
  obtain ⟨found, hfound, hs⟩ := Option.bind_eq_some_iff.mp hs
  cases found with
  | none => exact .nothing (Option.some.inj hs).symm
  | some index =>
    obtain ⟨i, r₀, hr₀, rfl, hkey⟩ := findKey_sound hfound
    have hi : i < s.metatable.records.length := (List.getElem?_eq_some_iff.mp hr₀).1
    have hindex : (UInt32.ofNat i).toNat = i :=
      UInt32.toNat_ofNat_of_lt' (Nat.lt_trans hi (h.length_metatable_lt hsize))
    have hset : Operation.delete = .set → (UInt32.ofNat i).toNat < s.metatable.records.length :=
      fun hop => by cases hop
    obtain ⟨sp, t', r, bs, b, heq, hblocks, happ⟩ := h.append_spec (o := none) rfl hset none none none
    have hname : readField s.space.file r₀.key = some t.name := by
      have hmem : r₀ ∈ recordsOf s.layout.metatable := by
        have := List.mem_of_getElem? hr₀
        rwa [h.metatable] at this
      obtain ⟨n, -, hn, -⟩ := h.onFile.listed r₀ hmem
      rw [hn, readField_of_getField hkey hn]
    have hdelete : s.space.deleteByIndex s.metatable (UInt32.ofNat i) = some (sp, t', some (UInt32.ofNat i)) := by
      rw [Space.deleteByIndex, if_pos (by rw [hindex]; exact hi), heq]
      rfl
    obtain rfl : s' = ⟨sp, t', s.tables.erase t.name⟩ := by
      simpa [hdelete] using hs.symm
    exact .delete t.name t' sp bs b _ r r₀ (by rw [hindex]; exact hr₀) hname hblocks happ rfl

theorem effect_of_apply {c : Command} (h : s.Frame) (hsize : s.space.file.size < 2 ^ 32) (hs : s.apply c = some s') :
    Effect s c s' := by
  have honTable : ∀ {name op}, (∀ t out, op s.space t = some out → Logs s.space t (c.insertsFirst = some name) out) →
      s.onTable name op = some s' → Effect s c s' := by
    intro name op hop hs
    obtain ⟨t, ht, hs⟩ := Option.bind_eq_some_iff.mp hs
    obtain ⟨out, hout, rfl⟩ := Option.map_eq_some_iff.mp hs
    exact effect_of_logs h ht (hop t out hout)
  unfold apply at hs
  cases c with
  | createTable name =>
    obtain ⟨s₁, hs₁, heffect⟩ := effect_createTable h hsize (.createTable name) name
    obtain rfl := Option.some.inj (hs₁.symm.trans hs)
    exact heffect
  | deleteTable name => exact effect_deleteTable h hsize _ hs
  | append => exact honTable (fun t out hout => (logs_append hout).mono False.elim) hs
  | set => exact honTable (fun t out hout => (logs_set hout).mono False.elim) hs
  | setByIndex => exact honTable (fun t out hout => (logs_setByIndex hout).mono False.elim) hs
  | insertByIndex => exact honTable (fun t out hout => (logs_insertByIndex hout).mono fun h0 => if_pos h0) hs
  | delete => exact honTable (fun t out hout => (logs_delete hout).mono False.elim) hs
  | deleteByIndex => exact honTable (fun t out hout => (logs_deleteByIndex hout).mono False.elim) hs
  | clearAllRecords => exact honTable (fun t out hout => (logs_clearAllRecords hout).mono False.elim) hs

theorem Effect.frame {c : Command} (he : Effect s c s') (h : s.Frame) (hsize : s'.space.file.size < 2 ^ 32) :
    s'.Frame := by
  cases he with
  | nothing heq => exact heq ▸ h
  | table name t t' sp bs b operation recordIndex key value metadata r ht hblocks happ hset hinsert heq =>
    subst heq
    exact h.append_table ht hblocks happ hsize
  | create name t' sp bs b recordIndex r hnew hblocks happ heq =>
    subst heq
    exact h.createTable hnew happ hblocks hsize
  | delete name t' sp bs b recordIndex r r₀ hr₀ hname hblocks happ heq =>
    subst heq
    exact h.deleteTable happ hblocks hsize hr₀ hname

theorem Effect.inv {c : Command} (he : Effect s c s') (h : s.Inv) (hsize : s'.space.file.size < 2 ^ 32) : s'.Inv := by
  cases he with
  | nothing heq => exact heq ▸ h
  | table name t t' sp bs b operation recordIndex key value metadata r ht hblocks happ hset hinsert heq =>
    subst heq
    exact h.append_table ht hblocks happ hsize
  | create name t' sp bs b recordIndex r hnew hblocks happ heq =>
    subst heq
    exact h.createTable hnew happ hblocks hsize
  | delete name t' sp bs b recordIndex r r₀ hr₀ hname hblocks happ heq =>
    subst heq
    exact h.deleteTable hr₀ hname happ hblocks hsize

/-- Whatever the command, one record is logged, or nothing happens. -/
theorem Effect.appended {c : Command} (he : Effect s c s') :
    s' = s ∨ ∃ o t t' bs b operation recordIndex key value metadata r, s.table? o = some t ∧ t.blocks = bs ++ [b] ∧
      Appended s.space s'.space t t' bs b operation recordIndex key value metadata r := by
  cases he with
  | nothing heq => exact .inl heq
  | table name t t' sp bs b operation recordIndex key value metadata r ht hblocks happ hset hinsert heq =>
    subst heq
    exact .inr ⟨some name, t, t', bs, b, operation, recordIndex, key, value, metadata, r, ht, hblocks, happ⟩
  | create name t' sp bs b recordIndex r hnew hblocks happ heq =>
    subst heq
    exact .inr ⟨none, _, t', bs, b, _, recordIndex, _, _, _, r, rfl, hblocks, happ⟩
  | delete name t' sp bs b recordIndex r r₀ hr₀ hname hblocks happ heq =>
    subst heq
    exact .inr ⟨none, _, t', bs, b, _, recordIndex, _, _, _, r, rfl, hblocks, happ⟩

theorem apply_size_le {c : Command} (hs : s.apply c = some s') : s.space.file.size ≤ s'.space.file.size := by
  have honTable : ∀ {name op}, (∀ t out, op s.space t = some out → ∃ first, Logs s.space t first out) →
      s.onTable name op = some s' → s.space.file.size ≤ s'.space.file.size := by
    intro name op hop hs
    obtain ⟨t, -, hs⟩ := Option.bind_eq_some_iff.mp hs
    obtain ⟨out, hout, rfl⟩ := Option.map_eq_some_iff.mp hs
    obtain ⟨first, hlogs⟩ := hop t out hout
    exact hlogs.size_le
  unfold apply at hs
  cases c with
  | createTable name =>
    simp only [Ldb.createTable] at hs
    split at hs
    · obtain rfl := Option.some.inj hs
      exact Nat.le_refl _
    · obtain ⟨out, hout, hs⟩ := Option.bind_eq_some_iff.mp hs
      obtain ⟨record, -, rfl⟩ := Option.map_eq_some_iff.mp hs
      exact (logs_append hout).size_le
  | deleteTable name =>
    obtain ⟨t, -, hs⟩ := Option.bind_eq_some_iff.mp hs
    obtain ⟨found, -, hs⟩ := Option.bind_eq_some_iff.mp hs
    cases found with
    | none =>
      obtain rfl := Option.some.inj hs
      exact Nat.le_refl _
    | some index =>
      obtain ⟨out, hout, rfl⟩ := Option.map_eq_some_iff.mp hs
      exact (logs_deleteByIndex hout).size_le
  | append => exact honTable (fun t out hout => ⟨_, logs_append hout⟩) hs
  | set => exact honTable (fun t out hout => ⟨_, logs_set hout⟩) hs
  | setByIndex => exact honTable (fun t out hout => ⟨_, logs_setByIndex hout⟩) hs
  | insertByIndex => exact honTable (fun t out hout => ⟨_, logs_insertByIndex hout⟩) hs
  | delete => exact honTable (fun t out hout => ⟨_, logs_delete hout⟩) hs
  | deleteByIndex => exact honTable (fun t out hout => ⟨_, logs_deleteByIndex hout⟩) hs
  | clearAllRecords => exact honTable (fun t out hout => ⟨_, logs_clearAllRecords hout⟩) hs

/-! ## No command leaves the file -/

section Defined

variable (h : s.Frame) {o : Option Bytes} (ht : s.table? o = some t)
include h ht

theorem Frame.exists_log (operation : Operation) (recordIndex : UInt32) (key value metadata : Option Bytes)
    (hset : operation = .set → recordIndex.toNat < t.records.length) :
    ∃ r, s.space.appendLogRecord t operation recordIndex key value metadata = some r := by
  obtain ⟨sp, t', -, -, -, heq, -⟩ := h.append_spec ht hset key value metadata
  exact ⟨_, heq⟩

theorem Frame.exists_append (key value metadata : Option Bytes) :
    ∃ out, s.space.append t key value metadata = some out := by
  obtain ⟨r, hr⟩ := h.exists_log ht .append (UInt32.ofNat t.records.length) key value metadata (by simp)
  exact ⟨_, by rw [Space.append, hr]; rfl⟩

theorem Frame.exists_setByIndex (index : UInt32) (key value metadata : Option Bytes) :
    ∃ out, s.space.setByIndex t index key value metadata = some out := by
  unfold Space.setByIndex
  split
  case isTrue hlt =>
    obtain ⟨r, hr⟩ := h.exists_log ht .set index key value metadata fun _ => hlt
    exact ⟨_, by rw [hr]; rfl⟩
  case isFalse => exact ⟨_, rfl⟩

theorem Frame.exists_deleteByIndex (index : UInt32) : ∃ out, s.space.deleteByIndex t index = some out := by
  unfold Space.deleteByIndex
  split
  · obtain ⟨r, hr⟩ := h.exists_log ht .delete index none none none (by simp)
    exact ⟨_, by rw [hr]; rfl⟩
  · exact ⟨_, rfl⟩

theorem Frame.exists_insertByIndex (index : UInt32) (key value metadata : Option Bytes) :
    ∃ out, s.space.insertByIndex t index key value metadata = some out := by
  unfold Space.insertByIndex
  split
  · exact ⟨_, rfl⟩
  · obtain ⟨r, hr⟩ := h.exists_log ht .insert index key value metadata (by simp)
    exact ⟨_, by rw [hr]; rfl⟩

theorem Frame.exists_findKey (startIndex : UInt32) (key : Bytes) :
    ∃ found, findKey s.space.file t startIndex key = some found := by
  refine Logdb.exists_findKey (fun r hr => exists_getField ?_) startIndex key
  have hlog := h.records o t ht r hr
  cases o with
  | none =>
    obtain rfl := Option.some.inj ht
    obtain ⟨hkey, hend⟩ := h.ends r hlog
    exact (hkey.trans hend).trans h.next_le
  | some name => exact h.stops name t ht r hlog .key

end Defined

theorem Frame.exists_deleteTable (h : s.Frame) (ht : s.tables[name]? = some t) : ∃ s', s.deleteTable name = some s' := by
  obtain ⟨found, hfound⟩ := h.exists_findKey (o := none) rfl 0 t.name
  simp only [Ldb.deleteTable, ht, Option.bind_some, hfound]
  cases found with
  | none => exact ⟨s, rfl⟩
  | some index =>
    obtain ⟨out, hout⟩ := h.exists_deleteByIndex (o := none) rfl index
    exact ⟨_, by simp only [hout]; rfl⟩

/-- Every command on an open table goes through: it reads and writes inside the file. -/
theorem Frame.exists_apply (h : s.Frame) (hsize : s.space.file.size < 2 ^ 32) {c : Command}
    (hc : ∀ name ∈ c.table, ∃ t, s.tables[name]? = some t) : ∃ s', s.apply c = some s' := by
  have honTable : ∀ {name : Bytes} {t : TableInfo} {op}, s.tables[name]? = some t → (∃ out, op s.space t = some out) →
      ∃ s', s.onTable name op = some s' := by
    rintro name t op ht ⟨out, hout⟩
    exact ⟨_, by rw [onTable, ht, Option.bind_some, hout]; rfl⟩
  cases c <;> simp only [apply]
  case createTable name =>
    obtain ⟨s', hs', -⟩ := effect_createTable h hsize (.createTable name) name
    exact ⟨s', hs'⟩
  case deleteTable name =>
    obtain ⟨t, ht⟩ := hc name rfl
    exact h.exists_deleteTable ht
  case append name key value metadata =>
    obtain ⟨t, ht⟩ := hc name rfl
    exact honTable ht (h.exists_append (o := some name) ht key value metadata)
  case set name startIndex key value metadata =>
    obtain ⟨t, ht⟩ := hc name rfl
    obtain ⟨found, hfound⟩ := h.exists_findKey (o := some name) ht startIndex key
    refine honTable ht ?_
    simp only [Space.set, hfound, Option.bind_some]
    cases found with
    | none => exact h.exists_append (o := some name) ht (some key) value metadata
    | some index => exact h.exists_setByIndex (o := some name) ht index (some key) value metadata
  case setByIndex name index key value metadata =>
    obtain ⟨t, ht⟩ := hc name rfl
    exact honTable ht (h.exists_setByIndex (o := some name) ht index key value metadata)
  case insertByIndex name index key value metadata =>
    obtain ⟨t, ht⟩ := hc name rfl
    exact honTable ht (h.exists_insertByIndex (o := some name) ht index key value metadata)
  case delete name startIndex key =>
    obtain ⟨t, ht⟩ := hc name rfl
    obtain ⟨found, hfound⟩ := h.exists_findKey (o := some name) ht startIndex key
    refine honTable ht ?_
    simp only [Space.delete, hfound, Option.bind_some]
    cases found with
    | none => exact ⟨_, rfl⟩
    | some index => exact h.exists_deleteByIndex (o := some name) ht index
  case deleteByIndex name index =>
    obtain ⟨t, ht⟩ := hc name rfl
    exact honTable ht (h.exists_deleteByIndex (o := some name) ht index)
  case clearAllRecords name =>
    obtain ⟨t, ht⟩ := hc name rfl
    obtain ⟨r, hr⟩ := h.exists_log (o := some name) ht .clear 0 none none none (by simp)
    exact honTable ht ⟨_, by rw [Space.clearAllRecords, hr]; rfl⟩

/-! ## No command overwrites data -/

/-- The bytes of every field of every log record are in `s'` what they are in `s`. -/
def KeepsData (s s' : Ldb) : Prop :=
  ∀ o j part e, s.layout.extent (.field o j part) = some e →
    ∀ i, e.1 ≤ i → i < e.2 → s'.space.file.byte i = s.space.file.byte i

theorem Effect.keepsData {c : Command} (he : Effect s c s') (h : s.Inv) : s.KeepsData s' := by
  rcases he.appended with rfl | ⟨o, t, t', bs, b, _, _, _, _, _, r, ht, hblocks, happ⟩
  · exact fun _ _ _ _ _ _ _ _ => rfl
  · intro o' j part e hextent i hi hi'
    have hlast : s.layout.blocks o = some (bs ++ [b]) := by rw [layout_blocks, ht, Option.map_some, hblocks]
    have hin : i < s.space.file.size :=
      (hi'.trans_le (h.placed.below _ e hextent)).trans_le h.next_le
    exact (happ.keeps (h.frame.room ht hblocks)).byte i hin (h.placed.untouched hlast (by simp) hextent hi hi')

end Ldb

end Tiodb.Logdb
