import Mathlib.Data.List.InsertIdx
import Tiodb.Lib.Keyed
import Tiodb.Ldb.Calls

/-!
# A table as a dictionary

`Get`, `Set` and `Delete` look a record up by its key. The prefilter on size and hash only
passes over records with another key, and the fields of the table's records, old and
kept ones, lie where nothing else is written, so that a table that starts empty is a
dictionary of what its history gives.
-/

namespace Tiodb.Logdb

open Lib

/-- `GetByIndex` for the value and the metadata, into outputs that are empty; the inner `none` is
`LDB_INVALID_RECNO`. -/
def getByIndex (f : File) (tableInfo : TableInfo) (index : UInt32) : Option (Option (Bytes × Bytes)) :=
  if tableInfo.records.length < (index + 1).toNat then some none
  else
    tableInfo.records[index.toNat]?.bind fun r => do
      let value ← getField f r.value
      let metadata ← getField f r.metadata
      some (some (value, metadata))

def get (f : File) (tableInfo : TableInfo) (startIndex : UInt32) (key : Bytes) : Option (Option (Bytes × Bytes)) :=
  (findKey f tableInfo startIndex key).bind fun
    | none => some none
    | some index => getByIndex f tableInfo index

/-- The operations by key, from the start of a table. -/
inductive ByKey where
  | set (key : Bytes) (value metadata : Option Bytes)
  | delete (key : Bytes)
  | clearAllRecords
  deriving DecidableEq, Repr

def ByKey.command (name : Bytes) : ByKey → Command
  | .set key value metadata => .set name 0 key value metadata
  | .delete key => .delete name 0 key
  | .clearAllRecords => .clearAllRecords name

/-- What a caller remembers of a key: the value and the metadata that were supplied last, since it was absent. -/
def remember (m : Bytes → Option (Bytes × Bytes)) : ByKey → Bytes → Option (Bytes × Bytes)
  | .set key value metadata =>
    let old := (m key).getD ([], [])
    Function.update m key (some (value.getD old.1, metadata.getD old.2))
  | .delete key => Function.update m key none
  | .clearAllRecords => fun _ => none

def remembered (ops : List ByKey) : Bytes → Option (Bytes × Bytes) := ops.foldl remember fun _ => none

/-! ## Rows -/

/-- The bytes of a record. -/
def rowOf (f : File) (r : LogRecord) : Bytes × Bytes × Bytes :=
  ((getField f r.key).getD [], (getField f r.value).getD [], (getField f r.metadata).getD [])

/-- The size and the hash in a record are those of its key. -/
structure Hashed (f : File) (r : LogRecord) (k : Bytes) : Prop where
  key : getField f r.key = some k
  size : r.key.dataSize.toNat = k.length
  hash : r.key.hash = doHash k

section Search

variable {f : File} {rs : List LogRecord} {t : TableInfo}

theorem findKeyFrom_eq {p : LogRecord → Bool} {key : Bytes}
    (h : ∀ r ∈ rs, ∀ n rest, findKeyFrom f key n (r :: rest) =
      if p r then some (some (UInt32.ofNat n)) else findKeyFrom f key (n + 1) rest) (n : Nat) :
    findKeyFrom f key n rs = some ((rs.findIdx? p).map fun i => UInt32.ofNat (n + i)) := by
  induction rs generalizing n with
  | nil => rfl
  | cons r rs ih =>
    have hrest : findKeyFrom f key (n + 1) rs =
        some (((rs.findIdx? p).map (· + 1)).map fun i => UInt32.ofNat (n + i)) := by
      rw [ih (fun r' hr' => h r' (by simp [hr'])), Option.map_map]
      congr 2
      funext i
      rw [Function.comp, Nat.add_right_comm, Nat.add_assoc]
    rw [h r (by simp), List.findIdx?_cons]
    split
    · rfl
    · exact hrest

/-- The prefilter passes over no record with the key. -/
theorem Hashed.findKeyFrom_cons {r : LogRecord} {k : Bytes} (h : Hashed f r k) (key : Bytes) (n : Nat)
    (rest : List LogRecord) : findKeyFrom f key n (r :: rest) =
      if k = key then some (some (UInt32.ofNat n)) else findKeyFrom f key (n + 1) rest := by
  rw [findKeyFrom, h.size, h.hash, h.key]
  by_cases hkey : k = key
  · simp [hkey]
  · simp [hkey]

theorem findKey_eq (h : ∀ r ∈ t.records, ∃ k, Hashed f r k) (key : Bytes) :
    findKey f t 0 key = some (((t.records.map (rowOf f)).findIdx? fun row => row.1 = key).map UInt32.ofNat) := by
  have hstops : ∀ r ∈ t.records, ∀ n rest, findKeyFrom f key n (r :: rest) =
      if decide ((rowOf f r).1 = key) then some (some (UInt32.ofNat n)) else findKeyFrom f key (n + 1) rest := by
    intro r hr n rest
    obtain ⟨k, hk⟩ := h r hr
    simp only [hk.findKeyFrom_cons, rowOf, hk.key, Option.getD_some, decide_eq_true_eq]
  have hfrom := findKeyFrom_eq hstops 0
  rw [List.findIdx?_map]
  unfold findKey
  split
  case isTrue => simpa [Function.comp_def] using hfrom
  case isFalse hempty =>
    have hnil : t.records = [] := List.length_eq_zero_iff.mp (Nat.le_zero.mp (Nat.not_lt.mp hempty))
    rw [hnil]
    rfl

end Search

/-! ## The fields of a new record -/

section Record

variable {f : File} {start recordOffset : Nat} {operation : Operation} {recordIndex : UInt32}
  {key value metadata data : Option Bytes} {records : List LogRecord} {r : LogRecord}

theorem getField_fieldAt {offset : Nat} (h : Holds f offset data) (hlt : offset + dataSize data < 2 ^ 32) :
    getField f (fieldAt offset data) = some (data.getD []) := by
  cases data with
  | none => rfl
  | some data =>
    have hoffset : (UInt32.ofNat offset).toNat = offset :=
      UInt32.toNat_ofNat_of_lt' (Nat.lt_of_le_of_lt (Nat.le_add_right _ _) hlt)
    have hlength : (UInt32.ofNat data.length).toNat = data.length :=
      UInt32.toNat_ofNat_of_lt' (Nat.lt_of_le_of_lt (Nat.le_add_left _ _) hlt)
    unfold getField
    split
    case isTrue hzero =>
      have hnil : data.length = 0 := by
        rw [← hlength, show UInt32.ofNat data.length = 0 from hzero]
        rfl
      rw [List.length_eq_zero_iff.mp hnil]
      rfl
    case isFalse =>
      rw [readField, Field.start, fieldAt, hoffset, hlength]
      exact h

/-- Each field is the one that was written, or is taken over from a record: an empty one, unless it is a set. -/
theorem Logged.exists_base (h : Logged start operation recordIndex key value metadata records r) :
    ∃ base : LogRecord, (operation ≠ .set ∧ (∀ p, base.part p = .zero) ∨
        operation = .set ∧ records[recordIndex.toNat]? = some base) ∧
      ∀ p, r.part p = keep (partData key value metadata p)
        (fieldAt (partStart start key value p) (partData key value metadata p)) (base.part p) := by
  obtain ⟨recordID, ⟨hne, rfl⟩ | ⟨hset, old, hold, rfl⟩⟩ := h
  · refine ⟨⟨0, 0, 0, .zero, .zero, .zero⟩, .inl ⟨hne, fun p => by cases p <;> rfl⟩, fun p => ?_⟩
    cases p
    · cases key <;> rfl
    · cases value <;> rfl
    · cases metadata <;> rfl
  · refine ⟨old, .inr ⟨hset, hold⟩, fun p => ?_⟩
    cases p <;> rfl

end Record

/-! ## Bytes that stay -/

namespace Ldb

variable {s s' : Ldb} {c : Command} {name : Bytes} {r : LogRecord} {t t' : TableInfo}

/-- A byte of data: below the next data, and in no block. -/
def Data (s : Ldb) (i : Nat) : Prop :=
  i < s.space.nextDataOffset ∧ ∀ o t, s.table? o = some t → ∀ b ∈ t.blocks, ¬ (b.offset ≤ i ∧ i < b.stop)

def Fields (s : Ldb) (r : LogRecord) : Prop := ∀ p i, (r.part p).start ≤ i → i < (r.part p).stop → s.Data i

/-- A record whose fields are data, and that `FindKey` can find. -/
structure Stored (s : Ldb) (r : LogRecord) : Prop where
  fields : s.Fields r
  hashed : ∃ k, Hashed s.space.file r k

section Keeps

variable (h : s.Fields r) (hnext : s.space.nextDataOffset ≤ s.space.file.size)
include h hnext

theorem Fields.exists_getField (p : Part) : ∃ x, getField s.space.file (r.part p) = some x := by
  by_cases hzero : (r.part p).dataSize = 0
  · exact ⟨[], if_pos hzero⟩
  · have hpos : 0 < (r.part p).dataSize.toNat := Nat.pos_of_ne_zero fun h => hzero (UInt32.toNat_inj.mp h)
    have hstop : (r.part p).stop = (r.part p).start + (r.part p).dataSize.toNat := rfl
    have hlast := (h p ((r.part p).stop - 1) (by omega) (by omega)).1
    exact Logdb.exists_getField (by omega)

variable {f : File} (hk : s.space.file.Keeps s.Data f)
include hk

theorem Fields.getField_of_keeps (p : Part) : getField f (r.part p) = getField s.space.file (r.part p) := by
  by_cases hzero : (r.part p).dataSize = 0
  · rw [getField, if_pos hzero, getField, if_pos hzero]
  · obtain ⟨x, hx⟩ := h.exists_getField hnext p
    rw [getField, if_neg hzero] at hx
    rw [getField, if_neg hzero, getField, if_neg hzero, hx]
    exact File.read_of_keeps hx hk fun i hi hi' => h p i hi hi'

theorem Fields.rowOf_of_keeps : rowOf f r = rowOf s.space.file r := by
  have hkey := h.getField_of_keeps hnext hk .key
  have hvalue := h.getField_of_keeps hnext hk .value
  have hmetadata := h.getField_of_keeps hnext hk .metadata
  simp only [LogRecord.part] at hkey hvalue hmetadata
  rw [rowOf, hkey, hvalue, hmetadata, rowOf]

end Keeps

theorem Stored.of_keeps (h : s.Stored r) (hnext : s.space.nextDataOffset ≤ s.space.file.size)
    (hk : s.space.file.Keeps s.Data s'.space.file) (hdata : ∀ i, s.Data i → s'.Data i) : s'.Stored r := by
  obtain ⟨k, hkey, hsize, hhash⟩ := h.hashed
  have hsame := h.fields.getField_of_keeps hnext hk .key
  exact ⟨fun p i hi hi' => hdata i (h.fields p i hi hi'), k, hsame.trans hkey, hsize, hhash⟩

/-! ## A call by key -/

section Called

variable {o : Option Bytes} {made : Call} {bs : List Block} {b : Block} {operation : Operation} {recordIndex : UInt32}
  {key value metadata : Option Bytes} (hframe : s.Frame) (hcalled : Called s s' c o made t t')
  (hcreated : c.created s = none) (hblocks : t.blocks = bs ++ [b])
  (happ : Appended s.space s'.space t t' bs b operation recordIndex key value metadata r)
include hcalled hcreated hblocks happ

/-- The blocks after a call are those before it, and perhaps one where the next data went. -/
theorem block_of_called {o' : Option Bytes} {t₀ : TableInfo} {d : Block} (ht₀ : s'.table? o' = some t₀)
    (hd : d ∈ t₀.blocks) :
    (∃ t₁ d₁, s.table? o' = some t₁ ∧ d₁ ∈ t₁.blocks ∧ d₁.offset = d.offset) ∨
      d.offset = s.space.nextDataOffset ∧ d.stop = dataStart s.space.nextDataOffset b := by
  by_cases ho : o' = o
  · subst ho
    obtain rfl := Option.some.inj (ht₀.symm.trans hcalled.after)
    rw [happ.blocks] at hd
    obtain ⟨i, hi⟩ := List.mem_iff_getElem?.mp hd
    rcases getElem?_tailOf hi with ⟨d₁, hd₁, hoffset⟩ | ⟨-, hfull, rfl⟩
    · exact .inl ⟨t, d₁, hcalled.before, hblocks ▸ List.mem_of_getElem? hd₁, hoffset⟩
    · exact .inr ⟨rfl, (if_neg hfull).symm⟩
  · rcases hcalled.others o' t₀ ho ht₀ with hbefore | ⟨⟨hsome, hnew⟩, -⟩
    · exact .inl ⟨t₀, d, hbefore, hd, rfl⟩
    · rw [← hnew, hcreated] at hsome
      cases hsome

theorem Data.of_called {i : Nat} (h : s.Data i) : s'.Data i := by
  refine ⟨h.1.trans_le (next_le_of_appended happ), fun o' t₀ ht₀ d hd hin => ?_⟩
  rcases block_of_called hcalled hcreated hblocks happ ht₀ hd with ⟨t₁, d₁, ht₁, hd₁, hoffset⟩ | ⟨hoffset, -⟩
  · refine h.2 o' t₁ ht₁ d₁ hd₁ ⟨hoffset ▸ hin.1, ?_⟩
    rw [Block.stop, hoffset]
    exact hin.2
  · have hlt := h.1
    omega

include hframe

omit hcreated in
theorem keeps_data_of_called : s.space.file.Keeps s.Data s'.space.file :=
  (happ.keeps (hframe.room hcalled.before hblocks)).mono fun _ hi =>
    ⟨hi.1, hi.2 o t hcalled.before b (by simp [hblocks])⟩

theorem data_written {i : Nat} (hi : dataStart s.space.nextDataOffset b ≤ i) (hi' : i < s'.space.nextDataOffset) :
    s'.Data i := by
  refine ⟨hi', fun o' t₀ ht₀ d hd hin => ?_⟩
  rcases block_of_called hcalled hcreated hblocks happ ht₀ hd with ⟨t₁, d₁, ht₁, hd₁, hoffset⟩ | ⟨-, hstop⟩
  · have hlayout : s.layout.blocks o' = some t₁.blocks := by
      rw [layout_blocks, ht₁]
      rfl
    have hbelow := hframe.framed.below_block hlayout hd₁
    have hstart := le_dataStart s.space.nextDataOffset b
    rw [Block.stop, hoffset, ← Block.stop] at hbelow
    omega
  · omega

omit hcreated in
theorem getField_of_called {base : LogRecord} (hsize : s'.space.file.size < 2 ^ 32) (hbase : s.Fields base)
    (hparts : ∀ p, r.part p = keep (partData key value metadata p)
      (fieldAt (partStart (dataStart s.space.nextDataOffset b) key value p) (partData key value metadata p))
      (base.part p)) (p : Part) :
    getField s'.space.file (r.part p) =
      some ((partData key value metadata p).getD ((getField s.space.file (base.part p)).getD [])) := by
  have hnext := happ.next
  have hle := happ.next_le
  have hholds : Holds s'.space.file (partStart (dataStart s.space.nextDataOffset b) key value p)
      (partData key value metadata p) := by
    cases p
    · exact happ.holds_key
    · exact happ.holds_value
    · exact happ.holds_metadata
  have hlt : partStart (dataStart s.space.nextDataOffset b) key value p +
      dataSize (partData key value metadata p) < 2 ^ 32 := by
    cases p <;> simp only [partStart, partData] <;> omega
  have hwritten := getField_fieldAt hholds hlt
  have hold := hbase.getField_of_keeps hframe.next_le (keeps_data_of_called hframe hcalled hblocks happ) p
  obtain ⟨x, hx⟩ := hbase.exists_getField hframe.next_le p
  rw [hparts p]
  cases hdata : partData key value metadata p with
  | none => rw [keep, hold, hx]; rfl
  | some d => rw [keep, ← hdata, hwritten, hdata]; rfl

theorem stored_of_called {k : Bytes} {base : LogRecord} (hkey : key = some k) (hsize : s'.space.file.size < 2 ^ 32)
    (hbase : s.Fields base)
    (hparts : ∀ p, r.part p = keep (partData key value metadata p)
      (fieldAt (partStart (dataStart s.space.nextDataOffset b) key value p) (partData key value metadata p))
      (base.part p)) :
    s'.Stored r ∧ rowOf s'.space.file r =
      (k, value.getD (rowOf s.space.file base).2.1, metadata.getD (rowOf s.space.file base).2.2) := by
  have hnext := happ.next
  have hle := happ.next_le
  have hstart (p : Part) := le_partStart (dataStart s.space.nextDataOffset b) key value p
  have hend (p : Part) : partStart (dataStart s.space.nextDataOffset b) key value p +
      dataSize (partData key value metadata p) ≤ s'.space.nextDataOffset := by
    cases p <;> simp only [partStart, partData] <;> omega
  have hlt (p : Part) : partStart (dataStart s.space.nextDataOffset b) key value p +
      dataSize (partData key value metadata p) < 2 ^ 32 := ((hend p).trans hle).trans_lt hsize
  have hfield := getField_of_called hframe hcalled hblocks happ hsize hbase hparts
  have hfields : s'.Fields r := by
    intro p i hi hi'
    rw [hparts p] at hi hi'
    cases hdata : partData key value metadata p with
    | none =>
      rw [hdata, keep] at hi hi'
      exact (hbase p i hi hi').of_called hcalled hcreated hblocks happ
    | some d =>
      rw [hdata, keep, ← hdata] at hi hi'
      rcases fieldAt_cases _ _ (hlt p) with hzero | ⟨hfirst, hlast⟩
      · rw [hzero] at hi'
        exact absurd hi' (Nat.not_lt_zero i)
      · rw [hfirst] at hi
        rw [hlast] at hi'
        exact data_written hframe hcalled hcreated hblocks happ ((hstart p).trans hi) (hi'.trans_le (hend p))
  subst hkey
  have hfirst := hfield .key
  have hkeyField : r.key = fieldAt (dataStart s.space.nextDataOffset b) (some k) := hparts .key
  have hlength : (UInt32.ofNat k.length).toNat = k.length :=
    UInt32.toNat_ofNat_of_lt' (Nat.lt_of_le_of_lt (Nat.le_add_left _ _) (hlt .key))
  refine ⟨⟨hfields, k, hfirst, ?_, ?_⟩, ?_⟩
  · rw [hkeyField]
    exact hlength
  · rw [hkeyField]
    rfl
  · have hvalue := hfield .value
    have hmetadata := hfield .metadata
    simp only [LogRecord.part, partData] at hfirst hvalue hmetadata
    rw [rowOf, hfirst, hvalue, hmetadata]
    rfl

end Called

/-! ## A dictionary -/

/-- The table is the dictionary `m`. -/
structure Recalls (s : Ldb) (t : TableInfo) (m : Bytes → Option (Bytes × Bytes)) : Prop where
  stored : ∀ r ∈ t.records, s.Stored r
  rows : Keyed (t.records.map (rowOf s.space.file)) m
  length : t.records.length ≤ (logOf t.blocks).length

section Recalls

variable {m : Bytes → Option (Bytes × Bytes)} {k : Bytes} {value metadata : Option Bytes}

theorem Recalls.length_lt (h : s.Recalls t m) (hframe : s.Frame) {o : Option Bytes} (ht : s.table? o = some t)
    (hsize : s.space.file.size < 2 ^ 32) : t.records.length < 2 ^ 32 := by
  have hrecords := h.length
  have hlog := (hframe.chain ht).length_logOf_le
  have hfile := (hframe.chain ht).length_le
  rw [show defaultBlockSize.toNat = 4096 from rfl] at hfile
  simp only [Block.capacity] at hlog
  omega

theorem Recalls.findKey (h : s.Recalls t m) (hlt : t.records.length < 2 ^ 32) (key : Bytes) :
    findKey s.space.file t 0 key = some none ∧ m key = none ∨
      ∃ i w, findKey s.space.file t 0 key = some (some (UInt32.ofNat i)) ∧ (UInt32.ofNat i).toNat = i ∧
        i < t.records.length ∧ (t.records.map (rowOf s.space.file))[i]? = some (key, w) ∧ m key = some w := by
  have heq := findKey_eq (fun r hr => (h.stored r hr).hashed) key
  cases hfound : (t.records.map (rowOf s.space.file)).findIdx? fun row => row.1 = key with
  | none =>
    rw [hfound] at heq
    refine .inl ⟨heq, h.rows.none_iff.mpr fun hmem => ?_⟩
    obtain ⟨row, hrow, hkey⟩ := List.mem_map.mp hmem
    have hne := List.findIdx?_eq_none_iff.mp hfound row hrow
    simp [hkey] at hne
  | some i =>
    rw [hfound] at heq
    obtain ⟨hi, hkey, -⟩ := List.findIdx?_eq_some_iff_getElem.mp hfound
    have hlength : i < t.records.length := by simpa using hi
    have hindex : (UInt32.ofNat i).toNat = i := UInt32.toNat_ofNat_of_lt' (hlength.trans hlt)
    have hrow : (t.records.map (rowOf s.space.file))[i]? = some (key, ((t.records.map (rowOf s.space.file))[i]).2) := by
      rw [List.getElem?_eq_getElem hi, ← of_decide_eq_true hkey]
    exact .inr ⟨i, _, heq, hindex, hlength, hrow, (h.rows.mem _ _).mpr (List.mem_of_getElem? hrow)⟩

theorem Recalls.get (h : s.Recalls t m) (hnext : s.space.nextDataOffset ≤ s.space.file.size)
    (hlt : t.records.length < 2 ^ 32) (key : Bytes) : get s.space.file t 0 key = some (m key) := by
  unfold Logdb.get
  rcases h.findKey hlt key with ⟨hfound, hnone⟩ | ⟨i, w, hfound, hindex, hlength, hrow, hsome⟩
  · rw [hfound, hnone]
    rfl
  · rw [List.getElem?_map, List.getElem?_eq_getElem hlength, Option.map_some] at hrow
    have hfields := (h.stored _ (List.getElem_mem hlength)).fields
    obtain ⟨v, hv⟩ := hfields.exists_getField hnext .value
    obtain ⟨d, hd⟩ := hfields.exists_getField hnext .metadata
    have hpair : (v, d) = w := by
      have hrow := (Prod.mk.inj (Option.some.inj hrow)).2
      simp only [LogRecord.part] at hv hd
      rw [hv, hd] at hrow
      exact hrow
    have hinside : ¬ t.records.length < (UInt32.ofNat i + 1).toNat := by
      have hmod := Nat.mod_le (i + 1) (2 ^ 32)
      rw [UInt32.toNat_add, hindex, UInt32.toNat_one]
      omega
    simp only [LogRecord.part] at hv hd
    rw [hfound, hsome, Option.bind_some]
    change getByIndex s.space.file t (UInt32.ofNat i) = _
    unfold getByIndex
    rw [if_neg hinside, hindex, List.getElem?_eq_getElem hlength]
    simp only [Option.bind_some, Option.bind_eq_bind, hv, hd, hpair]

/-! ## One operation -/

section Step

variable {o : Option Bytes} {made : Call} {bs : List Block} {b : Block} {operation : Operation} {recordIndex : UInt32}
  {key : Option Bytes} (h : s.Recalls t m) (hframe : s.Frame) (hcalled : Called s s' c o made t t')
  (hcreated : c.created s = none) (hblocks : t.blocks = bs ++ [b])
  (happ : Appended s.space s'.space t t' bs b operation recordIndex key value metadata r)
include h hframe hcalled hcreated hblocks happ

theorem Recalls.stored_after : ∀ r' ∈ t.records, s'.Stored r' := fun r' hr' =>
  (h.stored r' hr').of_keeps hframe.next_le (keeps_data_of_called hframe hcalled hblocks happ)
    fun _ hi => hi.of_called hcalled hcreated hblocks happ

omit hcreated in
theorem Recalls.rows_after : t.records.map (rowOf s'.space.file) = t.records.map (rowOf s.space.file) :=
  List.map_congr_left fun r' hr' => (h.stored r' hr').fields.rowOf_of_keeps hframe.next_le
    (keeps_data_of_called hframe hcalled hblocks happ)

omit hframe hcalled hcreated in
theorem Recalls.length_after (hlength : (applyOperation operation recordIndex.toNat r t.records).length ≤
    t.records.length + 1) : t'.records.length ≤ (logOf t'.blocks).length := by
  have hold := h.length
  rw [happ.records, happ.blocks, logOf_tailOf, ← hblocks, List.length_append, List.length_singleton]
  omega

theorem Recalls.append_of_called (hsize : s'.space.file.size < 2 ^ 32) (hop : operation = .append)
    (hkey : key = some k) (hnone : m k = none) :
    s'.Recalls t' (Function.update m k (some (value.getD [], metadata.getD []))) := by
  obtain ⟨base, hbase, hparts⟩ := happ.logged.exists_base
  rcases hbase with ⟨-, hzero⟩ | ⟨hset, -⟩
  · have hfields : s.Fields base := fun p i _ hi => by
      rw [hzero p] at hi
      exact absurd hi (Nat.not_lt_zero i)
    obtain ⟨hstored, hrow⟩ := stored_of_called hframe hcalled hcreated hblocks happ hkey hsize hfields hparts
    have hvalue : base.value = .zero := hzero .value
    have hmetadata : base.metadata = .zero := hzero .metadata
    have hempty : rowOf s.space.file base = ((rowOf s.space.file base).1, [], []) := by
      rw [rowOf, hvalue, hmetadata]
      rfl
    have hrecords : t'.records = t.records ++ [r] := by rw [happ.records, hop]; rfl
    refine ⟨fun r' hr' => ?_, ?_, h.length_after hblocks happ (by rw [← happ.records, hrecords]; simp)⟩
    · rw [hrecords] at hr'
      rcases List.mem_append.mp hr' with hr' | hr'
      · exact h.stored_after hframe hcalled hcreated hblocks happ r' hr'
      · exact List.mem_singleton.mp hr' ▸ hstored
    · rw [hrecords, List.map_append, h.rows_after hframe hcalled hblocks happ, List.map_singleton, hrow, hempty]
      exact h.rows.append hnone
  · cases hop.symm.trans hset

theorem Recalls.set_of_called (hsize : s'.space.file.size < 2 ^ 32) (hop : operation = .set) (hkey : key = some k)
    {w : Bytes × Bytes} (hi : (t.records.map (rowOf s.space.file))[recordIndex.toNat]? = some (k, w)) :
    s'.Recalls t' (Function.update m k (some (value.getD w.1, metadata.getD w.2))) := by
  obtain ⟨base, hbase, hparts⟩ := happ.logged.exists_base
  rcases hbase with ⟨hne, -⟩ | ⟨-, hold⟩
  · exact absurd hop hne
  · have hmem := List.mem_of_getElem? hold
    obtain ⟨hstored, hrow⟩ :=
      stored_of_called hframe hcalled hcreated hblocks happ hkey hsize (h.stored base hmem).fields hparts
    have hbaseRow : rowOf s.space.file base = (k, w) := by
      rw [List.getElem?_map, hold, Option.map_some] at hi
      exact Option.some.inj hi
    have hrecords : t'.records = t.records.set recordIndex.toNat r := by rw [happ.records, hop]; rfl
    refine ⟨fun r' hr' => ?_, ?_, h.length_after hblocks happ (by rw [← happ.records, hrecords]; simp)⟩
    · rw [hrecords] at hr'
      rcases List.mem_or_eq_of_mem_set hr' with hr' | rfl
      · exact h.stored_after hframe hcalled hcreated hblocks happ r' hr'
      · exact hstored
    · rw [hrecords, List.map_set, h.rows_after hframe hcalled hblocks happ, hrow, hbaseRow]
      exact h.rows.set hi

theorem Recalls.delete_of_called (hop : operation = .delete) {w : Bytes × Bytes}
    (hi : (t.records.map (rowOf s.space.file))[recordIndex.toNat]? = some (k, w)) :
    s'.Recalls t' (Function.update m k none) := by
  have hrecords : t'.records = t.records.eraseIdx recordIndex.toNat := by rw [happ.records, hop]; rfl
  have hlength := List.length_eraseIdx_le t.records recordIndex.toNat
  refine ⟨fun r' hr' => ?_, ?_, h.length_after hblocks happ (by rw [← happ.records, hrecords]; omega)⟩
  · rw [hrecords] at hr'
    exact h.stored_after hframe hcalled hcreated hblocks happ r' (List.mem_of_mem_eraseIdx hr')
  · rw [hrecords, ← List.eraseIdx_map, h.rows_after hframe hcalled hblocks happ]
    exact h.rows.eraseIdx hi

omit hframe hcalled hcreated in
theorem Recalls.clear_of_called (hop : operation = .clear) : s'.Recalls t' fun _ => none := by
  have hrecords : t'.records = [] := by rw [happ.records, hop]; rfl
  refine ⟨fun r' hr' => ?_, ?_, h.length_after hblocks happ (by rw [← happ.records, hrecords]; simp)⟩
  · rw [hrecords] at hr'
    cases hr'
  · rw [hrecords]
    exact .nil

end Step

theorem call_of_byKey (ht : s.tables[name]? = some t) (op : ByKey) {o : Option Bytes} {made : Call}
    (h : (op.command name).call s = some (o, made)) :
    o = some name ∧ match op with
      | .set key value metadata => t.setCall s.space.file 0 key value metadata = some made
      | .delete key => t.deleteCall s.space.file 0 key = some made
      | .clearAllRecords => made = clearCall := by
  cases op with
  | set key value metadata =>
    simp only [ByKey.command, Command.call, ht, Option.bind_some] at h
    obtain ⟨call, hcall, heq⟩ := Option.map_eq_some_iff.mp h
    obtain ⟨rfl, rfl⟩ := Prod.mk.inj heq
    exact ⟨rfl, hcall⟩
  | delete key =>
    simp only [ByKey.command, Command.call, ht, Option.bind_some] at h
    obtain ⟨call, hcall, heq⟩ := Option.map_eq_some_iff.mp h
    obtain ⟨rfl, rfl⟩ := Prod.mk.inj heq
    exact ⟨rfl, hcall⟩
  | clearAllRecords =>
    simp only [ByKey.command, Command.call, ht, Option.bind_some] at h
    obtain ⟨rfl, rfl⟩ := Prod.mk.inj (Option.some.inj h)
    exact ⟨rfl, rfl⟩

theorem Recalls.step (h : s.Recalls t m) (hframe : s.Frame) (ht : s.tables[name]? = some t) (op : ByKey)
    (hs : s.apply (op.command name) = some s') (hsize : s'.space.file.size < 2 ^ 32) :
    ∃ t', s'.tables[name]? = some t' ∧ s'.Recalls t' (remember m op) := by
  have hlt := h.length_lt hframe (o := some name) ht ((apply_size_le hs).trans_lt hsize)
  have hcreated : (op.command name).created s = none := by cases op <;> rfl
  rcases called_of_apply hs with ⟨hnone, rfl⟩ | ⟨o, made, t₀, t', hcalled⟩
  · refine ⟨t, ht, ?_⟩
    cases op with
    | set key value metadata =>
      simp only [ByKey.command, Command.call, ht, Option.bind_some, Option.map_eq_none_iff, TableInfo.setCall] at hnone
      rcases h.findKey hlt key with ⟨hfound, -⟩ | ⟨i, w, hfound, hindex, hi, -⟩
      · simp [hfound] at hnone
      · simp [hfound, TableInfo.setByIndexCall, hi, hindex] at hnone
    | delete key =>
      simp only [ByKey.command, Command.call, ht, Option.bind_some, Option.map_eq_none_iff, TableInfo.deleteCall] at hnone
      rcases h.findKey hlt key with ⟨-, habsent⟩ | ⟨i, w, hfound, hindex, hi, -⟩
      · have hsame : remember m (.delete key) = m := by rw [remember, ← habsent, Function.update_eq_self]
        exact hsame.symm ▸ h
      · simp [hfound, TableInfo.deleteByIndexCall, hi, hindex] at hnone
    | clearAllRecords => simp [ByKey.command, Command.call, ht] at hnone
  · obtain ⟨rfl, hmade⟩ := call_of_byKey ht op hcalled.call
    obtain rfl := Option.some.inj (hcalled.before.symm.trans ht)
    refine ⟨t', hcalled.after, ?_⟩
    cases op with
    | set key value metadata =>
      rcases h.findKey hlt key with ⟨hfound, habsent⟩ | ⟨i, w, hfound, hindex, hi, hrow, hsome⟩
      · simp only [TableInfo.setCall, hfound, Option.bind_some] at hmade
        obtain rfl := Option.some.inj hmade
        obtain ⟨bs, b, r, hblocks, -, -, happ⟩ := appended_of_called hframe hcalled (fun hset => by cases hset)
        simp only [remember, habsent, Option.getD_none]
        exact h.append_of_called hframe hcalled hcreated hblocks happ hsize rfl rfl habsent
      · simp only [TableInfo.setCall, hfound, Option.bind_some, TableInfo.setByIndexCall, hindex, hi, if_true] at hmade
        obtain rfl := Option.some.inj hmade
        obtain ⟨bs, b, r, hblocks, -, -, happ⟩ :=
          appended_of_called hframe hcalled (fun _ => by rw [hindex]; exact hi)
        simp only [remember, hsome, Option.getD_some]
        exact h.set_of_called hframe hcalled hcreated hblocks happ hsize rfl rfl (by rw [hindex]; exact hrow)
    | delete key =>
      rcases h.findKey hlt key with ⟨hfound, -⟩ | ⟨i, w, hfound, hindex, hi, hrow, -⟩
      · simp [TableInfo.deleteCall, hfound] at hmade
      · simp only [TableInfo.deleteCall, hfound, Option.bind_some, TableInfo.deleteByIndexCall, hindex, hi, if_true] at hmade
        obtain rfl := Option.some.inj hmade
        obtain ⟨bs, b, r, hblocks, -, -, happ⟩ := appended_of_called hframe hcalled (fun hset => by cases hset)
        exact h.delete_of_called hframe hcalled hcreated hblocks happ rfl (by rw [hindex]; exact hrow)
    | clearAllRecords =>
      have hmade : made = clearCall := hmade
      subst hmade
      obtain ⟨bs, b, r, hblocks, -, -, happ⟩ := appended_of_called hframe hcalled (fun hset => by cases hset)
      exact h.clear_of_called hblocks happ rfl

theorem Recalls.run {ops : List ByKey} (h : s.Recalls t m) (hframe : s.Frame) (ht : s.tables[name]? = some t)
    (hrun : Lib.run apply s (ops.map (·.command name)) = some s') (hsize : s'.space.file.size < 2 ^ 32) :
    s'.Frame ∧ ∃ t', s'.tables[name]? = some t' ∧ s'.Recalls t' (ops.foldl remember m) := by
  induction ops generalizing s t m with
  | nil =>
    obtain rfl := Option.some.inj hrun
    exact ⟨hframe, t, ht, h⟩
  | cons op ops ih =>
    obtain ⟨s₁, hs₁, hrun⟩ := run_cons.mp hrun
    have hgrows : s₁.space.file.size ≤ s'.space.file.size :=
      run_invariant (I := fun s => s₁.space.file.size ≤ s.space.file.size)
        (fun _ _ _ hle hs => hle.trans (apply_size_le hs)) (Nat.le_refl _) hrun
    have hsize₁ := hgrows.trans_lt hsize
    obtain ⟨t₁, ht₁, h₁⟩ := h.step hframe ht op hs₁ hsize₁
    exact ih h₁ (step_frame (a := .command (op.command name)) (fun _ => hframe) hs₁ hsize₁) ht₁ hrun

end Recalls

/-! ## Every sequence of operations -/

theorem run_frame {s₀ : Ldb} {growPagesStep : Nat} {actions : List Action} (hcreate : create growPagesStep = some s₀)
    (hrun : Lib.run Ldb.step s₀ actions = some s) (hsize : s.space.file.size < 2 ^ 32) : s.Frame := by
  obtain ⟨s₁, hs₁, hinv, -⟩ := create_inv growPagesStep
  obtain rfl := Option.some.inj (hs₁.symm.trans hcreate)
  exact run_invariant (I := fun s : Ldb => s.space.file.size < 2 ^ 32 → s.Frame) (fun _ _ _ h hs => step_frame h hs)
    (fun _ => hinv.frame) hrun hsize

/-- From any state in which a table is empty, operations by key on it are those of a dictionary, in a file below 2^32
bytes: its keys are distinct, and a key gives what was supplied for it last. -/
theorem table_recalls {s₀ : Ldb} {growPagesStep : Nat} {actions : List Action} {ops : List ByKey}
    (hcreate : create growPagesStep = some s₀) (hreach : Lib.run Ldb.step s₀ actions = some s)
    (ht : s.tables[name]? = some t) (hempty : t.records = [])
    (hrun : Lib.run apply s (ops.map (·.command name)) = some s') (hsize : s'.space.file.size < 2 ^ 32) :
    ∃ t', s'.tables[name]? = some t' ∧ (t'.records.map fun r => getField s'.space.file r.key).Nodup ∧
      (∀ key, Logdb.get s'.space.file t' 0 key = some (remembered ops key)) ∧
      ∀ op : ByKey, ∃ s'', s'.apply (op.command name) = some s'' := by
  have hgrows : s.space.file.size ≤ s'.space.file.size :=
    run_invariant (I := fun s₁ => s.space.file.size ≤ s₁.space.file.size)
      (fun _ _ _ hle hs => hle.trans (apply_size_le hs)) (Nat.le_refl _) hrun
  have hframe := run_frame hcreate hreach (hgrows.trans_lt hsize)
  have hfirst : s.Recalls t fun _ => none := by
    refine ⟨fun r hr => ?_, ?_, ?_⟩
    · rw [hempty] at hr
      cases hr
    · rw [hempty]
      exact .nil
    · rw [hempty]
      exact Nat.zero_le _
  obtain ⟨hframe', t', ht', h⟩ := hfirst.run hframe ht hrun hsize
  refine ⟨t', ht', ?_, h.get hframe'.next_le (h.length_lt hframe' (o := some name) ht' hsize), fun op => ?_⟩
  · have hkeys : (t'.records.map fun r => getField s'.space.file r.key) =
        ((t'.records.map (rowOf s'.space.file)).map Prod.fst).map some := by
      rw [List.map_map, List.map_map]
      refine List.map_congr_left fun r hr => ?_
      obtain ⟨k, hk, -⟩ := (h.stored r hr).hashed
      simp [rowOf, hk]
    rw [hkeys]
    exact h.rows.distinct.map (Option.some_injective _)
  · exact hframe'.exists_apply hsize fun n hn => by
      obtain rfl : name = n := by cases op <;> exact Option.some.inj hn
      exact ⟨t', ht'⟩

/-- A table that a deletion left empty, in a file that was loaded. -/
def emptiedActions : List Action :=
  [.command (.createTable (ascii "t")), .command (.append (ascii "t") (some (ascii "k")) (some []) none),
    .command (.deleteByIndex (ascii "t") 0), .reload 1]

/-- The empty key, and a key that comes back after it was deleted. -/
def byKeyOps : List ByKey :=
  [.set [] (some (ascii "v")) none, .set (ascii "k") (some (ascii "w")) (some (ascii "m")), .set [] none (some (ascii "n")),
    .delete (ascii "k"), .set (ascii "k") none none]

theorem table_recalls_after_load :
    ∃ s s' t', Lib.run Ldb.step fresh emptiedActions = some s ∧
      Lib.run apply s (byKeyOps.map (·.command (ascii "t"))) = some s' ∧ s'.tables[ascii "t"]? = some t' ∧
      Logdb.get s'.space.file t' 0 [] = some (some (ascii "v", ascii "n")) ∧
      Logdb.get s'.space.file t' 0 (ascii "k") = some (some ([], [])) ∧
      Logdb.get s'.space.file t' 0 (ascii "x") = some none := by
  have hview : ((Lib.run Ldb.step fresh emptiedActions).bind fun s => s.tables[ascii "t"]?.bind fun t =>
      (Lib.run apply s (byKeyOps.map (·.command (ascii "t")))).map fun s' => (t.records, s'.space.file.size)) =
      some ([], 12288) := by decide +kernel
  obtain ⟨s, hreach, hview⟩ := Option.bind_eq_some_iff.mp hview
  obtain ⟨t, ht, hview⟩ := Option.bind_eq_some_iff.mp hview
  obtain ⟨s', hrun, hview⟩ := Option.map_eq_some_iff.mp hview
  obtain ⟨hempty, hsize⟩ := Prod.mk.inj hview
  obtain ⟨t', ht', -, hget, -⟩ := table_recalls create_fresh hreach ht hempty hrun (by rw [hsize]; decide)
  exact ⟨s, s', t', hreach, hrun, ht', hget [], hget (ascii "k"), hget (ascii "x")⟩

end Ldb

end Tiodb.Logdb
