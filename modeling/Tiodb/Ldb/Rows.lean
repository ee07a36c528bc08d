import Tiodb.Ldb.Asserts
import Tiodb.Ldb.ByKey

/-!
# A database of rows

What the log database keeps for its user: tables under names, each a list of rows, which
stay when the file is closed and loaded. A key that was never given is not the empty key:
its hash is zero, so that no search finds it.
-/

namespace Tiodb.Logdb

open Lib

/-- A row of a table as its user sees it. A record can have no key. -/
@[ext]
structure Row where
  key : Option Bytes
  value : Bytes
  metadata : Bytes
  deriving DecidableEq, Repr

namespace Row

def new (key value metadata : Option Bytes) : Row := ⟨key, value.getD [], metadata.getD []⟩

/-- What is not given stays. -/
def update (key value metadata : Option Bytes) (row : Row) : Row :=
  ⟨key.or row.key, value.getD row.value, metadata.getD row.metadata⟩

def read (row : Row) : Bytes × Bytes := (row.value, row.metadata)

/-- All of the row, where a key that was never given reads as an empty one. -/
def bytes (row : Row) : Bytes × Bytes × Bytes := (row.key.getD [], row.value, row.metadata)

end Row

/-- The first row with the key, from `startIndex` on. -/
def findRow (startIndex : Nat) (key : Bytes) (rows : List Row) : Option Nat :=
  ((rows.drop startIndex).findIdx? fun row => row.key = some key).map (startIndex + ·)

/-- The rows of each table. -/
abbrev Database := Bytes → Option (List Row)

namespace Database

/-- An operation on the rows of one table. -/
def onTable (d : Database) (name : Bytes) (op : List Row → List Row) : Database :=
  Function.update d name ((d name).map op)

/-- `Set` on the rows: it puts a row at the end where no row has the key. -/
def setRow (startIndex : Nat) (key : Bytes) (value metadata : Option Bytes) (rows : List Row) : List Row :=
  match findRow startIndex key rows with
  | none => rows ++ [.new (some key) value metadata]
  | some i => rows.modify i (.update (some key) value metadata)

/-- `Delete` on the rows. -/
def deleteRow (startIndex : Nat) (key : Bytes) (rows : List Row) : List Row :=
  match findRow startIndex key rows with
  | none => rows
  | some i => rows.eraseIdx i

/-- `InsertByIndex` on the rows. -/
def insertRow (index : Nat) (row : Row) (rows : List Row) : List Row :=
  if index = 0 ∨ index < rows.length then rows.insertIdx index row else rows

/-- What a command is on the rows. -/
def apply (d : Database) : Command → Database
  | .createTable name => Function.update d name (some ((d name).getD []))
  | .deleteTable name => Function.update d name none
  | .append name key value metadata => d.onTable name (· ++ [.new key value metadata])
  | .set name startIndex key value metadata => d.onTable name (setRow startIndex.toNat key value metadata)
  | .setByIndex name index key value metadata => d.onTable name (·.modify index.toNat (.update key value metadata))
  | .insertByIndex name index key value metadata => d.onTable name (insertRow index.toNat (.new key value metadata))
  | .delete name startIndex key => d.onTable name (deleteRow startIndex.toNat key)
  | .deleteByIndex name index => d.onTable name (·.eraseIdx index.toNat)
  | .clearAllRecords name => d.onTable name fun _ => []

def findKey (d : Database) (name : Bytes) (startIndex : Nat) (key : Bytes) : Option Nat :=
  (d name).bind (findRow startIndex key)

def getByIndex (d : Database) (name : Bytes) (index : Nat) : Option (Bytes × Bytes) :=
  (d name).bind fun rows => rows[index]?.map Row.read

def get (d : Database) (name : Bytes) (startIndex : Nat) (key : Bytes) : Option (Bytes × Bytes) :=
  (d name).bind fun rows => (findRow startIndex key rows).bind fun i => rows[i]?.map Row.read

/-- A load changes nothing. -/
def step (d : Database) : Action → Database
  | .command c => d.apply c
  | .reload _ => d

end Database

/-! ## The rows of a table on the file -/

def Row.of (f : File) (r : LogRecord) : Row :=
  ⟨if r.key = .zero then none else some (rowOf f r).1, (rowOf f r).2.1, (rowOf f r).2.2⟩

/-- The rows that the tables stand for, with the bytes of the file. -/
def Ldb.database (s : Ldb) : Database := fun name =>
  s.tables[name]?.map fun t => t.records.map (Row.of s.space.file)

/-- The key was never given, or a search can find it. -/
def Known (f : File) (r : LogRecord) : Prop := r.key = .zero ∨ ∃ k, Hashed f r k

section Search

variable {f : File} {r : LogRecord} {k : Bytes} {t : TableInfo}

theorem Hashed.key_ne_zero (h : Hashed f r k) : r.key ≠ .zero := by
  intro hzero
  have hsize := h.size
  have hhash := h.hash
  rw [hzero] at hsize hhash
  have hnil : k = [] := List.length_eq_zero_iff.mp hsize.symm
  rw [hnil] at hhash
  exact absurd hhash (by decide)

theorem Hashed.key_of (h : Hashed f r k) : (Row.of f r).key = some k := by
  rw [Row.of, if_neg h.key_ne_zero, rowOf, h.key]
  rfl

theorem Known.findKeyFrom_cons (h : Known f r) (key : Bytes) (n : Nat) (rest : List LogRecord) :
    findKeyFrom f key n (r :: rest) =
      if decide ((Row.of f r).key = some key) then some (some (UInt32.ofNat n)) else findKeyFrom f key (n + 1) rest := by
  rcases h with hzero | ⟨k, hk⟩
  · -- the prefilter: the empty key, of the same size, has another hash
    have hpast : r.key.dataSize.toNat ≠ key.length ∨ r.key.hash ≠ doHash key := by
      rw [hzero]
      cases key with
      | nil => exact .inr (by decide)
      | cons c cs => exact .inl (Nat.succ_ne_zero cs.length).symm
    rw [findKeyFrom, if_pos hpast, Row.of, if_pos hzero]
    rfl
  · simp only [hk.findKeyFrom_cons, hk.key_of, Option.some.injEq, decide_eq_true_eq]

theorem findKey_rows (h : ∀ r ∈ t.records, Known f r) (startIndex : UInt32) (key : Bytes) :
    findKey f t startIndex key =
      some ((findRow startIndex.toNat key (t.records.map (Row.of f))).map UInt32.ofNat) := by
  have hdrop : (t.records.map (Row.of f)).drop startIndex.toNat =
      (t.records.drop startIndex.toNat).map (Row.of f) := List.map_drop.symm
  rw [findRow, hdrop, List.findIdx?_map, Option.map_map]
  unfold findKey
  split
  · exact findKeyFrom_eq (fun r hr => (h r (List.mem_of_mem_drop hr)).findKeyFrom_cons key) startIndex.toNat
  · rename_i hout
    rw [List.drop_eq_nil_of_le (Nat.le_of_not_lt hout)]
    rfl

theorem findRow_lt {startIndex : Nat} {key : Bytes} {rows : List Row} {i : Nat}
    (h : findRow startIndex key rows = some i) : i < rows.length := by
  obtain ⟨j, hj, rfl⟩ := Option.map_eq_some_iff.mp h
  obtain ⟨hlt, -⟩ := List.findIdx?_eq_some_iff_getElem.mp hj
  rw [List.length_drop] at hlt
  omega

theorem toNat_of_findRow {startIndex : Nat} {key : Bytes} {rows : List Row} {i : Nat}
    (h : findRow startIndex key rows = some i) (hlt : rows.length < 2 ^ 32) : (UInt32.ofNat i).toNat = i :=
  UInt32.toNat_ofNat_of_lt' ((findRow_lt h).trans hlt)

end Search

/-! ## Calls on rows -/

/-- A call on the rows of its table. -/
def Call.onRows (call : Call) (rows : List Row) : List Row :=
  match call.operation with
  | .append => rows ++ [.new call.key call.value call.metadata]
  | .insert => rows.insertIdx call.recordIndex.toNat (.new call.key call.value call.metadata)
  | .set => rows.modify call.recordIndex.toNat (.update call.key call.value call.metadata)
  | .delete => rows.eraseIdx call.recordIndex.toNat
  | .clear => []

theorem set_eq_modify {α : Type} {f : α → α} {l : List α} {i : Nat} {a : α} (h : l[i]? = some a) :
    l.set i (f a) = l.modify i f := by
  have : Inhabited α := ⟨a⟩
  rw [List.modify_eq_set, h, Option.getD_some]

theorem map_applyOperation (g : LogRecord → Row) {operation : Operation} {index : Nat} {r : LogRecord}
    {records : List LogRecord} :
    (applyOperation operation index r records).map g =
      match operation with
      | .append => records.map g ++ [g r]
      | .insert => (records.map g).insertIdx index (g r)
      | .set => (records.map g).set index (g r)
      | .delete => (records.map g).eraseIdx index
      | .clear => [] := by
  cases operation with
  | append => simp [applyOperation]
  | set => simp [applyOperation]
  | clear => rfl
  | delete => exact (List.eraseIdx_map g records index).symm
  | insert =>
    rw [← List.map_insertIdx, applyOperation]
    split
    · rename_i hend
      rw [hend, List.insertIdx_length_self]
    · rfl

section Calls

variable {t : TableInfo} {rows : List Row} {key value metadata : Option Bytes} {index startIndex : UInt32} {k : Bytes}

/-- What a call that may not be made does to the rows. -/
def onRowsIf (call : Option Call) (rows : List Row) : List Row := (call.map (·.onRows rows)).getD rows

theorem onRows_setByIndex (hlength : rows.length = t.records.length) :
    onRowsIf (t.setByIndexCall index key value metadata) rows = rows.modify index.toNat (.update key value metadata) := by
  unfold TableInfo.setByIndexCall
  split
  · rfl
  · rename_i hout
    exact (List.modify_eq_self (l := rows) (by omega)).symm

theorem onRows_deleteByIndex (hlength : rows.length = t.records.length) :
    onRowsIf (t.deleteByIndexCall index) rows = rows.eraseIdx index.toNat := by
  unfold TableInfo.deleteByIndexCall
  split
  · rfl
  · rename_i hout
    exact (List.eraseIdx_of_length_le (l := rows) (by omega)).symm

theorem onRows_insertByIndex (hlength : rows.length = t.records.length) :
    onRowsIf (t.insertByIndexCall index key value metadata) rows =
      Database.insertRow index.toNat (.new key value metadata) rows := by
  have hzero : index = 0 ↔ index.toNat = 0 := by rw [← UInt32.toNat_inj]; rfl
  unfold TableInfo.insertByIndexCall Database.insertRow
  simp only [ne_eq, hzero, hlength]
  split
  · rw [if_neg (by omega)]
    rfl
  · rw [if_pos (by omega)]
    rfl

section Found

variable {f : File} (hrows : t.records.map (Row.of f) = rows) (hknown : ∀ r ∈ t.records, Known f r)
  (hlt : t.records.length < 2 ^ 32)
include hrows hknown hlt

theorem onRows_set :
    onRowsIf (t.setCall f startIndex k value metadata) rows = Database.setRow startIndex.toNat k value metadata rows := by
  have hlength : rows.length = t.records.length := by rw [← hrows, List.length_map]
  unfold TableInfo.setCall Database.setRow
  rw [findKey_rows hknown, hrows, Option.bind_some]
  cases hfound : findRow startIndex.toNat k rows with
  | none => rfl
  | some i =>
    have hindex := toNat_of_findRow hfound (hlength ▸ hlt)
    rw [Option.map_some]
    exact (onRows_setByIndex hlength).trans (by rw [hindex])

theorem onRows_delete :
    onRowsIf (t.deleteCall f startIndex k) rows = Database.deleteRow startIndex.toNat k rows := by
  have hlength : rows.length = t.records.length := by rw [← hrows, List.length_map]
  unfold TableInfo.deleteCall Database.deleteRow
  rw [findKey_rows hknown, hrows, Option.bind_some]
  cases hfound : findRow startIndex.toNat k rows with
  | none => rfl
  | some i =>
    have hindex := toNat_of_findRow hfound (hlength ▸ hlt)
    rw [Option.map_some]
    exact (onRows_deleteByIndex hlength).trans (by rw [hindex])

end Found

end Calls

namespace Ldb

variable {s s' : Ldb} {c : Command} {name : Bytes} {r : LogRecord} {t t' : TableInfo}

theorem Inv.fields (h : s.Inv) (ht : s.tables[name]? = some t) (hr : r ∈ t.records) : s.Fields r := by
  have hlog := h.records (some name) t ht r hr
  intro p i hi hi'
  refine ⟨hi'.trans_le (h.stop_le ht hlog p), fun o t₀ ht₀ b hb hin => ?_⟩
  obtain ⟨j, hj⟩ := List.mem_iff_getElem?.mp hlog
  obtain ⟨n, hn⟩ := List.mem_iff_getElem?.mp hb
  have hfield : s.layout.extent (.field (some name) j p) = some ((r.part p).start, (r.part p).stop) :=
    Layout.extent_field.mpr ⟨by simp, t.blocks, r, by rw [layout_blocks]; exact congrArg _ ht, hj, rfl⟩
  have hblock : s.layout.extent (.block o n) = some (b.offset, b.stop) :=
    Layout.extent_block.mpr ⟨t₀.blocks, b, by rw [layout_blocks, ht₀]; rfl, hn, rfl⟩
  have hapart := (Layout.placed_iff.mp h.placed).apart_block trivial trivial (by simp) hfield hblock
  rcases hapart with hbefore | hafter
  · exact absurd (hi'.trans_le hbefore) (Nat.not_lt.mpr hin.1)
  · exact absurd (hin.2.trans_le hafter) (Nat.not_lt.mpr hi)

theorem hashed_of_appended {sp : Space} {bs : List Block} {b : Block} {operation : Operation} {recordIndex : UInt32}
    {k : Bytes} {value metadata : Option Bytes} (hsize : sp.file.size < 2 ^ 32)
    (happ : Appended s.space sp t t' bs b operation recordIndex (some k) value metadata r) : Hashed sp.file r k := by
  have hnext := happ.next
  have hle := happ.next_le
  obtain ⟨base, -, hparts⟩ := happ.logged.exists_base
  have hkey : r.key = fieldAt (dataStart s.space.nextDataOffset b) (some k) := hparts .key
  have hlt : dataStart s.space.nextDataOffset b + dataSize (some k) < 2 ^ 32 := by omega
  have hlength : (UInt32.ofNat k.length).toNat = k.length :=
    UInt32.toNat_ofNat_of_lt' (Nat.lt_of_le_of_lt (Nat.le_add_left _ _) hlt)
  refine ⟨?_, ?_, ?_⟩
  · rw [hkey]
    exact getField_fieldAt happ.holds_key hlt
  · rw [hkey]
    exact hlength
  · rw [hkey]
    rfl

section Called

variable {o : Option Bytes} {made : Call} {bs : List Block} {b : Block} (h : s.Inv)
  (hcalled : Called s s' c o made t t') (hblocks : t.blocks = bs ++ [b])
  (happ : Appended s.space s'.space t t' bs b made.operation made.recordIndex made.key made.value made.metadata r)
include h hcalled hblocks happ

section Old

variable {n : Bytes} {t₀ : TableInfo} {r₀ : LogRecord} (ht₀ : s.tables[n]? = some t₀) (hr₀ : r₀ ∈ t₀.records)
include ht₀ hr₀

theorem row_of_called : Row.of s'.space.file r₀ = Row.of s.space.file r₀ := by
  rw [Row.of, Row.of, (h.fields ht₀ hr₀).rowOf_of_keeps h.next_le (keeps_data_of_called h.frame hcalled hblocks happ)]

theorem known_of_called (hknown : Known s.space.file r₀) : Known s'.space.file r₀ := by
  have hsame := (h.fields ht₀ hr₀).getField_of_keeps h.next_le
    (keeps_data_of_called h.frame hcalled hblocks happ) .key
  exact hknown.imp_right fun ⟨k, hk⟩ => ⟨k, hsame.trans hk.key, hk.size, hk.hash⟩

end Old

theorem row_written {base : LogRecord} (hsize : s'.space.file.size < 2 ^ 32) (hbase : s.Fields base)
    (hparts : ∀ p, r.part p = keep (partData made.key made.value made.metadata p)
      (fieldAt (partStart (dataStart s.space.nextDataOffset b) made.key made.value p)
        (partData made.key made.value made.metadata p)) (base.part p)) :
    Row.of s'.space.file r = Row.update made.key made.value made.metadata (Row.of s.space.file base) := by
  have hfield := getField_of_called h.frame hcalled hblocks happ hsize hbase hparts
  have hkey := hfield .key
  have hvalue := hfield .value
  have hmetadata := hfield .metadata
  simp only [LogRecord.part, partData] at hkey hvalue hmetadata
  have hrow : (Row.of s'.space.file r).value = made.value.getD (Row.of s.space.file base).value ∧
      (Row.of s'.space.file r).metadata = made.metadata.getD (Row.of s.space.file base).metadata := by
    simp only [Row.of, rowOf, hvalue, hmetadata, Option.getD_some, and_self]
  have hrowKey : (Row.of s'.space.file r).key = made.key.or (Row.of s.space.file base).key := by
    cases hgiven : made.key with
    | none =>
      have hpart : r.key = keep made.key (fieldAt (dataStart s.space.nextDataOffset b) made.key) base.key := hparts .key
      rw [hgiven, keep] at hpart
      rw [hgiven, hpart] at hkey
      simp only [Row.of, rowOf, hpart, hkey, Option.getD_none, Option.getD_some, Option.none_or]
    | some k =>
      rw [hgiven] at happ
      exact (hashed_of_appended hsize happ).key_of
  exact Row.ext hrowKey hrow.1 hrow.2

/-- A call on a table is the call on its rows. -/
theorem rows_of_called (hsize : s'.space.file.size < 2 ^ 32) (ho : o = some name) :
    t'.records.map (Row.of s'.space.file) = made.onRows (t.records.map (Row.of s.space.file)) := by
  subst ho
  have ht : s.tables[name]? = some t := hcalled.before
  have hold : t.records.map (Row.of s'.space.file) = t.records.map (Row.of s.space.file) :=
    List.map_congr_left fun r₀ hr₀ => row_of_called h hcalled hblocks happ ht hr₀
  obtain ⟨base, hbase, hparts⟩ := happ.logged.exists_base
  rw [happ.records, map_applyOperation, hold, Call.onRows]
  rcases hbase with ⟨hne, hzero⟩ | ⟨hset, hbase⟩
  · -- not a set: what is not given is empty
    have hfields : s.Fields base := fun p i _ hi => by
      rw [hzero p] at hi
      exact absurd hi (Nat.not_lt_zero i)
    have hempty : Row.of s.space.file base = ⟨none, [], []⟩ := by
      have hkey : base.key = .zero := hzero .key
      have hvalue : base.value = .zero := hzero .value
      have hmetadata : base.metadata = .zero := hzero .metadata
      rw [Row.of, rowOf, hkey, hvalue, hmetadata]
      rfl
    have hrow : Row.of s'.space.file r = .new made.key made.value made.metadata := by
      rw [row_written h hcalled hblocks happ hsize hfields hparts, hempty, Row.update, Option.or_none, Row.new]
    rw [hrow]
    cases hop : made.operation with
    | set => exact absurd hop hne
    | append => rfl
    | insert => rfl
    | delete => rfl
    | clear => rfl
  · have hrow := row_written h hcalled hblocks happ hsize (h.fields ht (List.mem_of_getElem? hbase)) hparts
    have hat : (t.records.map (Row.of s.space.file))[made.recordIndex.toNat]? = some (Row.of s.space.file base) := by
      rw [List.getElem?_map, hbase, Option.map_some]
    rw [hset, hrow]
    exact set_eq_modify hat

theorem database_of_called (hothers : ∀ n, n ≠ name → s'.tables[n]? = s.tables[n]?) :
    s'.database = Function.update s.database name (s'.database name) := by
  funext n
  by_cases hn : n = name
  · rw [hn, Function.update_self]
  · rw [Function.update_of_ne hn, database, database, hothers n hn]
    cases ht₀ : s.tables[n]? with
    | none => rfl
    | some t₀ =>
      exact congrArg some (List.map_congr_left fun r₀ hr₀ => row_of_called h hcalled hblocks happ ht₀ hr₀)

end Called

/-! ## The invariant -/

/-- Nothing is overwritten, a load would give back the tables, and a search misses no key that was given. -/
structure Sound (s : Ldb) : Prop where
  inv : s.Inv
  inSync : s.InSync
  known : ∀ (name : Bytes) t, s.tables[name]? = some t → ∀ r ∈ t.records, Known s.space.file r
  named : ∀ r ∈ s.metatable.records, ∃ k, Hashed s.space.file r k

theorem call_on_metatable {made : Call} (h : c.call s = some (none, made)) :
    made.operation = .delete ∨ ∃ k, made.key = some k := by
  have honTable {name : Bytes} (call : TableInfo → Option Call)
      (h : (s.tables[name]?.bind fun t => (call t).map fun call => (some name, call)) = some (none, made)) : False := by
    obtain ⟨t₀, -, h⟩ := Option.bind_eq_some_iff.mp h
    obtain ⟨call', -, heq⟩ := Option.map_eq_some_iff.mp h
    cases heq
  cases c with
  | createTable name =>
    simp only [Command.call] at h
    split_ifs at h
    obtain ⟨-, rfl⟩ := Prod.mk.inj (Option.some.inj h)
    exact .inr ⟨name, rfl⟩
  | deleteTable name =>
    obtain ⟨t₀, -, h⟩ := Option.bind_eq_some_iff.mp h
    obtain ⟨call', hcall, heq⟩ := Option.map_eq_some_iff.mp h
    obtain ⟨-, rfl⟩ := Prod.mk.inj heq
    obtain ⟨index, rfl, -⟩ := call_of_deleteCall hcall
    exact .inl rfl
  | append name key value metadata => exact (honTable (fun t => some (t.appendCall key value metadata)) h).elim
  | set => exact (honTable _ h).elim
  | setByIndex => exact (honTable _ h).elim
  | insertByIndex => exact (honTable _ h).elim
  | delete => exact (honTable _ h).elim
  | deleteByIndex => exact (honTable _ h).elim
  | clearAllRecords => exact (honTable (fun _ => some clearCall) h).elim

section Sound

variable {o : Option Bytes} {made : Call} {bs : List Block} {b : Block} (h : s.Sound)
  (hcalled : Called s s' c o made t t') (hblocks : t.blocks = bs ++ [b])
  (happ : Appended s.space s'.space t t' bs b made.operation made.recordIndex made.key made.value made.metadata r)
include h hcalled hblocks happ

theorem known_after (hsize : s'.space.file.size < 2 ^ 32) {n : Bytes} {t₀ : TableInfo} (hinv : s'.Inv)
    (ht₀ : s'.tables[n]? = some t₀) : ∀ r₀ ∈ t₀.records, Known s'.space.file r₀ := by
  intro r₀ hr₀
  by_cases ho : some n = o
  · subst ho
    obtain rfl := Option.some.inj (ht₀.symm.trans hcalled.after)
    have ht : s.tables[n]? = some t := hcalled.before
    have hold : ∀ r₁ ∈ t.records, Known s'.space.file r₁ := fun r₁ hr₁ =>
      known_of_called h.inv hcalled hblocks happ ht hr₁ (h.known n t ht r₁ hr₁)
    rw [happ.records] at hr₀
    rcases mem_applyOperation hr₀ with hr₀ | rfl
    · exact hold r₀ hr₀
    · -- the new record: with the key that was given, or with the key of the record that it replaces
      cases hgiven : made.key with
      | some k =>
        rw [hgiven] at happ
        exact .inr ⟨k, hashed_of_appended hsize happ⟩
      | none =>
        obtain ⟨base, hbase, hparts⟩ := happ.logged.exists_base
        have hkey : r₀.key = base.key := by
          have hpart := hparts .key
          rw [hgiven] at hpart
          exact hpart
        rcases hbase with ⟨-, hzero⟩ | ⟨-, hbase⟩
        · exact .inl (hkey.trans (hzero .key))
        · rcases hold base (List.mem_of_getElem? hbase) with hzero | ⟨k, hk⟩
          · exact .inl (hkey.trans hzero)
          · exact .inr ⟨k, hkey ▸ hk.key, hkey ▸ hk.size, hkey ▸ hk.hash⟩
  · rcases hcalled.others (some n) t₀ ho ht₀ with hbefore | ⟨-, hnil⟩
    · exact known_of_called h.inv hcalled hblocks happ hbefore hr₀ (h.known n t₀ hbefore r₀ hr₀)
    · have hlog := hinv.records (some n) t₀ ht₀ r₀ hr₀
      rw [hnil] at hlog
      cases hlog

theorem named_after (hsize : s'.space.file.size < 2 ^ 32) :
    ∀ r₀ ∈ s'.metatable.records, ∃ k, Hashed s'.space.file r₀ k := by
  have hkept : ∀ r₀ ∈ s.metatable.records, ∃ k, Hashed s'.space.file r₀ k := by
    intro r₀ hr₀
    obtain ⟨k, hk⟩ := h.named r₀ hr₀
    have hread := h.inv.frame.readField_metatable hcalled.before hblocks
      (happ.keeps (h.inv.frame.room hcalled.before hblocks)) r₀ hr₀
    refine ⟨k, ?_, hk.size, hk.hash⟩
    rw [← hk.key, getField, getField, hread]
  intro r₀ hr₀
  cases o with
  | some n =>
    rcases hcalled.others none s'.metatable (by simp) rfl with hbefore | ⟨⟨hnone, -⟩, -⟩
    · have hsame : s.metatable = s'.metatable := Option.some.inj hbefore
      exact hkept r₀ (hsame ▸ hr₀)
    · cases hnone
  | none =>
    obtain rfl : t = s.metatable := (Option.some.inj hcalled.before).symm
    obtain rfl : t' = s'.metatable := (Option.some.inj hcalled.after).symm
    rw [happ.records] at hr₀
    rcases call_on_metatable hcalled.call with hdelete | ⟨k, hk⟩
    · rw [hdelete] at hr₀
      exact hkept r₀ (List.mem_of_mem_eraseIdx hr₀)
    · rcases mem_applyOperation hr₀ with hr₀ | rfl
      · exact hkept r₀ hr₀
      · rw [hk] at happ
        exact ⟨k, hashed_of_appended hsize happ⟩

end Sound

/-! ## One command -/

theorem Sound.length_lt (h : s.Sound) (ht : s.tables[name]? = some t) (hsize : s.space.file.size < 2 ^ 32) :
    t.records.length < 2 ^ 32 := by
  rw [h.inSync name t ht]
  exact (h.inv.frame.chain (o := some name) ht).length_recordsOf_lt hsize

theorem set_of_run {call : Call} {sp : Space} {out : Space × TableInfo} (h : call.run sp t = some out)
    (hset : call.operation = .set) : call.recordIndex.toNat < t.records.length := by
  simp only [Call.run, Space.appendLogRecord, Option.bind_eq_bind, Option.bind_eq_some_iff] at h
  obtain ⟨⟨s₀, current, new⟩, -, ⟨s₁, k⟩, -, ⟨s₂, v⟩, -, ⟨s₃, m⟩, -, r, hr, -⟩ := h
  rw [setFields, if_pos hset] at hr
  obtain ⟨old, hold, -⟩ := Option.map_eq_some_iff.mp hr
  exact (List.getElem?_eq_some_iff.mp hold).1

theorem Sound.appended {o : Option Bytes} {made : Call} (h : s.Sound) (hcalled : Called s s' c o made t t') :
    ∃ bs b r, t.blocks = bs ++ [b] ∧
      Appended s.space s'.space t t' bs b made.operation made.recordIndex made.key made.value made.metadata r := by
  obtain ⟨bs, b, r, hblocks, -, -, happ⟩ := appended_of_called h.inv.frame hcalled (set_of_run hcalled.run)
  exact ⟨bs, b, r, hblocks, happ⟩

theorem Sound.apply (h : s.Sound) (hc : s.NoFirstInsert c) (hs : s.apply c = some s')
    (hsize : s'.space.file.size < 2 ^ 32) : s'.Sound := by
  have hbefore : s.space.file.size < 2 ^ 32 := (apply_size_le hs).trans_lt hsize
  have heffect := effect_of_apply h.inv.frame hbefore hs
  have hinv := heffect.inv h.inv hsize
  rcases called_of_apply hs with ⟨-, rfl⟩ | ⟨o, made, t, t', hcalled⟩
  · exact h
  · obtain ⟨bs, b, r, hblocks, happ⟩ := h.appended hcalled
    exact ⟨hinv, heffect.inSync h.inSync hc,
      fun n t₀ ht₀ => known_after h hcalled hblocks happ hsize hinv ht₀, named_after h hcalled hblocks happ hsize⟩

theorem database_eq (ht : s.tables[name]? = some t) : s.database name = some (t.records.map (Row.of s.space.file)) := by
  rw [database, ht, Option.map_some]

section Table

variable (h : s.Sound)
include h

theorem database_of_onTable (hsize : s'.space.file.size < 2 ^ 32) {op : Space → TableInfo → Option Outcome}
    {call : TableInfo → Option Call} {onRows : List Row → List Row} (hs : s.onTable name op = some s')
    (hmakes : ∀ t out, op s.space t = some out → Makes s.space t (call t) out)
    (hcall : c.call s = s.tables[name]?.bind fun t => (call t).map fun call => (some name, call))
    (hrows : ∀ t rows, s.tables[name]? = some t → t.records.map (Row.of s.space.file) = rows →
      onRowsIf (call t) rows = onRows rows) :
    s'.database = s.database.onTable name onRows := by
  obtain ⟨t, ht, -⟩ := Option.bind_eq_some_iff.mp hs
  have hrows := hrows t _ ht rfl
  rw [ht, Option.bind_some] at hcall
  rw [Database.onTable, database_eq ht, Option.map_some, ← hrows]
  rcases called_of_onTable hmakes (by rw [hcall, ht, Option.bind_some]) hs with ⟨hnone, rfl⟩ | ⟨o, made, t₁, t', hcalled⟩
  · have hnone : call t = none := Option.map_eq_none_iff.mp (hcall.symm.trans hnone)
    rw [onRowsIf, hnone, Option.map_none, Option.getD_none, ← database_eq ht, Function.update_eq_self]
  · obtain ⟨made', hmade, heq⟩ := Option.map_eq_some_iff.mp (hcall.symm.trans hcalled.call)
    obtain ⟨rfl, rfl⟩ := Prod.mk.inj heq
    obtain rfl : t = t₁ := Option.some.inj (ht.symm.trans hcalled.before)
    obtain ⟨bs, b, r, hblocks, happ⟩ := h.appended hcalled
    have hothers : ∀ n, n ≠ name → s'.tables[n]? = s.tables[n]? := by
      obtain ⟨t₂, -, hs⟩ := Option.bind_eq_some_iff.mp hs
      obtain ⟨out, -, rfl⟩ := Option.map_eq_some_iff.mp hs
      exact fun n hn => insert_of_ne _ _ (Ne.symm hn)
    rw [database_of_called h.inv hcalled hblocks happ hothers, database_eq (show s'.tables[name]? = some t' from hcalled.after),
      rows_of_called h.inv hcalled hblocks happ hsize rfl, onRowsIf, hmade, Option.map_some, Option.getD_some]

theorem database_createTable (hs : s.createTable name = some s') :
    s'.database = s.database.apply (.createTable name) := by
  rw [Database.apply]
  rcases called_of_createTable hs with ⟨hnone, rfl⟩ | ⟨o, made, t, t', hcalled⟩
  · have hthere : s'.tables.contains name := by
      by_contra hnew
      simp [Command.call, hnew] at hnone
    rw [Std.ExtTreeMap.contains_eq_isSome_getElem?] at hthere
    obtain ⟨t, ht⟩ := Option.isSome_iff_exists.mp hthere
    rw [database_eq ht, Option.getD_some, ← database_eq ht, Function.update_eq_self]
  · obtain ⟨bs, b, r, hblocks, happ⟩ := h.appended hcalled
    have hnew : ¬ s.tables.contains name := by
      intro hthere
      have hcall := hcalled.call
      simp [Command.call, hthere] at hcall
    simp only [createTable, if_neg hnew] at hs
    obtain ⟨out, -, hs⟩ := Option.bind_eq_some_iff.mp hs
    obtain ⟨record, -, heq⟩ := Option.map_eq_some_iff.mp hs
    have htables : s'.tables = s.tables.insert name
        ⟨name, ⟨⟨defaultBlockSize, 0, 0⟩, record.value.start⟩, [], [⟨record.value.start, []⟩]⟩ := by rw [← heq]
    have hnone : s.database name = none := by
      rw [Std.ExtTreeMap.contains_eq_isSome_getElem?, Bool.not_eq_true, Option.isSome_eq_false_iff,
        Option.isNone_iff_eq_none] at hnew
      rw [database, hnew, Option.map_none]
    have hempty : s'.database name = some [] := by
      rw [database, htables, Std.ExtTreeMap.getElem?_insert_self]
      rfl
    rw [database_of_called h.inv hcalled hblocks happ
      (fun n hn => by rw [htables, insert_of_ne _ _ (Ne.symm hn)]), hempty, hnone, Option.getD_none]

theorem Sound.exists_findKey_name (ht : s.tables[name]? = some t) :
    ∃ index, findKey s.space.file s.metatable 0 t.name = some (some index) := by
  obtain ⟨r, hr, hname⟩ := h.inv.onFile.complete name t.blocks (by simp [layout, ht])
  rw [show s.layout.metatable = s.metatable.blocks from rfl, ← h.inv.metatable] at hr
  obtain ⟨k, hk⟩ := h.named r hr
  obtain rfl := readField_of_getField hk.key hname
  have hfind := findKey_eq h.named t.name
  rw [h.inv.names k t ht] at hfind ⊢
  cases hfound : (s.metatable.records.map (rowOf s.space.file)).findIdx? fun row => row.1 = k with
  | some i =>
    rw [hfound] at hfind
    exact ⟨UInt32.ofNat i, hfind⟩
  | none =>
    have hmiss := List.findIdx?_eq_none_iff.mp hfound _ (List.mem_map_of_mem hr)
    simp [rowOf, hk.key] at hmiss

theorem database_deleteTable (hs : s.deleteTable name = some s') :
    s'.database = s.database.apply (.deleteTable name) := by
  obtain ⟨t, ht, hdelete⟩ := Option.bind_eq_some_iff.mp hs
  obtain ⟨index, hindex⟩ := h.exists_findKey_name ht
  rw [hindex, Option.bind_some] at hdelete
  obtain ⟨out, hout, hdelete⟩ := Option.map_eq_some_iff.mp hdelete
  have htables : s'.tables = s.tables.erase name := by rw [← hdelete, h.inv.names name t ht]
  rcases called_of_deleteTable hs with ⟨-, rfl⟩ | ⟨o, made, t₁, t', hcalled⟩
  · have hgone : s'.tables[name]? = none := by
      rw [htables]
      exact Std.ExtTreeMap.getElem?_erase_self
    cases hgone.symm.trans ht
  · obtain ⟨bs, b, r, hblocks, happ⟩ := h.appended hcalled
    have hnone : s'.database name = none := by
      rw [database, htables, Std.ExtTreeMap.getElem?_erase_self]
      rfl
    rw [Database.apply, database_of_called h.inv hcalled hblocks happ
      (fun n hn => by rw [htables, erase_of_ne _ (Ne.symm hn)]), hnone]

theorem database_of_apply (hs : s.apply c = some s') (hsize : s'.space.file.size < 2 ^ 32) :
    s'.database = s.database.apply c := by
  have hbefore : s.space.file.size < 2 ^ 32 := (apply_size_le hs).trans_lt hsize
  have hlength : ∀ {t : TableInfo} {rows : List Row}, t.records.map (Row.of s.space.file) = rows →
      rows.length = t.records.length := fun hrows => by rw [← hrows, List.length_map]
  unfold Ldb.apply at hs
  cases c with
  | createTable name => exact database_createTable h hs
  | deleteTable name => exact database_deleteTable h hs
  | append name key value metadata =>
    exact database_of_onTable h (c := .append name key value metadata) hsize hs (fun t out => makes_append) rfl
      fun _ _ _ _ => rfl
  | clearAllRecords name =>
    exact database_of_onTable h (c := .clearAllRecords name) hsize hs (fun t out => makes_clearAllRecords) rfl
      fun _ _ _ _ => rfl
  | setByIndex name index key value metadata =>
    exact database_of_onTable h (c := .setByIndex name index key value metadata) hsize hs
      (fun t out => makes_setByIndex) rfl fun t rows _ hrows => onRows_setByIndex (hlength hrows)
  | insertByIndex name index key value metadata =>
    exact database_of_onTable h (c := .insertByIndex name index key value metadata) hsize hs
      (fun t out => makes_insertByIndex) rfl fun t rows _ hrows => onRows_insertByIndex (hlength hrows)
  | deleteByIndex name index =>
    exact database_of_onTable h (c := .deleteByIndex name index) hsize hs (fun t out => makes_deleteByIndex) rfl
      fun t rows _ hrows => onRows_deleteByIndex (hlength hrows)
  | set name startIndex key value metadata =>
    exact database_of_onTable h (c := .set name startIndex key value metadata) hsize hs (fun t out => makes_set) rfl
      fun t rows ht hrows => onRows_set hrows (h.known name t ht) (h.length_lt ht hbefore)
  | delete name startIndex key =>
    exact database_of_onTable h (c := .delete name startIndex key) hsize hs (fun t out => makes_delete) rfl
      fun t rows ht hrows => onRows_delete hrows (h.known name t ht) (h.length_lt ht hbefore)

end Table

/-! ## Loading -/

theorem Sound.reload (h : s.Sound) (huntied : s.Untied) {growPagesStep : Nat}
    (hs : loadFile s.space.file growPagesStep = some s') (hsize : s'.space.file.size < 2 ^ 32) :
    s'.Sound ∧ s'.database = s.database := by
  have hfile := loadFile_file hs
  rw [hfile] at hsize
  obtain ⟨s₁, hs₁, hinv, -⟩ := h.inv.reload hsize huntied growPagesStep
  obtain rfl := Option.some.inj (hs₁.symm.trans hs)
  obtain ⟨s₂, hs₂, -, hmeta, htables, -⟩ := loadFile_spec h.inv.onFile hsize growPagesStep
  obtain rfl := Option.some.inj (hs₂.symm.trans hs)
  -- what is loaded is what the logs give, and that is what was in memory
  have hrecords : ∀ name : Bytes, s₂.tables[name]?.map (·.records) = s.tables[name]?.map (·.records) := by
    intro name
    rw [htables name, Option.map_map]
    cases ht : s.tables[name]? with
    | none => simp [layout, ht]
    | some t => simp [layout, ht, tableOf, h.inSync name t ht]
  refine ⟨⟨hinv, fun name t ht => ?_, fun name t ht => ?_, ?_⟩, ?_⟩
  · rw [htables name] at ht
    obtain ⟨bs, -, rfl⟩ := Option.map_eq_some_iff.mp ht
    rfl
  · have hold := hrecords name
    rw [ht, Option.map_some] at hold
    obtain ⟨t₀, ht₀, hsame⟩ := Option.map_eq_some_iff.mp hold.symm
    rw [hfile, ← hsame]
    exact h.known name t₀ ht₀
  · have hsame : s₂.metatable.records = s.metatable.records := by
      rw [hmeta, h.inv.metatable]
      rfl
    rw [hfile, hsame]
    exact h.named
  · funext name
    have hold := congrArg (Option.map (List.map (Row.of s.space.file))) (hrecords name)
    rw [Option.map_map, Option.map_map] at hold
    rw [database, hfile]
    exact hold

/-! ## Reading rows -/

section Reading

variable (h : s.Sound) (ht : s.tables[name]? = some t)
include h ht

theorem Sound.row_read (hr : r ∈ t.records) :
    getField s.space.file r.key = some ((Row.of s.space.file r).key.getD []) ∧
      getField s.space.file r.value = some (Row.of s.space.file r).value ∧
      getField s.space.file r.metadata = some (Row.of s.space.file r).metadata := by
  have hfields := h.inv.fields ht hr
  obtain ⟨v, hv⟩ := hfields.exists_getField h.inv.next_le .value
  obtain ⟨m, hm⟩ := hfields.exists_getField h.inv.next_le .metadata
  simp only [LogRecord.part] at hv hm
  refine ⟨?_, by simp [Row.of, rowOf, hv], by simp [Row.of, rowOf, hm]⟩
  rcases h.known name t ht r hr with hzero | ⟨k, hk⟩
  · rw [Row.of, if_pos hzero, hzero]
    rfl
  · rw [hk.key, hk.key_of]
    rfl

theorem Sound.getByIndex {index : UInt32} (hindex : index.toNat + 1 < 2 ^ 32) :
    Logdb.getByIndex s.space.file t index = some (s.database.getByIndex name index.toNat) := by
  have hnext : (index + 1).toNat = index.toNat + 1 := by
    rw [UInt32.toNat_add, UInt32.toNat_one]
    exact Nat.mod_eq_of_lt hindex
  rw [Logdb.getByIndex, hnext, Database.getByIndex, database_eq ht, Option.bind_some, List.getElem?_map]
  split
  · rename_i hout
    rw [List.getElem?_eq_none (by omega)]
    rfl
  · rename_i hin
    have hlt : index.toNat < t.records.length := by omega
    obtain ⟨-, hvalue, hmetadata⟩ := h.row_read ht (List.getElem_mem hlt)
    simp only [List.getElem?_eq_getElem hlt, Option.bind_some, Option.bind_eq_bind, hvalue, hmetadata, Option.map_some,
      Row.read]

/-- The check of the last index adds one to it, which wraps, and there is no such record to read. -/
theorem Sound.getByIndex_last (hsize : s.space.file.size < 2 ^ 32) :
    Logdb.getByIndex s.space.file t 0xFFFFFFFF = none := by
  have hlt := h.length_lt ht hsize
  have hnone : t.records[(0xFFFFFFFF : UInt32).toNat]? = none := List.getElem?_eq_none (Nat.le_of_lt_succ hlt)
  rw [Logdb.getByIndex, if_neg (by simp), hnone]
  rfl

theorem Sound.findKey (startIndex : UInt32) (key : Bytes) : Logdb.findKey s.space.file t startIndex key =
    some ((s.database.findKey name startIndex.toNat key).map UInt32.ofNat) := by
  rw [findKey_rows (h.known name t ht), Database.findKey, database_eq ht, Option.bind_some]

theorem Sound.get (hsize : s.space.file.size < 2 ^ 32) (startIndex : UInt32) (key : Bytes) :
    Logdb.get s.space.file t startIndex key = some (s.database.get name startIndex.toNat key) := by
  rw [Logdb.get, findKey_rows (h.known name t ht), Option.bind_some, Database.get, database_eq ht, Option.bind_some]
  cases hfound : findRow startIndex.toNat key (t.records.map (Row.of s.space.file)) with
  | none => rfl
  | some i =>
    have hi : i < t.records.length := by simpa using findRow_lt hfound
    have hlt := h.length_lt ht hsize
    have hindex := toNat_of_findRow hfound (by simpa using hlt)
    have hread := h.getByIndex ht (show (UInt32.ofNat i).toNat + 1 < 2 ^ 32 by omega)
    rw [Database.getByIndex, database_eq ht, Option.bind_some, hindex] at hread
    exact hread

end Reading

/-! ## Whole runs -/

/-- A command does not insert the first record of a table, and no file is loaded with a tied record in it. -/
def Plain (s : Ldb) : Action → Prop
  | .command c => s.NoFirstInsert c
  | .reload _ => s.Untied

instance (s : Ldb) : ∀ a, Decidable (s.Plain a)
  | .command c => inferInstanceAs (Decidable (s.NoFirstInsert c))
  | .reload _ => inferInstanceAs (Decidable s.Untied)

theorem step_sound {a : Action} (h : s.Sound) (ha : s.Plain a) (hs : s.step a = some s')
    (hsize : s'.space.file.size < 2 ^ 32) : s'.Sound ∧ s'.database = s.database.step a := by
  cases a with
  | command c => exact ⟨h.apply ha hs hsize, database_of_apply h hs hsize⟩
  | reload growPagesStep => exact h.reload ha hs hsize

theorem create_sound {growPagesStep : Nat} (h : create growPagesStep = some s) : s.Sound ∧ s.database = fun _ => none := by
  obtain ⟨s₁, hs₁, hinv, hempty⟩ := create_inv growPagesStep
  obtain rfl := Option.some.inj (hs₁.symm.trans h)
  obtain ⟨sp, rfl, -⟩ := eq_of_create h
  refine ⟨⟨hinv, fun name t ht => by simp at ht, fun name t ht => by simp at ht, fun r hr => by cases hr⟩, ?_⟩
  funext name
  simp [database]

theorem run_sound {growPagesStep : Nat} {s₀ : Ldb} {actions : List Action} (hcreate : create growPagesStep = some s₀)
    (hmeets : Meets step Plain s₀ actions) (hrun : run step s₀ actions = some s) (hsize : s.space.file.size < 2 ^ 32) :
    s.Sound ∧ s.database = actions.foldl Database.step fun _ => none := by
  have hstep : ∀ (s : Ldb) (d : Database) (a : Action) (s' : Ldb),
      (s.space.file.size < 2 ^ 32 → s.Sound ∧ s.database = d) → Plain s a → step s a = some s' →
      s'.space.file.size < 2 ^ 32 → s'.Sound ∧ s'.database = d.step a := by
    intro s d a s' h ha hs hsize
    obtain ⟨hsound, rfl⟩ := h ((step_size_le hs).trans_lt hsize)
    exact step_sound hsound ha hs hsize
  exact run_refines (R := fun (s : Ldb) d => s.space.file.size < 2 ^ 32 → s.Sound ∧ s.database = d) hstep
    (fun _ => create_sound hcreate) hmeets hrun hsize

/-- Whatever a user does, the log database has the rows of the same commands on plain lists, over all loads, in a
file below 2^32 bytes. All reads but that of the last index give these rows, and whatever is called on a table that is
there goes through. -/
theorem keeps_rows {growPagesStep : Nat} {s₀ : Ldb} {actions : List Action} (hcreate : create growPagesStep = some s₀)
    (hmeets : Meets step Plain s₀ actions) (hrun : run step s₀ actions = some s) (hsize : s.space.file.size < 2 ^ 32)
    (d : Database) (hd : d = actions.foldl Database.step fun _ => none) :
    (∀ name, s.contents name = (d name).map (·.map (some ∘ Row.bytes))) ∧
      (∀ name t, s.tables[name]? = some t →
        (∀ index : UInt32, index.toNat + 1 < 2 ^ 32 →
          Logdb.getByIndex s.space.file t index = some (d.getByIndex name index.toNat)) ∧
        Logdb.getByIndex s.space.file t 0xFFFFFFFF = none ∧
        (∀ (startIndex : UInt32) key, Logdb.findKey s.space.file t startIndex key =
          some ((d.findKey name startIndex.toNat key).map UInt32.ofNat)) ∧
        ∀ (startIndex : UInt32) key, Logdb.get s.space.file t startIndex key = some (d.get name startIndex.toNat key)) ∧
      ∀ c : Command, (∀ name ∈ c.table, (d name).isSome) → ∃ s', s.apply c = some s' := by
  obtain ⟨h, hdatabase⟩ := run_sound hcreate hmeets hrun hsize
  obtain rfl : s.database = d := hdatabase.trans hd.symm
  refine ⟨fun name => ?_, fun name t ht => ?_, fun c hc => ?_⟩
  · rw [contents, database, Option.map_map]
    cases ht : s.tables[name]? with
    | none => rfl
    | some t =>
      refine congrArg some ?_
      rw [Function.comp, List.map_map]
      refine List.map_congr_left fun r hr => ?_
      obtain ⟨hkey, hvalue, hmetadata⟩ := h.row_read ht hr
      simp only [getRecord, hkey, hvalue, hmetadata, Option.bind_eq_bind, Option.bind_some, Function.comp, Row.bytes]
  · exact ⟨fun index hindex => h.getByIndex ht hindex, h.getByIndex_last ht hsize, h.findKey ht, h.get ht hsize⟩
  · refine h.inv.frame.exists_apply hsize fun name hname => ?_
    obtain ⟨rows, hrows⟩ := Option.isSome_iff_exists.mp (hc name hname)
    obtain ⟨t, ht, -⟩ := Option.map_eq_some_iff.mp hrows
    exact ⟨t, ht⟩

/-- A row without a key is not found under the empty one. -/
def rowsActions : List Action :=
  [.command (.createTable (ascii "t")), .command (.append (ascii "t") (some (ascii "k")) (some (ascii "v")) none),
    .command (.insertByIndex (ascii "t") 0 none (some (ascii "w")) (some (ascii "m"))), .reload 1,
    .command (.set (ascii "t") 0 (ascii "k") none (some (ascii "n"))),
    .command (.set (ascii "t") 0 [] (some (ascii "u")) none), .command (.deleteByIndex (ascii "t") 1), .reload 1]

theorem keeps_rows_after_loads :
    ∃ s t, run step fresh rowsActions = some s ∧ s.tables[ascii "t"]? = some t ∧
      s.contents (ascii "t") = some [some ([], ascii "w", ascii "m"), some ([], ascii "u", [])] ∧
      Logdb.getByIndex s.space.file t 0 = some (some (ascii "w", ascii "m")) ∧
      Logdb.findKey s.space.file t 0 [] = some (some 1) ∧
      Logdb.get s.space.file t 0 [] = some (some (ascii "u", [])) ∧
      Logdb.get s.space.file t 0 (ascii "k") = some none := by
  have hmeets : Meets step Plain fresh rowsActions := by decide +kernel
  have hview : ((run step fresh rowsActions).bind fun s => s.tables[ascii "t"]?.map fun _ => s.space.file.size) =
      some 12288 := by decide +kernel
  obtain ⟨s, hrun, hview⟩ := Option.bind_eq_some_iff.mp hview
  obtain ⟨t, ht, hsize⟩ := Option.map_eq_some_iff.mp hview
  obtain ⟨hcontents, hreads, -⟩ := keeps_rows create_fresh hmeets hrun (by rw [hsize]; decide) _ rfl
  obtain ⟨hindex, -, hfind, hget⟩ := hreads _ t ht
  exact ⟨s, t, hrun, ht, (hcontents _).trans (by decide), (hindex 0 (by decide)).trans (by decide),
    (hfind 0 _).trans (by decide), (hget 0 _).trans (by decide), (hget 0 _).trans (by decide)⟩

end Ldb

end Tiodb.Logdb
