import Tiodb.Storage.ListStorage
import Tiodb.Storage.MapStorage
import Tiodb.Storage.VectorStorage

/-!
# Containers

`Container` of `Container.h` over the storages of `MemoryStorage.h`: a storage and
its property map, which one function creates together. Every call goes to the
storage.
-/

namespace Tiodb

open Lib

/-- The storages of the memory manager. -/
inductive Storage where
  | list (s : ListStorage)
  | map (s : MapStorage)
  | vector (s : VectorStorage)
  deriving DecidableEq

/-- A storage and the map of its properties. -/
structure Container where
  storage : Storage
  properties : StringMap Bytes
  deriving DecidableEq

namespace Container

/-- A call changes the container, or throws. -/
abbrev ContainerM := Prog Exc Container

/-- The call of the storage's own function. -/
def call {α : Type} (l : ListStorage.ListM α) (m : MapStorage.MapM α) (v : VectorStorage.VectorM α) :
    ContainerM α :=
  ⟨fun c =>
    match c.storage with
    | .list s => (l.run s).mapState fun s => { c with storage := .list s }
    | .map s => (m.run s).mapState fun s => { c with storage := .map s }
    | .vector s => (v.run s).mapState fun s => { c with storage := .vector s }⟩

def getName (c : Container) : Bytes :=
  match c.storage with
  | .list s => s.name
  | .map s => s.name
  | .vector s => s.name

def getType (c : Container) : Bytes :=
  match c.storage with
  | .list s => s.type
  | .map s => s.type
  | .vector s => s.type

def getRecordCount : ContainerM Nat :=
  call ListStorage.getRecordCount MapStorage.getRecordCount VectorStorage.getRecordCount

def getRecord (key : TioData) : ContainerM Record :=
  call (ListStorage.getRecord key) (MapStorage.getRecord key) (VectorStorage.getRecord key)

/-- With an output parameter for each of the three, which holds no value yet. -/
def popBack : ContainerM Record :=
  call (ListStorage.popBack (some .none) (some .none)) MapStorage.popBack (VectorStorage.popBack true true true)

def popFront : ContainerM Record :=
  call (ListStorage.popFront (some .none) (some .none)) MapStorage.popFront (VectorStorage.popFront true true)

def pushBack (k v m : TioData) : ContainerM Unit :=
  call (ListStorage.pushBack k v m) (MapStorage.pushBack k v m) (VectorStorage.pushBack k v m)

def pushFront (k v m : TioData) : ContainerM Unit :=
  call (ListStorage.pushFront k v m) (MapStorage.pushFront k v m) (VectorStorage.pushFront k v m)

def insert (k v m : TioData) : ContainerM Unit :=
  call (ListStorage.insert k v m) (MapStorage.insert k v m) (VectorStorage.insert k v m)

def set (k v m : TioData) : ContainerM Unit :=
  call (ListStorage.set k v m) (MapStorage.set k v m) (VectorStorage.set k v m)

def delete (k v m : TioData) : ContainerM Unit :=
  call (ListStorage.delete k v m) (MapStorage.delete k v m) (VectorStorage.delete k v m)

def clear : ContainerM Unit := call ListStorage.clear MapStorage.clear VectorStorage.clear

def query (startOffset endOffset : Int32) (query : TioData) : ContainerM (List Record) :=
  call (ListStorage.query startOffset endOffset query) (MapStorage.query startOffset endOffset query)
    (VectorStorage.query startOffset endOffset query)

def setProperty (key value : Bytes) : ContainerM Unit :=
  modify fun c => { c with properties := c.properties.insert key value }

/-- Special properties start with `__`, and only a map has some. -/
def isSpecial (key : Bytes) : Bool := 2 < key.length && (ascii "__").isPrefixOf key

/-- `GetProperty` of the property map. -/
def plainProperty (key : Bytes) : ContainerM Bytes := do
  match (← get).properties[key]? with
  | some value => return value
  | none => throw (invalidArgument "key not found")

/-- `GetProperty`. A map answers for the special ones itself. -/
def getProperty (key : Bytes) : ContainerM Bytes := do
  match (← get).storage with
  | .map s =>
    if isSpecial key then
      match (MapStorage.getProperty key).run s with
      | .ok value _ => return value
      | .throws e _ => throw e
      | .undefined => Prog.undefined
    else plainProperty key
  | _ => plainProperty key

/-! ## Records by position -/

/-- Where a record is: in a list or a vector at an index, in a map under a key. -/
inductive Position where
  | index (n : Nat)
  | key (k : Bytes)
  deriving DecidableEq, Repr

/-- The record that a key names. A map is written by its string keys only. -/
def position (c : Container) (key : TioData) : Option Position :=
  match c.storage, key with
  | .list s, key => (s.position key).map .index
  | .vector s, key => (s.position key).map .index
  | .map _, .string k => some (.key (cstr k))
  | .map _, _ => none

/-- The value of the record there. -/
def valueAt (c : Container) (p : Position) : Option TioData :=
  match c.storage, p with
  | .list s, .index n => s.data[n]?.map ValueAndMetadata.value
  | .vector s, .index n => s.data[n]?.map ValueAndMetadata.value
  | .map s, .key k => s.data[k]?.map ValueAndMetadata.value
  | _, _ => none

theorem set_position {c c' : Container} {key value metadata : TioData} (hv : value.isNull = false)
    (h : (set key value metadata).run c = .ok () c') :
    (∀ key', c'.position key' = c.position key') ∧
      ∃ p, c.position key = some p ∧ c'.valueAt p = some value := by
  obtain ⟨storage, properties⟩ := c
  cases storage with
  | list s =>
    obtain ⟨s', hs, rfl⟩ := Outcome.mapState_ok h
    obtain ⟨i, hi, hd⟩ := ListStorage.set_ok s key value metadata hs
    have hlen : s'.data.length = s.data.length := by rw [hd, List.length_modify]
    refine ⟨fun key' => ?_, .index i, by simp [position, hi], ?_⟩
    · simp [position, ListStorage.position_congr hlen]
    · have hlt := ListStorage.position_lt s key hi
      simp [valueAt, hd, hlt, ListStorage.assign, hv]
  | map s =>
    obtain ⟨s', hs, rfl⟩ := Outcome.mapState_ok h
    obtain ⟨k, rfl, hd⟩ := MapStorage.set_ok s value metadata hs
    refine ⟨fun key' => by cases key' <;> rfl, .key (cstr k), rfl, ?_⟩
    simp [valueAt, hd]
  | vector s =>
    obtain ⟨s', hs, rfl⟩ := Outcome.mapState_ok h
    obtain ⟨i, hi, hd⟩ : ∃ i, s.position key = some i ∧ s'.data = s.data.set i ⟨value, metadata⟩ := by
      rcases VectorStorage.set_cases s key value metadata with hu | ⟨e, he⟩ | ⟨i, hi, hok⟩
      · rw [hu] at hs
        cases hs
      · rw [he] at hs
        cases hs
      · rw [hok] at hs
        obtain rfl := (Outcome.ok.inj hs).2
        exact ⟨i, hi, rfl⟩
    have hlen : s'.data.length = s.data.length := by rw [hd, List.length_set]
    refine ⟨fun key' => ?_, .index i, by simp [position, hi], ?_⟩
    · simp [position, VectorStorage.position_congr hlen]
    · have hlt := VectorStorage.position_lt s key hi
      simp [valueAt, hd, hlt]

theorem set_throws {c c' : Container} {key value metadata : TioData} {e : Exc}
    (h : (set key value metadata).run c = .throws e c') : c' = c := by
  obtain ⟨storage, properties⟩ := c
  cases storage with
  | list s =>
    obtain ⟨s', hs, rfl⟩ := Outcome.mapState_throws h
    rw [ListStorage.set_throws s key value metadata hs]
  | map s =>
    obtain ⟨s', hs, rfl⟩ := Outcome.mapState_throws h
    rw [MapStorage.set_throws s value metadata hs]
  | vector s =>
    obtain ⟨s', hs, rfl⟩ := Outcome.mapState_throws h
    rcases VectorStorage.set_cases s key value metadata with hu | ⟨e', he⟩ | ⟨i, hi, hok⟩
    · rw [hu] at hs
      cases hs
    · rw [he] at hs
      rw [(Outcome.throws.inj hs).2]
    · rw [hok] at hs
      cases hs

theorem reads_call {α : Type} {l : ListStorage.ListM α} {m : MapStorage.MapM α} {v : VectorStorage.VectorM α}
    (hl : l.Reads) (hm : m.Reads) (hv : v.Reads) : (call l m v).Reads := by
  rintro ⟨storage, properties⟩ c' h
  cases storage with
  | list s =>
    obtain ⟨s', hs, rfl⟩ := Option.map_eq_some_iff.mp ((Outcome.mapState_next _ _).symm.trans h)
    rw [hl s s' hs]
  | map s =>
    obtain ⟨s', hs, rfl⟩ := Option.map_eq_some_iff.mp ((Outcome.mapState_next _ _).symm.trans h)
    rw [hm s s' hs]
  | vector s =>
    obtain ⟨s', hs, rfl⟩ := Option.map_eq_some_iff.mp ((Outcome.mapState_next _ _).symm.trans h)
    rw [hv s s' hs]

theorem getRecord_reads (key : TioData) : (getRecord key).Reads :=
  reads_call (ListStorage.getRecord_reads key) (MapStorage.getRecord_reads key)
    (VectorStorage.getRecord_reads key)

end Container

end Tiodb
