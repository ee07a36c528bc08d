import Tiodb.Storage.Index

/-!
# The map storage

`MapStorage.h`. A map iterator is the position it stands at in the order of the
keys. No function locks the mutex twice, so a locked section is one atomic part of
the program; a change and its publication are two of them.
-/

namespace Tiodb

open Lib

/-- `MapStorage`, with the events it published as history. -/
structure MapStorage where
  data : StringMap ValueAndMetadata
  name : Bytes
  type : Bytes
  sink : Bool
  revNum : UInt64
  published : List Event
  deriving DecidableEq

namespace MapStorage

/-- A call changes the map, or throws. -/
abbrev MapM := Prog Exc MapStorage

def new (name type : Bytes) : MapStorage := ⟨∅, name, type, false, 0, []⟩

/-- `UpdateRevNumAndPublish` -/
def updateRevNumAndPublish (eventCode : ContainerEventCode) (k v m : TioData) : MapM Unit :=
  modify fun s =>
    { s with
      revNum := s.revNum + 1
      published := if s.sink then s.published ++ [⟨eventCode, k, v, m⟩] else s.published }

def checkKey (key : TioData) : MapM Unit :=
  if key.isNull then throw (invalidArgument "invalid key") else pure ()

/-- `GetInternalRecord`: an `int` key is a position in the order of the keys. -/
def getInternalRecord (key : TioData) : MapM (Bytes × ValueAndMetadata) := do
  match key with
  | .int index =>
    let data := (← get).data
    let offset ← Prog.ofExcept (normalizeIndex index (Int32.ofNat data.size) true)
    match data.toList[offset.toNat]? with
    | some p => return p
    -- `*end()`
    | none => Prog.undefined
  | key =>
    let keyString ← Prog.ofExcept key.asSz
    match (← get).data[keyString]? with
    | some r => return (keyString, r)
    | none => throw (invalidArgument "key not found")

def getRecordCount : MapM Nat := return (← get).data.size

/-- Each of these four is supported by no map: `name` is the command. -/
def notSupported {α : Type} (name : String) : MapM α :=
  throw (invalidArgument ("\"" ++ name ++ "\" not supported by this container"))

def pushBack (_key _value _metadata : TioData) : MapM Unit := notSupported "push_back"

def pushFront (_key _value _metadata : TioData) : MapM Unit := notSupported "push_front"

def popBack : MapM Record := notSupported "pop_back"

def popFront : MapM Record := notSupported "pop_front"

/-! The part of each mutator up to the end of its locked section. -/

/-- The locked section of `Set`. -/
def setRecord (key value metadata : TioData) : MapM Unit := do
  checkKey key
  let keyString ← Prog.ofExcept key.asSz
  modify fun s => { s with data := s.data.insert keyString ⟨value, metadata⟩ }

/-- The locked section of `Insert`. -/
def insertRecord (key value metadata : TioData) : MapM Unit := do
  checkKey key
  let keyString ← Prog.ofExcept key.asSz
  if (← get).data.contains keyString then throw (invalidArgument "already exits")
  else modify fun s => { s with data := s.data.insert keyString ⟨value, metadata⟩ }

/-- The locked section of `Delete`. -/
def deleteRecord (key : TioData) : MapM Unit := do
  checkKey key
  let keyString ← Prog.ofExcept key.asSz
  if (← get).data.contains keyString then modify fun s => { s with data := s.data.erase keyString }
  else throw (invalidArgument "key not found")

/-- The locked section of `Clear`. -/
def clearRecords : MapM Unit := modify fun s => { s with data := ∅ }

def set (key value metadata : TioData) : MapM Unit := do
  setRecord key value metadata
  updateRevNumAndPublish .set key value metadata

/-- A new record is published as a set. -/
def insert (key value metadata : TioData) : MapM Unit := do
  insertRecord key value metadata
  updateRevNumAndPublish .set key value metadata

def delete (key value metadata : TioData) : MapM Unit := do
  deleteRecord key
  updateRevNumAndPublish .delete key value metadata

def clear : MapM Unit := do
  clearRecords
  updateRevNumAndPublish .clear .none .none .none

/-- The records between two iterators, in the order of the keys. -/
def resultSet (data : StringMap ValueAndMetadata) (first last : Nat) : List Record :=
  ((data.toList.drop first).take (last - first)).map fun (k, r) => ⟨.string k, r.value, r.metadata⟩

/-- `advance` of an iterator, which nothing checks. -/
def advance (offset : Int32) : MapM Nat := do
  if 0 ≤ offset.toInt ∧ offset.toInt ≤ (← get).data.size then return offset.toNatClampNeg
  else Prog.undefined

def query (startOffset endOffset : Int32) (query : TioData) : MapM (List Record) := do
  if !query.isNull then throw (runtimeError "this container supports only querystr=null")
  else
    let data := (← get).data
    let size := Int32.ofNat data.size
    if startOffset = 0 ∧ endOffset = 0 then return resultSet data 0 data.size
    else if endOffset = 0 then
      let startOffset ← Prog.ofExcept (normalizeForQueries startOffset size)
      return resultSet data (← advance startOffset) data.size
    else
      let (startOffset, endOffset) ← Prog.ofExcept (normalizeQueryLimits startOffset endOffset size)
      return resultSet data (← advance startOffset) (← advance endOffset)

def getRecord (searchKey : TioData) : MapM Record := do
  let p ← getInternalRecord searchKey
  return ⟨.string p.1, p.2.value, p.2.metadata⟩

/-- `Get` of the property map: the one special property of a map is the list of its keys. -/
def getProperty (key : Bytes) : MapM Bytes := do
  if key ≠ ascii "__keys__" then throw (invalidArgument "key not found")
  else return (ascii "\r\n").intercalate (← get).data.keys

/-! ## What each section does -/

variable (s : MapStorage) (k : Bytes) (value metadata : TioData)

def withData (s : MapStorage) (data : StringMap ValueAndMetadata) : MapStorage := { s with data := data }

@[simp] theorem withData_data (data : StringMap ValueAndMetadata) : (s.withData data).data = data := rfl

@[simp] theorem withData_published (data : StringMap ValueAndMetadata) :
    (s.withData data).published = s.published := rfl

theorem setRecord_spec :
    (setRecord (.string k) value metadata).run s = .ok () (s.withData (s.data.insert (cstr k) ⟨value, metadata⟩)) :=
  rfl

theorem insertRecord_spec :
    (insertRecord (.string k) value metadata).run s =
      if s.data.contains (cstr k) then .throws (invalidArgument "already exits") s
      else .ok () (s.withData (s.data.insert (cstr k) ⟨value, metadata⟩)) := by
  change (if s.data.contains (cstr k) then _ else _ : MapM Unit).run s = _
  split <;> rfl

theorem deleteRecord_spec :
    (deleteRecord (.string k)).run s =
      if s.data.contains (cstr k) then .ok () (s.withData (s.data.erase (cstr k)))
      else .throws (invalidArgument "key not found") s := by
  change (if s.data.contains (cstr k) then _ else _ : MapM Unit).run s = _
  split <;> rfl

theorem updateRevNumAndPublish_spec (code : ContainerEventCode) (k v m : TioData) :
    (updateRevNumAndPublish code k v m).run s = .ok () { s with
      revNum := s.revNum + 1
      published := if s.sink then s.published ++ [⟨code, k, v, m⟩] else s.published } := rfl

theorem getRecord_string :
    (getRecord (.string k)).run s =
      match s.data[cstr k]? with
      | some r => .ok ⟨.string (cstr k), r.value, r.metadata⟩ s
      | none => .throws (invalidArgument "key not found") s := by
  unfold getRecord getInternalRecord
  simp only [TioData.asSz_string, Prog.run_bind, Prog.run_ofExcept_ok, Prog.run_get]
  cases s.data[cstr k]? <;> rfl

theorem getInternalRecord_reads (key : TioData) : (getInternalRecord key).Reads := by
  have hfind (key : TioData) : Prog.Reads (ε := Exc) (σ := MapStorage) (do
      let keyString ← Prog.ofExcept key.asSz
      match (← get).data[keyString]? with
      | some r => return (keyString, r)
      | none => throw (invalidArgument "key not found")) := by
    refine (Prog.reads_ofExcept _).bind fun k => Prog.reads_get.bind fun s => ?_
    cases s.data[k]? with
    | none => exact Prog.reads_throw _
    | some r => exact Prog.reads_pure _
  cases key with
  | int k =>
    refine Prog.reads_get.bind fun s => (Prog.reads_ofExcept _).bind fun n => ?_
    cases s.data.toList[n.toNat]? with
    | none => exact Prog.reads_undefined
    | some r => exact Prog.reads_pure _
  | _ => exact hfind _

theorem getRecord_reads (key : TioData) : (getRecord key).Reads :=
  (getInternalRecord_reads key).bind fun _ => Prog.reads_pure _

theorem set_ok {key : TioData} {s' : MapStorage} (h : (set key value metadata).run s = .ok () s') :
    ∃ k, key = .string k ∧ s'.data = s.data.insert (cstr k) ⟨value, metadata⟩ := by
  cases key with
  | string k =>
    obtain rfl : _ = s' := by simpa [set, Prog.run_bind, setRecord_spec, updateRevNumAndPublish_spec] using h
    exact ⟨k, rfl, rfl⟩
  | _ => cases h

theorem set_throws {key : TioData} {e : Exc} {s' : MapStorage}
    (h : (set key value metadata).run s = .throws e s') : s' = s := by
  cases key with
  | string k => simp [set, Prog.run_bind, setRecord_spec, updateRevNumAndPublish_spec] at h
  | _ => exact (Outcome.throws.inj h).2.symm

end MapStorage

end Tiodb
