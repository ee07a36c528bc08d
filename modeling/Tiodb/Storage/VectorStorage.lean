import Tiodb.Storage.Index

/-!
# The vector storage

`VectorStorage.h`. Its mutex is not recursive: `Insert`, `Delete` and `Query` lock it
and then call a function that locks it again, and do not return.
-/

namespace Tiodb

open Lib

/-- `VectorStorage`, with the events it published as history. -/
structure VectorStorage where
  data : List ValueAndMetadata
  name : Bytes
  type : Bytes
  sink : Bool
  locked : Bool
  published : List Event
  deriving DecidableEq, Repr

namespace VectorStorage

/-- A call changes the vector, or throws. -/
abbrev VectorM := Prog Exc VectorStorage

def new (name type : Bytes) : VectorStorage := ⟨[], name, type, false, false, []⟩

/-- A `lock_guard` of the mutex. A second lock is undefined. -/
def lockGuard {α : Type} (x : VectorM α) : VectorM α :=
  ⟨fun s =>
    if s.locked then .undefined
    else
      match x.run { s with locked := true } with
      | .ok a s' => .ok a { s' with locked := false }
      | .throws e s' => .throws e { s' with locked := false }
      | .undefined => .undefined⟩

/-- `Publish` -/
def publish (eventCode : ContainerEventCode) (k v m : TioData) : VectorM Unit := do
  let sink ← lockGuard do return (← get).sink
  if sink then modify fun s => { s with published := s.published ++ [⟨eventCode, k, v, m⟩] }

/-- `GetRecordNumber`: an index that is not negative is not checked here. -/
def getRecordNumber (key : TioData) : VectorM Nat := do
  let index ← Prog.ofExcept key.asInt
  let size := Int32.ofNat (← get).data.length
  if index < 0 then
    if size < -index then throw (invalidArgument "invalid subscript")
    else return ((size + index).toInt % 2 ^ 64).toNat
  else return index.toNatClampNeg

/-- `data_.at(n)`. The standard leaves the text of the exception open. -/
def recordAt (n : Nat) : VectorM ValueAndMetadata := do
  match (← get).data[n]? with
  | some r => return r
  | none => throw ⟨.outOfRange, ascii "vector"⟩

/-- `GetInternalRecord` -/
def getInternalRecord (key : TioData) : VectorM ValueAndMetadata := do recordAt (← getRecordNumber key)

def checkValue (value : TioData) : VectorM Unit :=
  if value.isNull then throw (invalidArgument "value??") else pure ()

def getName : VectorM Bytes := lockGuard do return (← get).name

def getRecordCount : VectorM Nat := lockGuard do return (← get).data.length

def getRecord (searchKey : TioData) : VectorM Record := lockGuard do
  let r ← getInternalRecord searchKey
  return ⟨searchKey, r.value, r.metadata⟩

def pushBack (_key value metadata : TioData) : VectorM Unit := do
  checkValue value
  lockGuard (modify fun s => { s with data := s.data ++ [⟨value, metadata⟩] })
  publish .insert (.int (Int32.ofNat ((← get).data.length - 1))) value metadata

def pushFront (_key value metadata : TioData) : VectorM Unit := do
  checkValue value
  lockGuard (modify fun s => { s with data := ⟨value, metadata⟩ :: s.data })
  publish .insert (.int 0) value metadata

/-- An output parameter that is `NULL` is published as no data. -/
def out (wanted : Bool) (x : TioData) : TioData := if wanted then x else .none

/-- The arguments say which output parameters are not `NULL`. -/
def popBack (key value metadata : Bool) : VectorM Record := do
  match (← get).data.getLast? with
  | none => throw (invalidArgument "empty")
  | some r =>
    let index := TioData.int (Int32.ofNat ((← get).data.length - 1))
    lockGuard (modify fun s => { s with data := s.data.dropLast })
    publish .delete (out key index) (out value r.value) (out metadata r.metadata)
    return ⟨index, r.value, r.metadata⟩

/-- The key of the caller is left as it was. -/
def popFront (value metadata : Bool) : VectorM Record := do
  match (← get).data.head? with
  | none => throw (invalidArgument "empty")
  | some r =>
    lockGuard (modify fun s => { s with data := s.data.tail })
    publish .delete (.int 0) (out value r.value) (out metadata r.metadata)
    return ⟨.none, r.value, r.metadata⟩

def set (key value metadata : TioData) : VectorM Unit := do
  checkValue value
  lockGuard do
    let n ← getRecordNumber key
    let _ ← recordAt n
    modify fun s => { s with data := s.data.set n ⟨value, metadata⟩ }
  publish .set key value metadata

def insert (key value metadata : TioData) : VectorM Unit := do
  checkValue value
  lockGuard do
    let recordNumber ← getRecordNumber key
    -- check out of bounds
    let _ ← getRecord key
    modify fun s => { s with data := s.data.insertIdx recordNumber ⟨value, metadata⟩ }
  publish .insert key value metadata

def delete (key value metadata : TioData) : VectorM Unit := do
  let recordNumber ← getRecordNumber key
  lockGuard do
    -- check out of bounds
    let _ ← getRecord key
    modify fun s => { s with data := s.data.eraseIdx recordNumber }
  publish .delete key value metadata

def clear : VectorM Unit := do
  lockGuard (modify fun s => { s with data := [] })
  publish .clear .none .none .none

def query (startOffset endOffset : Int32) (query : TioData) : VectorM (List Record) := do
  if !query.isNull then throw (runtimeError "query type not supported by this container")
  else lockGuard do
    let count ← getRecordCount
    let (startOffset, endOffset) ←
      if count = 0 then pure (0, endOffset)
      else Prog.ofExcept (normalizeQueryLimits startOffset endOffset (Int32.ofNat count))
    let first := startOffset.toNatClampNeg
    let last := endOffset.toNatClampNeg
    let data := (← get).data
    -- `reserve` of a negative number
    if endOffset < startOffset then throw ⟨.lengthError, ascii "vector::reserve"⟩
    -- `data_[key]` is not checked.
    else if data.length < last then Prog.undefined
    else return ((data.drop first).take (last - first)).zipIdx.map fun (r, i) =>
      ⟨.int (startOffset + Int32.ofNat i), r.value, r.metadata⟩

/-! ## Records by position -/

variable (s : VectorStorage) (key value metadata : TioData)

theorem run_lockGuard {α : Type} (x : VectorM α) (h : s.locked = false) :
    (lockGuard x).run s =
      match x.run { s with locked := true } with
      | .ok a s' => .ok a { s' with locked := false }
      | .throws e s' => .throws e { s' with locked := false }
      | .undefined => .undefined :=
  if_neg (by simp [h])

theorem run_lockGuard_locked {α : Type} (x : VectorM α) (h : s.locked = true) :
    (lockGuard x).run s = .undefined :=
  if_pos h

/-- The record that a key names, if it names one. -/
def position (s : VectorStorage) (key : TioData) : Option Nat :=
  match (getRecordNumber key).run s with
  | .ok n _ => if n < s.data.length then some n else none
  | _ => none

theorem getRecordNumber_state :
    (∃ n, (getRecordNumber key).run s = .ok n s) ∨ ∃ e, (getRecordNumber key).run s = .throws e s := by
  cases key with
  | int k =>
    simp only [getRecordNumber, TioData.asInt_int, Prog.run_bind, Prog.run_ofExcept_ok, Prog.run_get]
    split_ifs
    · exact Or.inr ⟨_, rfl⟩
    · exact Or.inl ⟨_, rfl⟩
    · exact Or.inl ⟨_, rfl⟩
  | _ => exact Or.inr ⟨_, rfl⟩

theorem position_congr {s s' : VectorStorage} (h : s'.data.length = s.data.length) (key : TioData) :
    s'.position key = s.position key := by
  cases key with
  | int k =>
    simp only [position, getRecordNumber, TioData.asInt_int, Prog.run_bind, Prog.run_ofExcept_ok, Prog.run_get, h]
    split_ifs <;> rfl
  | _ => rfl

theorem recordAt_state (n : Nat) :
    (recordAt n).run s =
      match s.data[n]? with
      | some r => .ok r s
      | none => .throws ⟨.outOfRange, ascii "vector"⟩ s := by
  simp only [recordAt, Prog.run_get_bind]
  cases s.data[n]? <;> rfl

theorem publish_spec (code : ContainerEventCode) (k v m : TioData) (h : s.locked = false) :
    (publish code k v m).run s =
      .ok () { s with published := if s.sink then s.published ++ [⟨code, k, v, m⟩] else s.published } := by
  rw [publish, Prog.run_bind, run_lockGuard s _ h]
  obtain ⟨data, name, type, sink, locked, published⟩ := s
  cases sink <;> simp_all

theorem position_lt {i : Nat} (h : s.position key = some i) : i < s.data.length := by
  unfold position at h
  split at h
  · split_ifs at h with hi
    obtain rfl := Option.some.inj h
    exact hi
  · cases h

/-- A set does not return, throws with nothing changed, or changes the record that its key names. -/
theorem set_cases :
    (set key value metadata).run s = .undefined ∨ (∃ e, (set key value metadata).run s = .throws e s) ∨
      ∃ i, s.position key = some i ∧ (set key value metadata).run s = .ok () { s with
        data := s.data.set i ⟨value, metadata⟩
        published := if s.sink then s.published ++ [⟨.set, key, value, metadata⟩] else s.published } := by
  rw [set, checkValue]
  by_cases hv : value.isNull = true
  · exact Or.inr (Or.inl ⟨_, by simp [hv]; rfl⟩)
  simp only [hv, Bool.false_eq_true, if_false, Prog.run_pure_bind]
  by_cases hl : s.locked = true
  · exact Or.inl (by rw [Prog.run_bind, run_lockGuard_locked s _ hl])
  have hl : s.locked = false := by simpa using hl
  have hunlock : { s with locked := false } = s := by rw [← hl]
  have hpos : ({ s with locked := true } : VectorStorage).position key = s.position key := by
    exact position_congr (by rfl) key
  rw [Prog.run_bind, run_lockGuard s _ hl, Prog.run_bind]
  rcases getRecordNumber_state { s with locked := true } key with ⟨n, hn⟩ | ⟨e, he⟩
  · rw [position, hn] at hpos
    simp only [hn, Prog.run_bind, recordAt_state]
    cases hd : s.data[n]? with
    | none => exact Or.inr (Or.inl ⟨_, congrArg (Outcome.throws _) hunlock⟩)
    | some r =>
      have hlt : n < s.data.length := (List.getElem?_eq_some_iff.mp hd).1
      refine Or.inr (Or.inr ⟨n, by rw [← hpos]; exact if_pos hlt, ?_⟩)
      simp only [Prog.run_modify, publish_spec]
      rw [← hl]
  · rw [he]
    exact Or.inr (Or.inl ⟨e, congrArg (Outcome.throws e) hunlock⟩)

/-! ## Reading -/

theorem reads_lockGuard {α : Type} {x : VectorM α} (h : x.Reads) : (lockGuard x).Reads := by
  intro s s' hs
  by_cases hl : s.locked = true
  · rw [run_lockGuard_locked s x hl] at hs
    cases hs
  rw [run_lockGuard s x (by simpa using hl)] at hs
  cases hr : x.run { s with locked := true } with
  | undefined => simp [hr, Outcome.next] at hs
  | _ =>
    have ht := h _ _ (by rw [hr]; rfl)
    simp [hr, Outcome.next, ht] at hs
    obtain ⟨data, name, type, sink, locked, published⟩ := s
    simp_all

theorem getRecordNumber_reads : (getRecordNumber key).Reads := by
  intro s s' h
  rcases getRecordNumber_state s key with ⟨n, hn⟩ | ⟨e, he⟩
  · rw [hn] at h
    exact (Option.some.inj h).symm
  · rw [he] at h
    exact (Option.some.inj h).symm

theorem recordAt_reads (n : Nat) : (recordAt n).Reads := by
  refine Prog.reads_get.bind fun s => ?_
  cases s.data[n]? with
  | none => exact Prog.reads_throw _
  | some r => exact Prog.reads_pure _

theorem getRecord_reads : (getRecord key).Reads :=
  reads_lockGuard (((getRecordNumber_reads key).bind recordAt_reads).bind fun _ => Prog.reads_pure _)

end VectorStorage

end Tiodb
