import Mathlib.Data.Nat.SuccPred
import Tiodb.Storage.Index

/-!
# The list storage

`ListStorage.h`. A list iterator is the position it stands at, so `end()` is the
length. `published` records the calls to the sink, in order. `mutex` counts how
often the recursive mutex is held.
-/

namespace Tiodb

open Lib

/-- `ListStorage`, with the events it published as history. -/
structure ListStorage where
  data : List ValueAndMetadata
  name : Bytes
  type : Bytes
  sink : Bool
  revNum : UInt64
  mutex : Nat
  published : List Event
  deriving DecidableEq, Repr

namespace ListStorage

/-- A call changes the list, or throws. -/
abbrev ListM := Prog Exc ListStorage

def new (name type : Bytes) : ListStorage := ⟨[], name, type, false, 0, 0, []⟩

/-- `tio_lock_guard`: the destructor unlocks on return and on an exception. -/
def lockGuard {α : Type} (x : ListM α) : ListM α :=
  ⟨fun s =>
    match x.run { s with mutex := s.mutex + 1 } with
    | .ok a s' => .ok a { s' with mutex := s'.mutex - 1 }
    | .throws e s' => .throws e { s' with mutex := s'.mutex - 1 }
    | .undefined => .undefined⟩

/-- `UpdateRevNumAndPublish` -/
def updateRevNumAndPublish (eventCode : ContainerEventCode) (k v m : TioData) : ListM Unit :=
  modify fun s =>
    { s with
      revNum := s.revNum + 1
      published := if s.sink then s.published ++ [⟨eventCode, k, v, m⟩] else s.published }

def checkValue (value : TioData) : ListM Unit :=
  if value.isNull then throw (invalidArgument "value??") else pure ()

def getRecordCount : ListM Nat := lockGuard do
  return (← get).data.length

def pushBack (_key value metadata : TioData) : ListM Unit := do
  checkValue value
  lockGuard do
    modify fun s => { s with data := s.data ++ [⟨value, metadata⟩] }
    let publishKey := TioData.int (Int32.ofNat ((← get).data.length - 1))
    updateRevNumAndPublish .pushBack publishKey value metadata

def pushFront (_key value metadata : TioData) : ListM Unit := do
  checkValue value
  lockGuard do
    modify fun s => { s with data := ⟨value, metadata⟩ :: s.data }
    updateRevNumAndPublish .pushFront (.int 0) value metadata

/-- `TIONULL` where the output parameter is `NULL`. -/
def orNull (p : Option TioData) : TioData := p.getD .none

/-- The arguments are what the output parameters point to, `none` for `NULL`. -/
def popBack (value metadata : Option TioData) : ListM Record := lockGuard do
  match (← get).data.getLast? with
  | none => throw (invalidArgument "empty")
  | some data =>
    modify fun s => { s with data := s.data.dropLast }
    let index := TioData.int (Int32.ofNat (← get).data.length)
    updateRevNumAndPublish .delete index (orNull value) (orNull metadata)
    return ⟨index, data.value, data.metadata⟩

def popFront (value metadata : Option TioData) : ListM Record := lockGuard do
  match (← get).data.head? with
  | none => throw (invalidArgument "empty")
  | some data =>
    modify fun s => { s with data := s.data.tail }
    updateRevNumAndPublish .delete (.int 0) (orNull value) (orNull metadata)
    return ⟨.int 0, data.value, data.metadata⟩

/-- Where `GetOffset` stops: forward from `begin()` in the first half, else back from `end()`. -/
def walk (length : Nat) (index : Int32) : Nat :=
  if length = 0 then length
  else if index ≤ Int32.ofNat (length / 2) then (· + 1)^[index.toNatClampNeg] 0
  else (· - 1)^[(Int32.ofInt (length - index.toInt)).toNatClampNeg] length

/-- `GetOffset`: the iterator as a position, and the index behind the negative keys. -/
def getOffset (key : TioData) : ListM (Nat × Int32) := do
  let index ← Prog.ofExcept key.asInt
  let length := (← get).data.length
  let index ← Prog.ofExcept (normalizeIndex index (Int32.ofNat length) true)
  return (walk length index.toInt32, index.toInt32)

/-- A missing value, or metadata, leaves that part of the record as it is. -/
def assign (value metadata : TioData) (r : ValueAndMetadata) : ValueAndMetadata :=
  ⟨if value.isNull then r.value else value, if metadata.isNull then r.metadata else metadata⟩

def set (key value metadata : TioData) : ListM Unit := lockGuard do
  let (i, _) ← getOffset key
  -- `*GetOffset(key)`: the end iterator points to no record.
  if (← get).data.length ≤ i then Prog.undefined
  else
    updateRevNumAndPublish .set key value metadata
    modify fun s => { s with data := s.data.modify i (assign value metadata) }

def insert (key value metadata : TioData) : ListM Unit := do
  let k ← Prog.ofExcept key.asInt
  -- `size_t index = key.AsInt()`
  let index := (k.toInt % 2 ^ 64).toNat
  lockGuard do
    if index = 0 then
      modify fun s => { s with data := ⟨value, metadata⟩ :: s.data }
      updateRevNumAndPublish .insert key value metadata
    else if index = (← get).data.length then
      modify fun s => { s with data := s.data ++ [⟨value, metadata⟩] }
      updateRevNumAndPublish .insert key value metadata
    else
      let (i, _) ← getOffset key
      modify fun s => { s with data := s.data.insertIdx i ⟨value, metadata⟩ }
      updateRevNumAndPublish .insert key value metadata

def delete (key value metadata : TioData) : ListM Unit := lockGuard do
  let (i, realIndex) ← getOffset key
  if i = (← get).data.length then throw (runtimeError "invalid index")
  else
    modify fun s => { s with data := s.data.eraseIdx i }
    updateRevNumAndPublish .delete (.int realIndex) value metadata

def clear : ListM Unit := lockGuard do
  modify fun s => { s with data := [] }
  updateRevNumAndPublish .clear .none .none .none

/-- The iterator for an offset of a query. -/
def queryOffset (offset recordCount : Int32) : ListM Nat := do
  if offset = 0 then return 0
  else if offset = recordCount then return (← get).data.length
  else return (← getOffset (.int offset)).1

/-- The records between two iterators, with their keys counted from the start. -/
def resultSet (data : List ValueAndMetadata) (startOffset : Int32) (first last : Nat) : List Record :=
  ((data.drop first).take (last - first)).zipIdx.map fun (r, i) =>
    ⟨.int (startOffset + Int32.ofNat i), r.value, r.metadata⟩

def query (startOffset endOffset : Int32) (query : TioData) : ListM (List Record) := do
  if !query.isNull then throw (runtimeError "query type not supported by this container")
  else lockGuard do
    let s ← get
    if s.data.length = 0 then return []
    else
      let recordCount := Int32.ofNat s.data.length
      let (startOffset, endOffset) ← Prog.ofExcept (normalizeQueryLimits startOffset endOffset recordCount)
      let first ← queryOffset startOffset recordCount
      let last ← queryOffset endOffset recordCount
      -- `begin != end` would run past the end of the list.
      if last < first then Prog.undefined else return resultSet s.data startOffset first last

def getRecord (searchKey : TioData) : ListM Record := lockGuard do
  let (i, realIndex) ← getOffset searchKey
  match (← get).data[i]? with
  | some r => return ⟨.int realIndex, r.value, r.metadata⟩
  | none => Prog.undefined

/-! ## What each operation does

Nothing but `popBack` and the operations with an index depends on the list fitting an `int`.
-/

/-- What a change leaves: the records, one more revision, and the event. -/
def changed (s : ListStorage) (data : List ValueAndMetadata) (e : Event) : ListStorage :=
  { s with
    data := data
    revNum := s.revNum + 1
    published := if s.sink then s.published ++ [e] else s.published }

variable (s : ListStorage) (key value metadata : TioData)

theorem run_lockGuard {α : Type} (x : ListM α) :
    (lockGuard x).run s =
      match x.run { s with mutex := s.mutex + 1 } with
      | .ok a s' => .ok a { s' with mutex := s'.mutex - 1 }
      | .throws e s' => .throws e { s' with mutex := s'.mutex - 1 }
      | .undefined => .undefined := rfl

@[simp] theorem run_updateRevNumAndPublish (code : ContainerEventCode) (k v m : TioData) :
    (updateRevNumAndPublish code k v m).run s = .ok () (s.changed s.data ⟨code, k, v, m⟩) := rfl

theorem pushBack_spec :
    (pushBack key value metadata).run s =
      if value.isNull then .throws (invalidArgument "value??") s
      else .ok () (s.changed (s.data ++ [⟨value, metadata⟩])
        ⟨.pushBack, .int (Int32.ofNat s.data.length), value, metadata⟩) := by
  unfold pushBack checkValue
  split
  · rfl
  · simp [run_lockGuard, changed]

theorem pushFront_spec :
    (pushFront key value metadata).run s =
      if value.isNull then .throws (invalidArgument "value??") s
      else .ok () (s.changed (⟨value, metadata⟩ :: s.data) ⟨.pushFront, .int 0, value, metadata⟩) := by
  unfold pushFront checkValue
  split
  · rfl
  · simp [run_lockGuard, changed]

theorem popBack_spec (v m : Option TioData) :
    (popBack v m).run s =
      match s.data.getLast? with
      | none => .throws (invalidArgument "empty") s
      | some r =>
        let index := TioData.int (Int32.ofNat (s.data.length - 1))
        .ok ⟨index, r.value, r.metadata⟩
          (s.changed s.data.dropLast ⟨.delete, index, orNull v, orNull m⟩) := by
  unfold popBack
  cases h : s.data.getLast? with
  | none => simp [run_lockGuard, h]
  | some r => simp [run_lockGuard, h, changed, Prog.run_bind]

theorem popFront_spec (v m : Option TioData) :
    (popFront v m).run s =
      match s.data.head? with
      | none => .throws (invalidArgument "empty") s
      | some r =>
        .ok ⟨.int 0, r.value, r.metadata⟩
          (s.changed s.data.tail ⟨.delete, .int 0, orNull v, orNull m⟩) := by
  unfold popFront
  cases h : s.data.head? with
  | none => simp [run_lockGuard, h]
  | some r => simp [run_lockGuard, h, changed, Prog.run_bind]

theorem clear_spec : clear.run s = .ok () (s.changed [] ⟨.clear, .none, .none, .none⟩) := by
  simp [clear, run_lockGuard, changed]

/-! ## The two-ended walk -/

theorem walk_spec {n i : Nat} (hn : n < 2 ^ 31) (hi : i < n) : walk n (Int32.ofNat i) = i := by
  have hidx : (Int32.ofNat i).toInt = i := Int32.toInt_ofNat_of_lt (by omega)
  have hclamp (k : Nat) (hk : k < 2 ^ 31) : (Int32.ofNat k).toNatClampNeg = k := by
    rw [Int32.toNatClampNeg, Int32.toInt_ofNat_of_lt hk, Int.toNat_natCast]
  have hsucc (k a : Nat) : (· + 1)^[k] a = a + k := Nat.succ_iterate a k
  have hpred (k a : Nat) : (· - 1)^[k] a = a - k := Nat.pred_iterate a k
  unfold walk
  rw [if_neg (by omega)]
  split
  · rw [hclamp i (by omega), hsucc, Nat.zero_add]
  · have hback : Int32.ofInt (n - (Int32.ofNat i).toInt) = Int32.ofNat (n - i) := by
      apply toInt_eq_ofNat
      rw [hidx, Int32.toInt_ofInt_of_le (by omega) (by omega)]
      omega
    rw [hback, hclamp _ (by omega), hpred]
    omega

/-- The position that a key names: a Python index, less the two keys that are not checked. -/
def offsetOf (k : Int32) (n : Nat) : Option Nat :=
  if k = Int32.minValue ∨ k = 0 then some 0 else pyIndex k.toInt n

theorem getOffset_int (k : Int32) :
    (getOffset (.int k)).run s =
      match normalizeIndex k (Int32.ofNat s.data.length) true with
      | .ok i => .ok (walk s.data.length i.toInt32, i.toInt32) s
      | .error e => .throws e s := by
  simp only [getOffset, TioData.asInt_int, Prog.run_ofExcept_ok, Prog.run_bind, Prog.run_get]
  cases normalizeIndex k (Int32.ofNat s.data.length) true <;> rfl

theorem getOffset_spec (k : Int32) (hlen : s.data.length < 2 ^ 31) :
    (getOffset (.int k)).run s =
      match offsetOf k s.data.length with
      | some i => .ok (i, Int32.ofNat i) s
      | none => .throws (invalidArgument "out of bounds") s := by
  have hwalk0 : walk s.data.length 0 = 0 := by
    rcases Nat.eq_zero_or_pos s.data.length with h | h
    · simp [walk, h]
    · exact walk_spec hlen h
  simp only [getOffset_int, normalizeIndex_spec k _ hlen, offsetOf]
  split_ifs with h
  · simpa using hwalk0
  · cases hp : pyIndex k.toInt s.data.length with
    | none => simp
    | some i => simp [walk_spec hlen (pyIndex_lt hp)]

theorem set_spec (k : Int32) (hlen : s.data.length < 2 ^ 31) :
    (set (.int k) value metadata).run s =
      match offsetOf k s.data.length with
      | some i =>
        if s.data.length ≤ i then .undefined
        else .ok () (s.changed (s.data.modify i (assign value metadata)) ⟨.set, .int k, value, metadata⟩)
      | none => .throws (invalidArgument "out of bounds") s := by
  unfold set
  rw [run_lockGuard, Prog.run_bind, getOffset_spec _ k (by exact hlen)]
  cases offsetOf k s.data.length with
  | none => rfl
  | some i =>
    by_cases h : s.data.length ≤ i
    · simp [h]
    · simp [h, Prog.run_bind, changed]

theorem delete_spec (k : Int32) (hlen : s.data.length < 2 ^ 31) :
    (delete (.int k) value metadata).run s =
      match offsetOf k s.data.length with
      | some i =>
        if i = s.data.length then .throws (runtimeError "invalid index") s
        else .ok () (s.changed (s.data.eraseIdx i) ⟨.delete, .int (Int32.ofNat i), value, metadata⟩)
      | none => .throws (invalidArgument "out of bounds") s := by
  unfold delete
  rw [run_lockGuard, Prog.run_bind, getOffset_spec _ k (by exact hlen)]
  cases offsetOf k s.data.length with
  | none => rfl
  | some i =>
    by_cases h : i = s.data.length
    · simp [h]
    · simp [h, changed]

theorem insert_spec (k : Int32) (hlen : s.data.length < 2 ^ 31) :
    (insert (.int k) value metadata).run s =
      if k.toInt = 0 then .ok () (s.changed (⟨value, metadata⟩ :: s.data) ⟨.insert, .int k, value, metadata⟩)
      else if k.toInt = s.data.length then
        .ok () (s.changed (s.data ++ [⟨value, metadata⟩]) ⟨.insert, .int k, value, metadata⟩)
      else match offsetOf k s.data.length with
        | some i =>
          .ok () (s.changed (s.data.insertIdx i ⟨value, metadata⟩) ⟨.insert, .int k, value, metadata⟩)
        | none => .throws (invalidArgument "out of bounds") s := by
  have hk := toInt_bounds k
  have h0 : (k.toInt % 2 ^ 64).toNat = 0 ↔ k.toInt = 0 := by omega
  have hn : (k.toInt % 2 ^ 64).toNat = s.data.length ↔ k.toInt = s.data.length := by omega
  unfold insert
  simp only [TioData.asInt_int]
  rw [Prog.run_bind_ok _ _ (Prog.run_ofExcept_ok k s), run_lockGuard]
  by_cases hk0 : k.toInt = 0
  · simp [hk0, changed]
  rw [if_neg (mt h0.mp hk0), if_neg hk0, Prog.run_get_bind]
  by_cases hkn : k.toInt = s.data.length
  · rw [if_pos (hn.mpr hkn), if_pos hkn]
    simp [changed]
  rw [if_neg (mt hn.mp hkn), if_neg hkn, Prog.run_bind, getOffset_spec _ k (by exact hlen)]
  cases offsetOf k s.data.length with
  | none => rfl
  | some i => rfl

/-! ## Queries -/

theorem query_all (hlen : s.data.length < 2 ^ 31) :
    (query 0 0 .none).run s = .ok (resultSet s.data 0 0 s.data.length) s := by
  unfold query
  rcases Nat.eq_zero_or_pos s.data.length with h0 | hpos
  · have hnil : s.data = [] := List.length_eq_zero_iff.mp h0
    simp [TioData.isNull, run_lockGuard, hnil, resultSet]
    rw [← hnil]
  · have hne : Int32.ofNat s.data.length ≠ 0 := by
      rw [Ne, zero_iff, Int32.toInt_ofNat_of_lt hlen]
      omega
    have hpos' : s.data ≠ [] := List.length_pos_iff.mp hpos
    simp [TioData.isNull, run_lockGuard, hpos', normalizeQueryLimits_zero hpos hlen, queryOffset, hne,
      Prog.run_bind]

/-! ## The mutators -/

/-- The operations that change a list. -/
inductive Op where
  | pushBack (key value metadata : TioData)
  | pushFront (key value metadata : TioData)
  | popBack (value metadata : Option TioData)
  | popFront (value metadata : Option TioData)
  | set (key value metadata : TioData)
  | insert (key value metadata : TioData)
  | delete (key value metadata : TioData)
  | clear
  deriving DecidableEq, Repr

def Op.exec : Op → ListM Unit
  | .pushBack k v m => ListStorage.pushBack k v m
  | .pushFront k v m => ListStorage.pushFront k v m
  | .popBack v m => do let _ ← ListStorage.popBack v m
  | .popFront v m => do let _ ← ListStorage.popFront v m
  | .set k v m => ListStorage.set k v m
  | .insert k v m => ListStorage.insert k v m
  | .delete k v m => ListStorage.delete k v m
  | .clear => ListStorage.clear

/-! ## An operation that throws changes nothing -/

theorem getOffset_state :
    (∃ r, (getOffset key).run s = .ok r s) ∨ ∃ e, (getOffset key).run s = .throws e s := by
  cases key with
  | int k =>
    rw [getOffset_int]
    cases normalizeIndex k (Int32.ofNat s.data.length) true with
    | error e => exact Or.inr ⟨e, rfl⟩
    | ok i => exact Or.inl ⟨_, rfl⟩
  | _ => exact Or.inr ⟨_, rfl⟩

theorem set_throws {e : Exc} {s' : ListStorage} (h : (set key value metadata).run s = .throws e s') :
    s' = s := by
  rw [set, run_lockGuard, Prog.run_bind] at h
  rcases getOffset_state { s with mutex := s.mutex + 1 } key with ⟨r, hr⟩ | ⟨e', he⟩
  · rw [hr] at h
    by_cases hi : s.data.length ≤ r.1
    · simp [hi] at h
    · simp [hi, Prog.run_bind] at h
  · simp [he] at h
    exact h.2.symm

theorem delete_throws {e : Exc} {s' : ListStorage} (h : (delete key value metadata).run s = .throws e s') :
    s' = s := by
  rw [delete, run_lockGuard, Prog.run_bind] at h
  rcases getOffset_state { s with mutex := s.mutex + 1 } key with ⟨r, hr⟩ | ⟨e', he⟩
  · rw [hr] at h
    by_cases hi : r.1 = s.data.length
    · simp [hi] at h
      exact h.2.symm
    · simp [hi] at h
  · simp [he] at h
    exact h.2.symm

theorem insert_throws {e : Exc} {s' : ListStorage} (h : (insert key value metadata).run s = .throws e s') :
    s' = s := by
  rw [insert] at h
  cases hk : key.asInt with
  | error e' =>
    rw [hk, Prog.run_bind_throws _ _ (Prog.run_ofExcept_error e' s)] at h
    simp at h
    exact h.2.symm
  | ok k =>
    rw [hk, Prog.run_bind_ok _ _ (Prog.run_ofExcept_ok k s), run_lockGuard] at h
    by_cases h0 : (k.toInt % 2 ^ 64).toNat = 0
    · rw [if_pos h0] at h
      simp at h
    rw [if_neg h0, Prog.run_get_bind] at h
    by_cases hn : (k.toInt % 2 ^ 64).toNat = s.data.length
    · rw [if_pos hn] at h
      simp at h
    rw [if_neg hn, Prog.run_bind] at h
    rcases getOffset_state { s with mutex := s.mutex + 1 } key with ⟨r, hr⟩ | ⟨e', he⟩
    · rw [hr] at h
      simp at h
    · rw [he] at h
      simp at h
      exact h.2.symm

/-- Each `throw` comes before the first change. -/
theorem exec_throws (op : Op) (s' : ListStorage) (e : Exc) (h : op.exec.run s = .throws e s') :
    s' = s := by
  cases op with
  | pushBack k v m =>
    simp only [Op.exec, pushBack_spec] at h
    split at h <;> simp_all
  | pushFront k v m =>
    simp only [Op.exec, pushFront_spec] at h
    split at h <;> simp_all
  | popBack v m =>
    simp only [Op.exec, Prog.run_bind, popBack_spec] at h
    cases hl : s.data.getLast? <;> simp_all
  | popFront v m =>
    simp only [Op.exec, Prog.run_bind, popFront_spec] at h
    cases hl : s.data.head? <;> simp_all
  | clear =>
    simp only [Op.exec, clear_spec] at h
    cases h
  | set k v m => exact set_throws s k v m h
  | insert k v m => exact insert_throws s k v m h
  | delete k v m => exact delete_throws s k v m h

/-! ## Records by position -/

/-- The record that a key names, if it names one. -/
def position (s : ListStorage) (key : TioData) : Option Nat :=
  match (getOffset key).run s with
  | .ok (i, _) _ => if i < s.data.length then some i else none
  | _ => none

theorem position_congr {s s' : ListStorage} (h : s'.data.length = s.data.length) (key : TioData) :
    s'.position key = s.position key := by
  cases key with
  | int k =>
    simp only [position, getOffset_int, h]
    cases normalizeIndex k (Int32.ofNat s.data.length) true <;> rfl
  | _ => rfl

theorem position_lt {i : Nat} (h : s.position key = some i) : i < s.data.length := by
  unfold position at h
  split at h
  · split_ifs at h with hi
    obtain rfl := Option.some.inj h
    exact hi
  · cases h

theorem set_ok {s' : ListStorage} (h : (set key value metadata).run s = .ok () s') :
    ∃ i, s.position key = some i ∧ s'.data = s.data.modify i (assign value metadata) := by
  have hpos : ({ s with mutex := s.mutex + 1 } : ListStorage).position key = s.position key := by
    exact position_congr (by rfl) key
  rw [set, run_lockGuard, Prog.run_bind] at h
  rcases getOffset_state { s with mutex := s.mutex + 1 } key with ⟨r, hr⟩ | ⟨e', he⟩
  · rw [position, hr] at hpos
    rw [hr] at h
    by_cases hi : s.data.length ≤ r.1
    · simp [hi] at h
    · simp [hi, Prog.run_bind, changed] at h
      subst h
      refine ⟨r.1, ?_, rfl⟩
      rw [← hpos]
      exact if_pos (by simpa using hi)
  · simp [he] at h

/-! ## Reading -/

theorem reads_lockGuard {α : Type} {x : ListM α} (h : x.Reads) : (lockGuard x).Reads := by
  intro s s' hs
  rw [run_lockGuard] at hs
  cases hr : x.run { s with mutex := s.mutex + 1 } with
  | undefined => simp [hr, Outcome.next] at hs
  | _ =>
    have ht := h _ _ (by rw [hr]; rfl)
    simp [hr, Outcome.next, ht] at hs
    exact hs.symm

theorem getOffset_reads : (getOffset key).Reads := by
  refine (Prog.reads_ofExcept _).bind fun _ => Prog.reads_get.bind fun _ => ?_
  exact (Prog.reads_ofExcept _).bind fun _ => Prog.reads_pure _

theorem getRecord_reads : (getRecord key).Reads := by
  refine reads_lockGuard ((getOffset_reads key).bind fun r => Prog.reads_get.bind fun s => ?_)
  cases s.data[r.1]? with
  | none => exact Prog.reads_undefined
  | some x => exact Prog.reads_pure _

end ListStorage

end Tiodb
