import Tiodb.Lib.Locks
import Tiodb.Storage.Container

/-!
# The operations of `ITioStorage` with their locks

Every operation of the three storages, with the sections that hold the mutex. The
mutex of the vector and of the map is a `std::mutex`, which is plain; that of the list
is recursive, and its model counts how often it is held. The vector is written for
either mutex: under a recursive one it does what it would do without locks.
-/

namespace Tiodb

open Lib LockProg

/-- The calls of `ITioStorage`. The output parameters of a pop are what they point to, `none` for `NULL`. -/
inductive StorageCall where
  | getRecordCount
  | pushBack (key value metadata : TioData)
  | pushFront (key value metadata : TioData)
  | popBack (key value metadata : Option TioData)
  | popFront (key value metadata : Option TioData)
  | getRecord (searchKey : TioData)
  | set (key value metadata : TioData)
  | insert (key value metadata : TioData)
  | delete (key value metadata : TioData)
  | clear
  | query (startOffset endOffset : Int32) (query : TioData)
  | getRevNum
  | getType
  | getName
  | command (command : Bytes)
  | setSubscriber (sink : Bool)
  | removeSubscriber
  | getId
  deriving DecidableEq, Repr

/-- What a call gives back. -/
inductive Returned where
  | nothing
  | count (n : Nat)
  | number (n : UInt64)
  | text (b : Bytes)
  | record (r : Record)
  | records (rs : List Record)
  deriving DecidableEq, Repr

/-! ## The vector -/

namespace GuardedVector

abbrev VectorL := LockProg Exc VectorStorage

variable (m : Mutex)

def publish (eventCode : ContainerEventCode) (k v md : TioData) : VectorL Unit := do
  let sink ← lockGuard m (lift do return (← get).sink)
  lift (if sink then modify fun s => { s with published := s.published ++ [⟨eventCode, k, v, md⟩] } else pure ())

/-- No function of the class changes `revNum_`. -/
def getRevNum : VectorL UInt64 := lockGuard m (lift (pure 0))

def getName : VectorL Bytes := lockGuard m (lift do return (← get).name)

def getType : VectorL Bytes := lift do return (← get).type

def command (_command : Bytes) : VectorL Unit := lift (throw (invalidArgument "command not supported"))

def getRecordCount : VectorL Nat := lockGuard m (lift do return (← get).data.length)

def pushBack (_key value metadata : TioData) : VectorL Unit := do
  lift (VectorStorage.checkValue value)
  lockGuard m (lift (modify fun s => { s with data := s.data ++ [⟨value, metadata⟩] }))
  let size ← lift do return (← get).data.length
  publish m .insert (.int (Int32.ofNat (size - 1))) value metadata

def pushFront (_key value metadata : TioData) : VectorL Unit := do
  lift (VectorStorage.checkValue value)
  lockGuard m (lift (modify fun s => { s with data := ⟨value, metadata⟩ :: s.data }))
  publish m .insert (.int 0) value metadata

/-- The record that `_Pop` takes, if there is one. -/
def popRecord (end? : List ValueAndMetadata → Option ValueAndMetadata) : Prog Exc VectorStorage ValueAndMetadata := do
  match end? (← get).data with
  | none => throw (invalidArgument "empty")
  | some r => return r

def popBack (key value metadata : Bool) : VectorL Record := do
  let r ← lift (popRecord List.getLast?)
  let index ← lift do return TioData.int (Int32.ofNat ((← get).data.length - 1))
  lockGuard m (lift (modify fun s => { s with data := s.data.dropLast }))
  publish m .delete (VectorStorage.out key index) (VectorStorage.out value r.value)
    (VectorStorage.out metadata r.metadata)
  return ⟨index, r.value, r.metadata⟩

/-- The key of the caller is left as it was. -/
def popFront (key : Option TioData) (value metadata : Bool) : VectorL Record := do
  let r ← lift (popRecord List.head?)
  lockGuard m (lift (modify fun s => { s with data := s.data.tail }))
  publish m .delete (.int 0) (VectorStorage.out value r.value) (VectorStorage.out metadata r.metadata)
  return ⟨key.getD .none, r.value, r.metadata⟩

def getRecord (searchKey : TioData) : VectorL Record := lockGuard m (lift do
  let r ← VectorStorage.getInternalRecord searchKey
  return ⟨searchKey, r.value, r.metadata⟩)

def set (key value metadata : TioData) : VectorL Unit := do
  lift (VectorStorage.checkValue value)
  lockGuard m (lift do
    let n ← VectorStorage.getRecordNumber key
    let _ ← VectorStorage.recordAt n
    modify fun s => { s with data := s.data.set n ⟨value, metadata⟩ })
  publish m .set key value metadata

def insert (key value metadata : TioData) : VectorL Unit := do
  lift (VectorStorage.checkValue value)
  lockGuard m do
    let recordNumber ← lift (VectorStorage.getRecordNumber key)
    -- check out of bounds
    let _ ← getRecord m key
    lift (modify fun s => { s with data := s.data.insertIdx recordNumber ⟨value, metadata⟩ })
  publish m .insert key value metadata

def delete (key value metadata : TioData) : VectorL Unit := do
  let recordNumber ← lift (VectorStorage.getRecordNumber key)
  lockGuard m do
    -- check out of bounds
    let _ ← getRecord m key
    lift (modify fun s => { s with data := s.data.eraseIdx recordNumber })
  publish m .delete key value metadata

def clear : VectorL Unit := do
  lockGuard m (lift (modify fun s => { s with data := [] }))
  publish m .clear .none .none .none

/-- The `reserve`, which refuses a negative number, and the loop over `data_[key]`, which is not checked. -/
def readRecords (startOffset endOffset : Int32) : Prog Exc VectorStorage (List Record) := do
  let data := (← get).data
  let first := startOffset.toNatClampNeg
  let last := endOffset.toNatClampNeg
  if endOffset < startOffset then throw ⟨.lengthError, ascii "vector::reserve"⟩
  else if data.length < last then Prog.undefined
  else return ((data.drop first).take (last - first)).zipIdx.map fun (r, i) =>
    ⟨.int (startOffset + Int32.ofNat i), r.value, r.metadata⟩

def query (startOffset endOffset : Int32) (query : TioData) : VectorL (List Record) := do
  lift (if !query.isNull then throw (runtimeError "query type not supported by this container") else pure ())
  lockGuard m do
    let count ← getRecordCount m
    if count = 0 then lift (readRecords 0 endOffset)
    else
      let recordCount ← getRecordCount m
      lift do
        let (startOffset, endOffset) ←
          Prog.ofExcept (normalizeQueryLimits startOffset endOffset (Int32.ofNat recordCount))
        readRecords startOffset endOffset

def setSubscriber (sink : Bool) : VectorL Unit := lockGuard m (lift (modify fun s => { s with sink := sink }))

def exec (id : UInt64) : StorageCall → VectorL Returned
  | .getRecordCount => return .count (← getRecordCount m)
  | .pushBack k v md => do pushBack m k v md; return .nothing
  | .pushFront k v md => do pushFront m k v md; return .nothing
  | .popBack k v md => return .record (← popBack m k.isSome v.isSome md.isSome)
  | .popFront k v md => return .record (← popFront m k v.isSome md.isSome)
  | .getRecord k => return .record (← getRecord m k)
  | .set k v md => do set m k v md; return .nothing
  | .insert k v md => do insert m k v md; return .nothing
  | .delete k v md => do delete m k v md; return .nothing
  | .clear => do clear m; return .nothing
  | .query startOffset endOffset q => return .records (← query m startOffset endOffset q)
  | .getRevNum => return .number (← getRevNum m)
  | .getType => return .text (← getType)
  | .getName => return .text (← getName m)
  | .command c => do command c; return .nothing
  | .setSubscriber sink => do setSubscriber m sink; return .nothing
  | .removeSubscriber => do setSubscriber m false; return .nothing
  | .getId => return .number id

end GuardedVector

/-! ## The map -/

namespace GuardedMap

abbrev MapL := LockProg Exc MapStorage

variable (m : Mutex)

def updateRevNumAndPublish (eventCode : ContainerEventCode) (k v md : TioData) : MapL Unit := do
  let sink ← lockGuard m (lift do
    modify fun s => { s with revNum := s.revNum + 1 }
    return (← get).sink)
  lift (if sink then modify fun s => { s with published := s.published ++ [⟨eventCode, k, v, md⟩] } else pure ())

def set (key value metadata : TioData) : MapL Unit := do
  lift (MapStorage.checkKey key)
  lockGuard m (lift do
    let keyString ← Prog.ofExcept key.asSz
    modify fun s => { s with data := s.data.insert keyString ⟨value, metadata⟩ })
  updateRevNumAndPublish m .set key value metadata

def insert (key value metadata : TioData) : MapL Unit := do
  lift (MapStorage.checkKey key)
  let keyString ← lift (Prog.ofExcept key.asSz)
  lockGuard m (lift do
    if (← get).data.contains keyString then throw (invalidArgument "already exits")
    else modify fun s => { s with data := s.data.insert keyString ⟨value, metadata⟩ })
  updateRevNumAndPublish m .set key value metadata

def delete (key value metadata : TioData) : MapL Unit := do
  lift (MapStorage.checkKey key)
  let keyString ← lift (Prog.ofExcept key.asSz)
  lockGuard m (lift do
    if (← get).data.contains keyString then modify fun s => { s with data := s.data.erase keyString }
    else throw (invalidArgument "key not found"))
  updateRevNumAndPublish m .delete key value metadata

def clear : MapL Unit := do
  lockGuard m (lift MapStorage.clearRecords)
  updateRevNumAndPublish m .clear .none .none .none

def query (startOffset endOffset : Int32) (query : TioData) : MapL (List Record) := do
  lift (if !query.isNull then throw (runtimeError "this container supports only querystr=null") else pure ())
  lockGuard m (lift (MapStorage.query startOffset endOffset .none))

def getRecord (searchKey : TioData) : MapL Record := do
  let p ← lockGuard m (lift (MapStorage.getInternalRecord searchKey))
  return ⟨.string p.1, p.2.value, p.2.metadata⟩

def getRecordCount : MapL Nat := lockGuard m (lift MapStorage.getRecordCount)

def getRevNum : MapL UInt64 := lockGuard m (lift do return (← get).revNum)

def getName : MapL Bytes := lift do return (← get).name

def getType : MapL Bytes := lift do return (← get).type

def command (_command : Bytes) : MapL Unit := lift (throw (invalidArgument "\"command\" not supported"))

def setSubscriber (sink : Bool) : MapL Unit := lockGuard m (lift (modify fun s => { s with sink := sink }))

def exec (id : UInt64) : StorageCall → MapL Returned
  | .getRecordCount => return .count (← getRecordCount m)
  | .pushBack k v md => do lift (MapStorage.pushBack k v md); return .nothing
  | .pushFront k v md => do lift (MapStorage.pushFront k v md); return .nothing
  | .popBack _ _ _ => return .record (← lift MapStorage.popBack)
  | .popFront _ _ _ => return .record (← lift MapStorage.popFront)
  | .getRecord k => return .record (← getRecord m k)
  | .set k v md => do set m k v md; return .nothing
  | .insert k v md => do insert m k v md; return .nothing
  | .delete k v md => do delete m k v md; return .nothing
  | .clear => do clear m; return .nothing
  | .query startOffset endOffset q => return .records (← query m startOffset endOffset q)
  | .getRevNum => return .number (← getRevNum m)
  | .getType => return .text (← getType)
  | .getName => return .text (← getName)
  | .command c => do command c; return .nothing
  | .setSubscriber sink => do setSubscriber m sink; return .nothing
  | .removeSubscriber => do setSubscriber m false; return .nothing
  | .getId => return .number id

end GuardedMap

/-! ## The list -/

namespace ListStorage

def getRevNum : ListM UInt64 := lockGuard do return (← get).revNum

/-- Without the mutex, as are the functions after it. -/
def getName : ListM Bytes := return (← get).name

def getType : ListM Bytes := return (← get).type

def command (_command : Bytes) : ListM Unit := throw (invalidArgument "\"command\" not supported by the container")

def setSubscriber (sink : Bool) : ListM Unit := modify fun s => { s with sink := sink }

def exec (id : UInt64) : StorageCall → ListM Returned
  | .getRecordCount => return .count (← getRecordCount)
  | .pushBack k v md => do pushBack k v md; return .nothing
  | .pushFront k v md => do pushFront k v md; return .nothing
  | .popBack _ v md => return .record (← popBack v md)
  | .popFront _ v md => return .record (← popFront v md)
  | .getRecord k => return .record (← getRecord k)
  | .set k v md => do set k v md; return .nothing
  | .insert k v md => do insert k v md; return .nothing
  | .delete k v md => do delete k v md; return .nothing
  | .clear => do clear; return .nothing
  | .query startOffset endOffset q => return .records (← query startOffset endOffset q)
  | .getRevNum => return .number (← getRevNum)
  | .getType => return .text (← getType)
  | .getName => return .text (← getName)
  | .command c => do command c; return .nothing
  | .setSubscriber sink => do setSubscriber sink; return .nothing
  | .removeSubscriber => do setSubscriber false; return .nothing
  | .getId => return .number id

end ListStorage

end Tiodb
