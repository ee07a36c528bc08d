import Mathlib.Logic.Function.Basic
import Tiodb.Client.Query
import Tiodb.Server.ContainerManager
import Tiodb.Server.DataCommand
import Tiodb.Server.Sessions

/-!
# Commands of binary sessions

`OnBinaryCommand` of `TioTcpServer.cpp` for the messages of any number of sessions: what
it does to the containers and to the handles of the session, and the messages that it
sends back. A query ends with its result set, which gets an id before it is sent. A
message is the list of its fields. The groups are left out, and what a subscription sends
later.
-/

namespace Tiodb.Binary

open Lib Query

/-- `MESSAGE_FIELD_ID_NAME`, and the other fields that a command may have. -/
def fieldName : UInt16 := 0x6
def fieldType : UInt16 := 0x7
def fieldErrorCode : UInt16 := 0x8
def fieldErrorDesc : UInt16 := 0x9

/-- `TIO_COMMAND_PING`, and the other commands, as `tioclient.h` numbers them. -/
def commandPing : Int32 := 0x10
def commandOpen : Int32 := 0x11
def commandCreate : Int32 := 0x12
def commandClose : Int32 := 0x13
def commandSet : Int32 := 0x14
def commandInsert : Int32 := 0x15
def commandDelete : Int32 := 0x16
def commandPushBack : Int32 := 0x17
def commandPushFront : Int32 := 0x18
def commandPopBack : Int32 := 0x19
def commandPopFront : Int32 := 0x1A
def commandClear : Int32 := 0x1B
def commandCount : Int32 := 0x1C
def commandGet : Int32 := 0x1D
def commandSubscribe : Int32 := 0x1E
def commandUnsubscribe : Int32 := 0x1F
def commandWaitAndPopNext : Int32 := 0x21
def commandPropget : Int32 := 0x30
def commandPropset : Int32 := 0x31

/-- `TIO_ERROR_GENERIC`, and the other errors of an answer. -/
def errorGeneric : Int32 := -1
def errorProtocol : Int32 := -3
def errorMissingParameter : Int32 := -4

/-- The containers, and the handles of each session. -/
structure Server where
  containerManager : ContainerManager
  sessions : Nat → Session

/-- A handler changes the server, or throws. -/
abbrev ServerM := Prog Exc Server

/-! ## What a command does -/

/-- What is done to the tables of the containers. -/
def onManager {α : Type} (x : ContainerManager.ManagerM α) : ServerM α :=
  ⟨fun s => (x.run s.containerManager).mapState fun manager => { s with containerManager := manager }⟩

/-- What is done to one container. -/
def onContainer {α : Type} (container : Nat) (x : Container.ContainerM α) : ServerM α :=
  onManager (ContainerManager.withObject container x)

/-- What is done to the handles of one session. -/
def setSession (session : Nat) (f : Session → Session) : ServerM Unit :=
  modify fun s => { s with sessions := Function.update s.sessions session (f (s.sessions session)) }

/-- The table of the handles holds the object. -/
def registerContainer (session : Nat) (containerName : Bytes) (container : Nat) : ServerM UInt32 := do
  let (handle, se) := ((← get).sessions session).registerContainer containerName (UInt64.ofNat container)
  if !((← get).sessions session).handles.contains handle then
    onManager (modify fun manager => { manager with held := container :: manager.held })
  setSession session fun _ => se
  return handle

/-- `GetRegisteredContainer`, which throws where the session has no such handle. -/
def getRegisteredContainer (session : Nat) (handle : UInt32) : ServerM Nat := do
  match ((← get).sessions session).getRegisteredContainer handle with
  | some container => return container.toNat
  | none => throw (invalidArgument "invalid handle")

/-- `CloseContainerHandle` -/
def closeContainerHandle (session : Nat) (handle : UInt32) : ServerM Unit := do
  let container ← getRegisteredContainer session handle
  let manager := (← get).containerManager
  let getName (o : UInt64) : Bytes := (manager.containerOf o.toNat).elim [] Container.getName
  setSession session fun se => (se.closeContainerHandle getName handle).getD se
  onManager (modify fun manager => { manager with held := manager.held.erase container })

/-! ## The messages -/

/-- `Pr1MessageGetField` into a string. -/
def getString (m : Query.Fields) (fieldId : UInt16) : Option Bytes :=
  match fieldFindById m fieldId with
  | some (.string s) => some s
  | _ => none

/-- `Pr1MessageGetField` into an `int`. -/
def getNumber (m : Query.Fields) (fieldId : UInt16) : Option Int32 :=
  match fieldFindById m fieldId with
  | some (.int i) => some i
  | _ => none

/-- `SendBinaryAnswer`: data that are none have no field. -/
def binaryAnswer (key value metadata : TioData) : Query.Fields :=
  addFields [(fieldCommand, .int commandAnswer)] key value metadata

/-- `SendBinaryErrorAnswer`. The description is passed as a C string. -/
def binaryErrorAnswer (errorCode : Int32) (description : Bytes) : Query.Fields :=
  [(fieldCommand, .int commandAnswer), (fieldErrorCode, .int errorCode), (fieldErrorDesc, .string (cstr description))]

/-- The answer where a field is not there. -/
def missingParameter (description : String) : ServerM (List Query.Fields) :=
  return [binaryErrorAnswer errorMissingParameter (ascii description)]

/-- The answer of a command that gives nothing back. -/
def simpleAnswer : List Query.Fields := [binaryAnswer .none .none .none]

variable (session : Nat) (m : Query.Fields)

/-- `GetContainerAndParametersFromRequest`: a request without a handle has the handle 0. -/
def getContainerFromRequest : ServerM Nat :=
  let handle := (getNumber m fieldHandle).getD 0
  if handle = 0 then throw (runtimeError "handle?") else getRegisteredContainer session handle.toUInt32

/-- `TIO_COMMAND_PING`: the payload comes back. -/
def onPing : ServerM (List Query.Fields) :=
  match getString m fieldValue with
  | none => missingParameter "missing MESSAGE_FIELD_ID_VALUE"
  | some payload => return [[(fieldCommand, .int commandAnswer), (fieldValue, .string (cstr payload))]]

/-- `TIO_COMMAND_OPEN` and `TIO_COMMAND_CREATE`: the handle of the container is registered before it is told. -/
def onOpenOrCreate (create : Bool) : ServerM (List Query.Fields) :=
  match getString m fieldName with
  | none => missingParameter "missing container name (MESSAGE_FIELD_ID_NAME)"
  | some name =>
    let type := (getString m fieldType).getD []
    if create ∧ type = [] then
      missingParameter "must inform type on container creation (MESSAGE_FIELD_ID_TYPE)"
    else do
      let container ← onManager
        (if create then ContainerManager.createContainer type name else ContainerManager.openContainer type name)
      let handle ← registerContainer session name container
      return [[(fieldCommand, .int commandAnswer), (fieldHandle, .int handle.toInt32)]]

/-- `TIO_COMMAND_CLOSE` -/
def onClose : ServerM (List Query.Fields) :=
  match getNumber m fieldHandle with
  | none => missingParameter "missing handle (MESSAGE_FIELD_ID_HANDLE)"
  | some handle => do
    closeContainerHandle session handle.toUInt32
    return simpleAnswer

/-- `TIO_COMMAND_GET` -/
def onGet : ServerM (List Query.Fields) := do
  let container ← getContainerFromRequest session m
  let record ← onContainer container (Container.getRecord (fieldGetAsTioData m fieldKey))
  return [binaryAnswer record.key record.value record.metadata]

/-- `TIO_COMMAND_PROPGET`: the key is given as a C string, and comes back as it was sent. -/
def onPropget : ServerM (List Query.Fields) := do
  let container ← getContainerFromRequest session m
  let searchKey := fieldGetAsTioData m fieldKey
  let key ← Prog.ofExcept searchKey.asSz
  let value ← onContainer container (Container.getProperty key)
  return [binaryAnswer searchKey (.string value) .none]

/-- `TIO_COMMAND_POP_BACK` and `TIO_COMMAND_POP_FRONT` -/
def onPop (pop : Container.ContainerM Record) : ServerM (List Query.Fields) := do
  let container ← getContainerFromRequest session m
  let record ← onContainer container pop
  return [binaryAnswer record.key record.value record.metadata]

/-- The commands with a key, a value and metadata. -/
def onChange (change : TioData → TioData → TioData → Container.ContainerM Unit) : ServerM (List Query.Fields) := do
  let container ← getContainerFromRequest session m
  onContainer container
    (change (fieldGetAsTioData m fieldKey) (fieldGetAsTioData m fieldValue) (fieldGetAsTioData m fieldMetadata))
  return simpleAnswer

/-- `TIO_COMMAND_COUNT` -/
def onCount : ServerM (List Query.Fields) := do
  let container ← getContainerFromRequest session m
  let count ← onContainer container Container.getRecordCount
  return [binaryAnswer .none .none .none ++ [(fieldValue, .int (Int32.ofNat count))]]

/-- `TIO_COMMAND_QUERY` up to the records. The number of the query is taken after them. -/
def onQueryCommand (regex : Bytes → Except Exc (Bytes → Bool)) : ServerM ResultSet := do
  let container ← getContainerFromRequest session m
  queryResultSet regex (fun start stop query => onContainer container (Container.query start stop query)) m

/-- `TIO_COMMAND_SUBSCRIBE`, without what is sent to the subscriber. -/
def onSubscribe : ServerM (List Query.Fields) :=
  match getNumber m fieldHandle with
  | none => missingParameter "missing handle (MESSAGE_FIELD_ID_HANDLE)"
  | some _ => do
    let _ ← getContainerFromRequest session m
    return simpleAnswer

/-- `Unsubscribe` does not look for the handle. -/
def onUnsubscribe : ServerM (List Query.Fields) :=
  match getNumber m fieldHandle with
  | none => missingParameter "missing handle (MESSAGE_FIELD_ID_HANDLE)"
  | some handle => do
    setSession session fun se => se.unsubscribe handle.toUInt32
    return simpleAnswer

/-- The commands that are answered at once. -/
def onCommand (command : Int32) : ServerM (List Query.Fields) :=
  if command = commandPing then onPing m
  else if command = commandOpen then onOpenOrCreate session m false
  else if command = commandCreate then onOpenOrCreate session m true
  else if command = commandClose then onClose session m
  else if command = commandGet then onGet session m
  else if command = commandPropget then onPropget session m
  else if command = commandPopFront then onPop session m Container.popFront
  else if command = commandPopBack then onPop session m Container.popBack
  else if command = commandPushBack then onChange session m Container.pushBack
  else if command = commandPushFront then onChange session m Container.pushFront
  else if command = commandSet then onChange session m Container.set
  else if command = commandInsert then onChange session m Container.insert
  else if command = commandDelete then onChange session m Container.delete
  else if command = commandClear then onChange session m fun _ _ _ => Container.clear
  else if command = commandPropset then onChange session m fun key value _ => DataCommand.setProperty key value
  else if command = commandCount then onCount session m
  else if command = commandSubscribe then onSubscribe session m
  else if command = commandUnsubscribe then onUnsubscribe session m
  else return [binaryErrorAnswer errorProtocol (ascii "invalid command")]

/-- What a handler has when it is done with the containers: its messages, or records that are not numbered yet. -/
inductive Reply where
  | messages (messages : List Query.Fields)
  | resultSet (resultSet : ResultSet)

/-- A query is answered by a result set, any other command by messages that are complete. -/
def replyTo (regex : Bytes → Except Exc (Bytes → Bool)) (command : Int32) : ServerM Reply :=
  if command = commandQuery then do return .resultSet (← onQueryCommand session m regex)
  else do return .messages (← onCommand session m command)

/-- The reply to the session. `none` is behaviour that the language leaves open, and a command that never returns. -/
def onBinaryCommand (regex : Bytes → Except Exc (Bytes → Bool)) (s : Server) : Option (Reply × Server) :=
  match getNumber m fieldCommand with
  | none => some (.messages [binaryErrorAnswer errorMissingParameter (ascii "missing MESSAGE_FIELD_ID_COMMAND")], s)
  | some command =>
    match (replyTo session m regex command).run s with
    | .ok reply s' => some (reply, s')
    | .throws e s' => some (.messages [binaryErrorAnswer errorProtocol e.what], s')
    | .undefined => none

end Tiodb.Binary
