import Tiodb.Protocol.LogLine
import Tiodb.Server.ContainerManager
import Tiodb.Server.Sessions

/-!
# The transaction log and its replay

`OnBinaryCommand` of `TioTcpServer.cpp` for the commands of one session that create,
open and change containers, `LogMessage` of `BinaryProtocolLogger.h`, which writes a
line for each of them, and `TioLogParser` of `tiologreplay.cpp`, which sends the
commands of a log to another server.
-/

namespace Tiodb

open Lib

/-- A message of a session. A type that is missing is an empty one. -/
inductive BinaryCommand where
  | create (name : Option Bytes) (type : Bytes)
  | open (name : Option Bytes) (type : Bytes)
  | data (handle : UInt32) (command : DataCommand)
  deriving DecidableEq, Repr

/-- `time` is the text that a thread keeps up to date. `file` is `none` if no log was asked for. -/
structure BinaryProtocolLogger where
  globalContainerHandle : StringMap UInt32 := ∅
  lastGlobalHandle : UInt32 := 0
  time : LocalTime := ⟨0, 0, 0, 0, 0, 0, 0⟩
  file : Option Bytes := none

namespace BinaryProtocolLogger

variable (doubles : DoubleText)

/-- The handle of a container is the one of its name. `operator[]` puts a 0 where there was none. -/
def globalHandle (l : BinaryProtocolLogger) (name : Bytes) : UInt32 := (l.globalContainerHandle[name]?).getD 0

def logOpen (l : BinaryProtocolLogger) (file : Bytes) (container : Container) : BinaryProtocolLogger :=
  if l.globalHandle container.getName = 0 then
    let handle := l.lastGlobalHandle + 1
    { l with
      globalContainerHandle := l.globalContainerHandle.insert container.getName handle
      lastGlobalHandle := handle
      file := some (file ++ LogLine.create l.time handle container.getName container.getType ++ [10]) }
  else l

def logData (l : BinaryProtocolLogger) (file : Bytes) (container : Container) (command : DataCommand) :
    BinaryProtocolLogger :=
  let handle := l.globalHandle container.getName
  { l with
    globalContainerHandle := l.globalContainerHandle.insert container.getName handle
    file := some (file ++ LogLine.data doubles l.time handle command ++ [10]) }

def logMessage (l : BinaryProtocolLogger) (container : Container) (message : BinaryCommand) : BinaryProtocolLogger :=
  match l.file with
  | none => l
  | some file =>
    match message with
    | .create _ _ => l.logOpen file container
    | .open _ _ => l.logOpen file container
    | .data _ command => l.logData doubles file container command

end BinaryProtocolLogger

structure BinaryServer where
  containerManager : ContainerManager
  session : Session := { binaryProtocol := true }
  logger : BinaryProtocolLogger

inductive BinaryAnswer where
  | answer
  | handle (handle : UInt32)
  | error
  deriving DecidableEq, Repr

namespace BinaryServer

variable (doubles : DoubleText)

/-- As `tio.cpp` sets it up, with a sink for the events. The containers of `InitializeMetaContainers`, which no
command here names, are left out. -/
def start (aliases : List (Bytes × Bytes)) (file : Option Bytes) : Option BinaryServer :=
  (((ContainerManager.setupContainerManager aliases).run {}).next).map fun manager =>
    { containerManager := { manager with sink := true }, logger := { file := file } }

/-- What the session does with the object that it got. The table of the handles holds the object; without a new entry
the object goes when the command ends. -/
def opened (s : BinaryServer) (message : BinaryCommand) (name : Bytes) :
    Outcome Exc ContainerManager Nat → Option (BinaryAnswer × BinaryServer)
  | .undefined => none
  | .throws _ manager => some (.error, { s with containerManager := manager })
  | .ok o manager => do
    let (handle, session) := s.session.registerContainer name (UInt64.ofNat o)
    let container ← manager.containerOf o
    return (.handle handle,
      { containerManager :=
          if s.session.handles.contains handle then manager else { manager with held := o :: manager.held }
        session := session
        logger := s.logger.logMessage doubles container message })

def onDataCommand (s : BinaryServer) (message : BinaryCommand) (o : Nat) (command : DataCommand) :
    Option (BinaryAnswer × BinaryServer) :=
  match (ContainerManager.withObject o command.exec).run s.containerManager with
  | .undefined => none
  | .throws _ manager => some (.error, { s with containerManager := manager })
  | .ok () manager => do
    let container ← manager.containerOf o
    return (.answer,
      { s with containerManager := manager, logger := s.logger.logMessage doubles container message })

/-- `none` is behaviour that the language leaves open, and a command that never returns. -/
def onBinaryCommand (s : BinaryServer) (message : BinaryCommand) : Option (BinaryAnswer × BinaryServer) :=
  match message with
  | .create none _ => some (.error, s)
  | .create (some name) type =>
    if type = [] then some (.error, s)
    else s.opened doubles message name ((ContainerManager.createContainer type name).run s.containerManager)
  | .open none _ => some (.error, s)
  | .open (some name) type =>
    s.opened doubles message name ((ContainerManager.openContainer type name).run s.containerManager)
  | .data handle command =>
    if handle = 0 then some (.error, s)
    else
      match s.session.getRegisteredContainer handle with
      | none => some (.error, s)
      | some container => s.onDataCommand doubles message container.toNat command

inductive Step where
  | updateTime (time : LocalTime)
  | command (message : BinaryCommand)
  deriving DecidableEq, Repr

def step (s : BinaryServer) : Step → Option BinaryServer
  | .updateTime time => some { s with logger := { s.logger with time := time } }
  | .command message => (s.onBinaryCommand doubles message).map Prod.snd

end BinaryServer

/-! ## The replay -/

/-- The command with what `TioContainer` passes on: no metadata, and to some commands no data at all. -/
def DataCommand.sent (code : CommandCode) (key value : TioData) : DataCommand :=
  match code with
  | .pushBack | .pushFront | .set | .insert | .propset => ⟨code, key, value, .none⟩
  | .delete => ⟨code, key, .none, .none⟩
  | .popBack | .popFront | .clear => ⟨code, .none, .none, .none⟩

def CommandCode.all : List CommandCode :=
  [.pushBack, .pushFront, .popBack, .popFront, .set, .insert, .delete, .clear, .propset]

def CommandCode.ofLogName (name : Bytes) : Option CommandCode := CommandCode.all.find? (·.logName = name)

/-- `containers` has the handle that the server gave for each handle of the log. -/
structure TioLogParser where
  server : BinaryServer
  containers : Std.ExtTreeMap Int32 UInt32 := ∅

namespace TioLogParser

variable (doubles : DoubleText)

/-- `none` is an exception, which ends the replay, or a read through a null pointer. -/
def create (r : TioLogParser) (handle : Int32) (name type : TioData) : Option TioLogParser :=
  match name, type with
  | .string name, .string type =>
    if (ascii "__").isPrefixOf name then some r
    else
      -- `c_str()`
      match r.server.onBinaryCommand doubles (.create (some (cstr name)) (cstr type)) with
      | some (.handle h, server) => some { server := server, containers := r.containers.insert handle h }
      | _ => none
  | _, _ => none

/-- A `group_add`, which no command here writes, is not followed. -/
def onLogEntry (r : TioLogParser) (log : LogEntry) : Option TioLogParser :=
  if log.command = ascii "create" then r.create doubles log.handle log.key log.value
  else if log.command = ascii "group_add" then none
  else
    match r.containers[log.handle]?, CommandCode.ofLogName log.command with
    -- the iterator is the end of the map
    | none, _ => none
    | some _, none => some r
    | some handle, some code =>
      match r.server.onBinaryCommand doubles (.data handle (.sent code log.key log.value)) with
      | some (.answer, server) => some { r with server := server }
      | _ => none

/-- The lines that `getline` gives. -/
def lines (file : Bytes) : List Bytes :=
  let pieces := file.splitOn 10
  if pieces.getLast? = some [] then pieces.dropLast else pieces

def onLine (r : TioLogParser) (line : Bytes) : Option TioLogParser :=
  if line = [13] then some r else (LogEntry.ofLine doubles line).bind (r.onLogEntry doubles)

def replay (r : TioLogParser) (file : Bytes) : Option TioLogParser := (lines file).foldlM (onLine doubles) r

end TioLogParser

end Tiodb
