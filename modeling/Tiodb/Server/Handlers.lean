import Mathlib.Data.List.Infix
import Tiodb.Server.Framing

/-!
# What the handlers write

Every handler of `LoadDispatchMap` of `TioTcpServer.cpp`, `OnHttpCommand`, and
`OnReadCommand` and `OnCommandData` of `TioTcpSession.cpp` around them, for what they
write to the client. What the containers and the rest of the server answer to a
handler is given: a handler asks for each thing once. The asserts are compiled out.
-/

namespace Tiodb.Handlers

open Lib

/-- What a container answers, whatever it holds. -/
structure ContainerAnswers where
  name : Bytes
  type : Bytes
  insert : Fields → Except Exc Unit
  set : Fields → Except Exc Unit
  pushBack : Fields → Except Exc Unit
  pushFront : Fields → Except Exc Unit
  delete : Fields → Except Exc Unit
  popBack : Except Exc Fields
  popFront : Except Exc Fields
  getRecord : TioData → Except Exc Fields
  setProperty : Bytes → Bytes → Except Exc Unit
  getProperty : Bytes → Except Exc Bytes
  clear : Except Exc Unit
  getRecordCount : Except Exc UInt64
  command : Bytes → Except Exc Bytes
  query : Int32 → Int32 → TioData → Except Exc (List Fields)

/-- What the server answers to one call of a handler. `regex` is the constructor of `boost::regex` with
`regex_match`. -/
structure ServerAnswers where
  getRegisteredContainer : UInt32 → Except Exc ContainerAnswers
  checkObjectAccess : Bytes → Bytes → Bytes → Bool
  checkCommandAccess : Bytes → Bool
  createContainer : Bytes → Bytes → Except Exc ContainerAnswers
  openContainer : Bytes → Bytes → Except Exc ContainerAnswers
  deleteContainer : Bytes → Bytes → Except Exc Unit
  containerExists : Bytes → Bytes → Except Exc Bool
  registerContainer : Bytes → UInt32
  closeContainerHandle : UInt32 → Except Exc Unit
  addContainer : Bytes → Bytes → Except Exc Unit
  password : Bytes → Except Exc TioData
  createNewQueryId : UInt32
  regex : Bytes → Except Exc (Bytes → Except Exc Bool)

/-- The body of a response. The text of a JSON and of an HTML body is left out. -/
inductive Body where
  | text (text : Bytes)
  | json (name type : Bytes) (records : List Fields)
  | html (name : Bytes) (records : List Fields)
  deriving DecidableEq, Repr

/-- What `SendHttpResponse` is called with. -/
structure HttpResponse where
  status : Nat
  mimeType : Bytes
  body : Body
  deriving DecidableEq, Repr

/-- What goes to the socket of the session. -/
inductive Write where
  | answer (a : Answer)
  | goingBinary
  | resultSetStart (queryId : UInt32)
  | resultSetItem (queryId : UInt32) (record : Fields)
  | resultSetEnd (queryId : UInt32)
  | http (response : HttpResponse)
  deriving DecidableEq, Repr

/-- `answer` is the stream that the session sends when the handler has returned. -/
structure Out where
  sent : List Write := []
  answer : List Answer := []
  moreDataSize : UInt64 := 0
  deriving DecidableEq, Repr

/-- The answer is sent after everything that the handler sent by itself. -/
def Out.writes (out : Out) : List Write := out.sent ++ out.answer.map Write.answer

/-- A handler writes, or throws. -/
abbrev HandlerM := Prog Exc Out

/-- `MakeAnswer`, which puts an answer behind what is in the stream. -/
def makeAnswer (a : Answer) : HandlerM Unit := modify fun out => { out with answer := out.answer ++ [a] }

def makeError (text : String) : HandlerM Unit := makeAnswer (.error (ascii text))

def makeSuccess : HandlerM Unit := makeAnswer (.ok [])

/-- What is sent at once, and not with the answer. -/
def send (w : Write) : HandlerM Unit := modify fun out => { out with sent := out.sent ++ [w] }

/-- The value is whether control leaves the block at its end; `return` inside of it, and its `catch`, leave the
handler. -/
def catching (x : HandlerM Bool) : HandlerM Bool :=
  tryCatch x fun e => do
    makeAnswer (.error e.what)
    return false

/-- A number in the text of an answer. -/
def number (n : Nat) : Bytes := ascii (toString n)

/-- Parameters with blanks between them. -/
def words (l : List Bytes) : Bytes := List.intercalate [32] l

variable (lex : LexicalCast) (server : ServerAnswers)

/-- `lexical_cast` of a parameter, and `GetRegisteredContainer`. -/
def registered (param : Option Bytes) : Except Exc ContainerAnswers :=
  match param.bind lex.toUnsigned with
  | none => .error badLexicalCast
  | some handle => server.getRegisteredContainer handle

/-- The handlers that answer every failure to find the container in the same way. -/
def withContainer (cmd : Command) (body : ContainerAnswers → HandlerM Unit) : HandlerM Unit :=
  match registered lex server cmd.params[0]? with
  | .error _ => makeError "invalid handle"
  | .ok container => body container

/-! ## Commands that carry no data -/

/-- `OnCommand_Ping` -/
def onCommandPing (cmd : Command) : HandlerM Unit := makeAnswer (.ok (words (ascii "pong" :: cmd.params)))

/-- `OnCommand_Version` -/
def onCommandVersion : HandlerM Unit := makeAnswer (.ok (ascii "0.1"))

/-- Names that begin with two underscores belong to the server. -/
def isReserved (name : Bytes) : Bool := (ascii "__").isPrefixOf name

/-- `OnCommand_CreateContainer_OpenContainer` -/
def onCommandCreateContainerOpenContainer (cmd : Command) : HandlerM Unit :=
  match cmd.params with
  | [] => makeError "invalid parameter count"
  | containerName :: params => do
    let containerType := params.head?.getD []
    let opened (container : ContainerAnswers) : HandlerM Unit :=
      makeAnswer (.ok (words [ascii "handle", number (server.registerContainer containerName).toNat, container.type]))
    let _ ← catching do
      if cmd.command = ascii "create" then
        if isReserved containerName then
          makeError "invalid name, names starting with __ are reserved for internal use"
        else if !server.checkCommandAccess cmd.command then makeError "access denied"
        else
          let containerType := if containerType = [] then ascii "volatile_list" else containerType
          opened (← Prog.ofExcept (server.createContainer containerType containerName))
      else
        if !server.checkObjectAccess containerType containerName cmd.command then makeError "access denied"
        else opened (← Prog.ofExcept (server.openContainer containerType containerName))
      return false

/-- `OnCommand_CloseContainer` -/
def onCommandCloseContainer (cmd : Command) : HandlerM Unit :=
  match cmd.params with
  | [param] =>
    match lex.toUnsigned param with
    | none => makeError "Invalid handle"
    | some handle =>
      match server.closeContainerHandle handle with
      | .error _ => makeError "Invalid handle"
      | .ok () => makeSuccess
  | _ => makeError "invalid parameter count"

/-- `OnCommand_DeleteContainer` -/
def onCommandDeleteContainer (cmd : Command) : HandlerM Unit :=
  match cmd.params with
  | [containerType, containerName] =>
    if !server.checkObjectAccess containerType containerName cmd.command then makeError "access denied"
    else do
      let _ ← catching do
        Prog.ofExcept (server.deleteContainer containerType containerName)
        makeSuccess
        return false
  | _ => makeError "invalid parameter count"

/-- `OnCommand_ListHandles`, whose body is commented out. -/
def onCommandListHandles (cmd : Command) : HandlerM Unit :=
  if cmd.params.length ≠ 0 then makeError "invalid parameter count" else makeError "not implemented"

/-- `OnCommand_Clear` -/
def onCommandClear (cmd : Command) : HandlerM Unit :=
  if cmd.params.length ≠ 1 then makeError "invalid parameter count"
  else withContainer lex server cmd fun container => do
    Prog.ofExcept container.clear
    makeSuccess

/-- `OnCommand_GetRecordCount` -/
def onCommandGetRecordCount (cmd : Command) : HandlerM Unit :=
  if cmd.params.length ≠ 1 then makeError "invalid parameter count"
  else withContainer lex server cmd fun container => do
    let count ← Prog.ofExcept container.getRecordCount
    makeAnswer (.ok (words [ascii "count", number count.toNat]))

/-- `OnCommand_CustomCommand`: the parameters behind the handle, put together again. -/
def onCommandCustomCommand (cmd : Command) : HandlerM Unit :=
  if cmd.params.length < 2 then makeError "invalid parameter count"
  else withContainer lex server cmd fun container => do
    let result ← Prog.ofExcept (container.command (words cmd.params.tail))
    makeAnswer (.ok (cstr result))

/-- `OnCommand_SubscribeUnsubscribe` -/
def onCommandSubscribeUnsubscribe (cmd : Command) : HandlerM Unit :=
  if cmd.params.length < 1 ∨ 3 < cmd.params.length then makeError "invalid parameter count"
  else
    match (cmd.params[0]?).bind lex.toUnsigned with
    | none => makeError "invalid handle"
    | some handle => do
      let _ ← catching do
        let container ← Prog.ofExcept (server.getRegisteredContainer handle)
        -- both out parameters get the name
        if !server.checkObjectAccess container.name container.name cmd.command then makeError "access denied"
        else
          Prog.ofExcept (TextServer.filterEnd lex cmd)
          makeSuccess
        return false

/-- `OnCommand_Auth` -/
def onCommandAuth (cmd : Command) : HandlerM Unit :=
  match cmd.params with
  | [token, passwordType, password] =>
    -- only clean password now
    if passwordType ≠ ascii "clean" then makeError "unsupported password type"
    else
      match server.password token with
      | .error _ => makeError "error validating password"
      | .ok value => if value = .string password then makeSuccess else makeError "invalid password"
  | _ => makeError "invalid parameter count"

/-- `OnCommand_PauseResume` -/
def onCommandPauseResume (cmd : Command) : HandlerM Unit :=
  if cmd.params.length ≠ 0 then makeError "invalid parameter count" else makeSuccess

/-- `Exists` may throw, with nothing to catch it here. -/
def onCommandSetPermission (cmd : Command) : HandlerM Unit :=
  match cmd.params with
  | objectType :: objectName :: command :: allowOrDeny :: token =>
    if 1 < token.length then makeError "invalid parameter count"
    else if TextServer.ruleResult allowOrDeny = none then makeError "invalid permission type"
    else do
      if !(← Prog.ofExcept (server.containerExists objectType objectName)) then makeError "no such object"
      else if token = [] ∧ command ≠ ascii "__default__" then makeError "no user specified"
      else makeSuccess
  | _ => makeError "invalid parameter count"

/-! ## Groups, which are answered before the subscriptions -/

/-- `OnCommand_GroupAdd` -/
def onCommandGroupAdd (cmd : Command) : HandlerM Unit :=
  match cmd.params with
  | [groupName, containerName] => do
    let _ ← catching do
      let container ← Prog.ofExcept (server.openContainer [] containerName)
      Prog.ofExcept (server.addContainer groupName container.name)
      send (.answer (.ok []))
      return false
  | _ => makeError "invalid parameter count"

/-- `OnCommand_GroupSubscribe`: the answer is sent before the subscriptions are made. -/
def onCommandGroupSubscribe (cmd : Command) : HandlerM Unit :=
  match cmd.params with
  | [_] => send (.answer (.ok []))
  | [_, _] => makeError "start parameters not supported"
  | _ => makeError "invalid parameter count"

/-! ## Queries -/

/-- `SendTextResultSet` -/
def sendTextResultSet (records : List Fields) (queryId : UInt32) : HandlerM Unit := do
  send (.resultSetStart queryId)
  records.forM fun record => send (.resultSetItem queryId record)
  send (.resultSetEnd queryId)

/-- `OnCommand_Query`: an offset that is not given is 0. -/
def onCommandQuery (cmd : Command) : HandlerM Unit :=
  if cmd.params.length < 1 then makeError "invalid parameter count"
  else withContainer lex server cmd fun container =>
    let number (param : Option Bytes) : Option Int32 := param.elim (some 0) lex.toInt
    match number cmd.params[1]?, number cmd.params[2]? with
    | some start, some stop => do
      let _ ← catching do
        sendTextResultSet (← Prog.ofExcept (container.query start stop .none)) server.createNewQueryId
        return false
    | _, _ => makeError "invalid parameter"

/-- The loop over the result set. Records whose key is no string are passed over. -/
def sendMatches (regexMatch : Bytes → Except Exc Bool) (queryId : UInt32) : List Fields → Nat → HandlerM Unit
  | [], _ => pure ()
  | _ :: _, 0 => pure ()
  | record :: records, left + 1 =>
    match record.key with
    | .string key => do
      if ← Prog.ofExcept (regexMatch (cstr key)) then
        send (.resultSetItem queryId record)
        sendMatches regexMatch queryId records left
      else sendMatches regexMatch queryId records (left + 1)
    | _ => sendMatches regexMatch queryId records (left + 1)

/-- `OnCommand_QueryEx` -/
def onCommandQueryEx (cmd : Command) : HandlerM Unit :=
  if cmd.params.length < 2 then makeError "invalid parameter count"
  else withContainer lex server cmd fun container =>
    match (cmd.params[2]?).elim (some 0xFFFFFFFF) lex.toUnsigned with
    | none => makeError "invalid record limit parameter"
    | some maxRecords => do
      let regexMatch ← Prog.ofExcept (server.regex (cmd.params[1]?.getD []))
      let records ← Prog.ofExcept (container.query 0 0 .none)
      send (.resultSetStart server.createNewQueryId)
      sendMatches regexMatch server.createNewQueryId records maxRecords.toNat
      send (.resultSetEnd server.createNewQueryId)

/-! ## Commands on records -/

/-- `OnCommand_Pop` -/
def onCommandPop (cmd : Command) : HandlerM Unit := do
  let _ ← catching do
    if cmd.params.length ≠ 1 then makeError "invalid parameter count"
    else
      let container ← Prog.ofExcept (registered lex server cmd.params[0]?)
      if !server.checkObjectAccess container.name container.name cmd.command then makeError "access denied"
      else
        let record ← Prog.ofExcept (if cmd.command = ascii "pop_back" then container.popBack else container.popFront)
        makeAnswer (.data record.key record.value record.metadata)
    return false

/-- Two kinds of exceptions come to one. -/
def invalidHandle (e : Exc) : Exc :=
  if e.kind = .badLexicalCast ∨ e.kind = .invalidArgument then invalidArgument "invalid handle" else e

/-- `ParseDataCommand` -/
def parseDataCommand (cmd : Command) : HandlerM (ContainerAnswers × Text.Parsed) :=
  if cmd.params.length < 4 then throw (invalidArgument "Invalid parameter count")
  else
    match registered lex server cmd.params[0]? with
    | .error e => throw (invalidHandle e)
    | .ok container =>
      match Text.extractFieldSet lex cmd.params.tail cmd.data with
      | none => Prog.undefined
      | some parsed => do return (container, ← Prog.ofExcept parsed)

/-- `OnAnyDataCommand` and `OnModify` around what they do to the container. -/
def onDataCommand (body : ContainerAnswers → Fields → HandlerM Bool) (cmd : Command) : HandlerM Unit := do
  let falls ← catching do
    let (container, parsed) ← parseDataCommand lex server cmd
    if !server.checkObjectAccess container.name container.name cmd.command then
      makeError "access denied"
      return false
    else
      match parsed with
      | .needs size =>
        modify fun out => { out with moreDataSize := size }
        return false
      | .fields f => body container f
  if falls then makeSuccess

/-- What `OnAnyDataCommand` does with the data. The result says whether the answer of success is still to be made. -/
def anyDataCommand (command : Bytes) (container : ContainerAnswers) (f : Fields) : HandlerM Bool :=
  let falls (x : Except Exc Unit) : HandlerM Bool := do
    Prog.ofExcept x
    return true
  if command = ascii "insert" then falls (container.insert f)
  else if command = ascii "set" then falls (container.set f)
  else if command = ascii "push_back" then falls (container.pushBack f)
  else if command = ascii "push_front" then falls (container.pushFront f)
  else if command = ascii "delete" then falls (container.delete f)
  else if command = ascii "get" then do
    let record ← Prog.ofExcept (container.getRecord f.key)
    makeAnswer (.data (if record.key.isNull then f.key else record.key) record.value record.metadata)
    return false
  else if command = ascii "set_property" then
    tryCatch
      (falls do
        let key ← f.key.asSz
        let value ← f.value.asSz
        container.setProperty key value)
      fun _ => do
        makeError "key and value must be strings"
        return false
  else if command = ascii "get_property" then do
    tryCatch
      (do
        let value ← Prog.ofExcept do
          let key ← f.key.asSz
          container.getProperty key
        makeAnswer (.data f.key (.string value) .none))
      fun _ => makeError "invalid key"
    return false
  else return true

/-- `OnAnyDataCommand` -/
def onAnyDataCommand (cmd : Command) : HandlerM Unit := onDataCommand lex server (anyDataCommand cmd.command) cmd

/-- The answer with the sum is made inside of the block, and control leaves it at its end. -/
def modifyCommand (container : ContainerAnswers) (f : Fields) : HandlerM Bool :=
  match Modify.operand lex f.key f.value with
  | .error text => do
    makeAnswer (.error text)
    return false
  | .ok toAdd => do
    match (← Prog.ofExcept (container.getRecord f.key)).value with
    | .int current =>
      Prog.ofExcept (container.set ⟨f.key, .int (current + toAdd), .none⟩)
      makeAnswer (.data .none (.int (current + toAdd)) .none)
      return true
    | _ =>
      makeError "modified data must be integer"
      return false

/-- `OnModify` -/
def onModify (cmd : Command) : HandlerM Unit := onDataCommand lex server (modifyCommand lex) cmd

/-! ## Dispatch -/

/-- The handlers of the dispatch map. -/
inductive Handler where
  | ping
  | version
  | createContainerOpenContainer
  | closeContainer
  | deleteContainer
  | listHandles
  | anyDataCommand
  | pop
  | modify
  | clear
  | getRecordCount
  | subscribeUnsubscribe
  | customCommand
  | auth
  | pauseResume
  | setPermission
  | query
  | queryEx
  | groupAdd
  | groupSubscribe
  deriving DecidableEq, Repr

/-- `LoadDispatchMap` -/
def dispatchMap : List (Bytes × Handler) :=
  [(ascii "ping", .ping), (ascii "ver", .version), (ascii "create", .createContainerOpenContainer),
    (ascii "open", .createContainerOpenContainer), (ascii "close", .closeContainer),
    (ascii "delete_container", .deleteContainer), (ascii "list_handles", .listHandles),
    (ascii "push_back", .anyDataCommand), (ascii "push_front", .anyDataCommand), (ascii "pop_back", .pop),
    (ascii "pop_front", .pop), (ascii "modify", .modify), (ascii "set", .anyDataCommand),
    (ascii "insert", .anyDataCommand), (ascii "delete", .anyDataCommand), (ascii "clear", .clear),
    (ascii "get_property", .anyDataCommand), (ascii "set_property", .anyDataCommand), (ascii "get", .anyDataCommand),
    (ascii "get_count", .getRecordCount), (ascii "subscribe", .subscribeUnsubscribe),
    (ascii "unsubscribe", .subscribeUnsubscribe), (ascii "command", .customCommand), (ascii "auth", .auth),
    (ascii "pause", .pauseResume), (ascii "resume", .pauseResume), (ascii "set_permission", .setPermission),
    (ascii "query", .query), (ascii "queryex", .queryEx), (ascii "group_add", .groupAdd),
    (ascii "group_subscribe", .groupSubscribe)]

/-- The call of a handler. -/
def handle (cmd : Command) : Handler → HandlerM Unit
  | .ping => onCommandPing cmd
  | .version => onCommandVersion
  | .createContainerOpenContainer => onCommandCreateContainerOpenContainer server cmd
  | .closeContainer => onCommandCloseContainer lex server cmd
  | .deleteContainer => onCommandDeleteContainer server cmd
  | .listHandles => onCommandListHandles cmd
  | .anyDataCommand => onAnyDataCommand lex server cmd
  | .pop => onCommandPop lex server cmd
  | .modify => onModify lex server cmd
  | .clear => onCommandClear lex server cmd
  | .getRecordCount => onCommandGetRecordCount lex server cmd
  | .subscribeUnsubscribe => onCommandSubscribeUnsubscribe lex server cmd
  | .customCommand => onCommandCustomCommand lex server cmd
  | .auth => onCommandAuth server cmd
  | .pauseResume => onCommandPauseResume cmd
  | .setPermission => onCommandSetPermission server cmd
  | .query => onCommandQuery lex server cmd
  | .queryEx => onCommandQueryEx lex server cmd
  | .groupAdd => onCommandGroupAdd server cmd
  | .groupSubscribe => onCommandGroupSubscribe cmd

/-- The answer to an exception that no handler should let out. -/
def internalError (e : Exc) : Answer :=
  .error (ascii "internal error, handler functions not supposed to throw exceptions but I've got this one: " ++ e.what)

/-- `OnTextCommand` -/
def onTextCommand (cmd : Command) : HandlerM Unit :=
  match dispatchMap.lookup cmd.command with
  | some handler => tryCatch (handle lex server cmd handler) fun e => makeAnswer (internalError e)
  | none => makeError "invalid command"

/-! ## HTTP -/

/-- `HTTP_MESSAGE` -/
structure HttpMessage where
  method : Bytes
  url : Bytes
  headers : StringMap Bytes

/-- What the parser has of a request when the bytes of the buffer are fed to it. If it wants more, the session reads
until the connection ends. -/
inductive HttpRead where
  | error
  | unfinished
  | message (m : HttpMessage)

/-- The container is null if it was not found. -/
def createContainerHttpResponse (headers : StringMap Bytes) (container : Option ContainerAnswers) :
    HandlerM HttpResponse :=
  let accept := headers[ascii "Accept"]?
  if accept = none ∨ (∃ a ∈ accept, ascii "application/json" <:+: a) ∨ accept = some (ascii "*/*") then
    match container with
    | none => Prog.undefined
    | some container => do
      let records ← Prog.ofExcept (container.query 0 0 .none)
      return ⟨200, ascii "application/json", .json container.name container.type records⟩
  else if ∃ a ∈ accept, ascii "text/html" <:+: a then
    match container with
    | none => Prog.undefined
    | some container => do
      let records ← Prog.ofExcept (container.query 0 0 .none)
      return ⟨200, ascii "text/html", .html container.name records⟩
  else return ⟨400, [], .text []⟩

/-- A response in plain text. -/
def plainResponse (status : Nat) (message : Bytes) : HttpResponse := ⟨status, ascii "text/plain", .text message⟩

def sendHttpResponse (status : Nat) (message : Bytes) : HandlerM Unit := send (.http (plainResponse status message))

/-- The path without the slash in front. -/
def normalizedPath (url : Bytes) : Bytes := if url.head? = some 47 then url.tail else url

/-- `OnHttpCommand`. What it throws is a response too. -/
def onHttpCommand (hello : Bytes) (m : HttpMessage) : HandlerM Unit :=
  tryCatch
    (do
      if m.method = ascii "GET" then
        if normalizedPath m.url = [] then sendHttpResponse 200 hello
        else
          let container ← tryCatch
            (do return some (← Prog.ofExcept (server.openContainer [] (normalizedPath m.url))))
            fun e => do
              if e.kind = .runtimeError then
                sendHttpResponse 404 (ascii "container not found")
                return none
              else throw e
          let response ← createContainerHttpResponse m.headers container
          send (.http response)
      else sendHttpResponse 400 (ascii "Bad Request"))
    fun e => do
      sendHttpResponse 400 (ascii "Bad Request")
      sendHttpResponse 500 (ascii "Internal Server Error : " ++ e.what)

/-! ## A request of a session -/

/-- What a client sent, from the start of a line on, with what the server answers when the handler is called for the
line and when it is called with the data. -/
structure Request where
  unread : Bytes
  onLine : ServerAnswers
  onData : ServerAnswers
  http : HttpRead
  hello : Bytes
  newline : 10 ∈ unread

namespace Request

def line (r : Request) : Bytes := Connection.nextLine r.unread

def cmd (r : Request) : Command := .parse r.line

def payload (r : Request) : Bytes := (r.unread.dropWhile (· ≠ 10)).tail

def written (x : HandlerM Unit) : Option Out :=
  match x.run {} with
  | .ok _ out => some out
  | _ => none

/-- Everything the session writes before it reads the next line. `none` if the behaviour is not defined. -/
def onReadCommand (r : Request) : Option (List Write) :=
  -- can happen if client send binary data
  if r.unread.takeWhile (· ≠ 10) = [] then some []
  else if Connection.isProtocolChange r.cmd then some [.goingBinary]
  else if Connection.isHttpRequest r.cmd then
    match r.http with
    | .message m => (written (onHttpCommand r.onLine r.hello m)).map Out.writes
    | _ => some []
  else
    (written (onTextCommand lex r.onLine r.cmd)).bind fun out =>
      if out.moreDataSize = 0 then some out.writes
      else if r.payload.length < out.moreDataSize.toNat then some out.writes
      else
        let cmd := { r.cmd with data := r.payload.take out.moreDataSize.toNat }
        (written (onTextCommand lex r.onData cmd)).map fun out' => out.writes ++ out'.writes

end Request

end Tiodb.Handlers
