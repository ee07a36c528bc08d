import Tiodb.Protocol.Text
import Tiodb.Server.Auth
import Tiodb.Server.ContainerManager
import Tiodb.Server.Modify

/-!
# Text commands on handles

The handlers of `TioTcpServer.cpp` for the commands that name a container by its
handle and ask for permission, and `OnCommand_SetPermission`. The state is the
server as one session sees it.
-/

namespace Tiodb

open Lib

structure Subscription where
  container : Nat
  handle : UInt32
  start : Bytes
  deriving DecidableEq, Repr

/-- The server as one text session sees it, with the tokens of the session. -/
structure TextServer where
  manager : ContainerManager
  auth : Auth
  handles : Std.ExtTreeMap UInt32 Nat
  tokens : List Bytes
  subscriptions : List Subscription

/-- The answers to a command, and how many bytes of data are asked for first. -/
structure Reply where
  answers : List Answer
  moreDataSize : UInt64 := 0
  deriving DecidableEq, Repr

namespace TextServer

abbrev ServerM := Prog Exc TextServer

variable (lex : LexicalCast)

def answer (a : Answer) : ServerM Reply := return { answers := [a] }

/-- `MakeAnswer(success, answer)` -/
def success : ServerM Reply := answer (.ok [])

def error (text : String) : ServerM Reply := answer (.error (ascii text))

/-- `catch(std::exception& e)`, which makes an answer of what was thrown. -/
def catching (x : ServerM Reply) : ServerM Reply := tryCatch x fun e => answer (.error e.what)

/-- A call on a container of the manager. -/
def withContainer {α : Type} (o : Nat) (x : Container.ContainerM α) : ServerM α :=
  ⟨fun s => ((ContainerManager.withObject o x).run s.manager).mapState fun m => { s with manager := m }⟩

/-- The container, and what goes to `*containerName` and to `*containerType`: the name in both. -/
def getRegisteredContainer (handle : UInt32) : ServerM (Nat × Bytes × Bytes) := do
  match (← get).handles[handle]? with
  | none => throw (invalidArgument "invalid handle")
  | some o =>
    match (← get).manager.containerOf o with
    | none => Prog.undefined
    | some c => return (o, c.getName, c.getName)

/-- `CheckObjectAccess`, with the tokens of the session. -/
def checkObjectAccess (s : TextServer) (objectType objectName command : Bytes) : Bool :=
  s.auth.checkObjectAccess objectType objectName command s.tokens = .allow

/-- `ExtractFieldSet` -/
def readFields (params : List Bytes) (buffer : Bytes) : ServerM Text.Parsed :=
  match Text.extractFieldSet lex params buffer with
  | some r => Prog.ofExcept r
  | none => Prog.undefined

/-- What `ParseDataCommand` gives: the container, its name and type, and the fields. -/
structure DataCommand where
  container : Nat
  containerName : Bytes
  containerType : Bytes
  parsed : Text.Parsed

/-- Every way to name no container comes to one error. -/
def parseDataCommand (cmd : Command) : ServerM DataCommand := do
  if cmd.params.length < 4 then throw (invalidArgument "Invalid parameter count")
  else
    match (cmd.params[0]?).bind lex.toUnsigned with
    | none => throw (invalidArgument "invalid handle")
    | some handle =>
      let (container, containerName, containerType) ← getRegisteredContainer handle
      return ⟨container, containerName, containerType, ← readFields lex cmd.params.tail cmd.data⟩

/-! ## What a command does to the container -/

/-- The branches of `OnAnyDataCommand`. -/
def dataCommand (command : Bytes) (f : Fields) : Container.ContainerM Answer := do
  if command = ascii "insert" then
    Container.insert f.key f.value f.metadata
    return .ok []
  else if command = ascii "set" then
    Container.set f.key f.value f.metadata
    return .ok []
  else if command = ascii "pop_back" then
    let _ ← Container.popBack
    return .ok []
  else if command = ascii "pop_front" then
    let _ ← Container.popFront
    return .ok []
  else if command = ascii "push_back" then
    Container.pushBack f.key f.value f.metadata
    return .ok []
  else if command = ascii "push_front" then
    Container.pushFront f.key f.value f.metadata
    return .ok []
  else if command = ascii "delete" then
    Container.delete f.key f.value f.metadata
    return .ok []
  else if command = ascii "get" then
    let r ← Container.getRecord f.key
    return .data (if r.key.isNull then f.key else r.key) r.value r.metadata
  else if command = ascii "set_property" then
    tryCatch
      (do
        let key ← Prog.ofExcept f.key.asSz
        let value ← Prog.ofExcept f.value.asSz
        Container.setProperty key value
        return .ok [])
      fun _ => return .error (ascii "key and value must be strings")
  else if command = ascii "get_property" then
    tryCatch
      (do
        let key ← Prog.ofExcept f.key.asSz
        return .data f.key (.string (← Container.getProperty key)) .none)
      fun _ => return .error (ascii "invalid key")
  else return .ok []

/-- The two branches of `OnCommand_Pop`. -/
def popCommand (command : Bytes) : Container.ContainerM (List Answer) := do
  let r ← if command = ascii "pop_back" then Container.popBack else Container.popFront
  return [.data r.key r.value r.metadata]

/-! ## The handlers -/

/-- `OnAnyDataCommand` and `OnModify`, which differ in what they do to the container. The handler is called
twice: without its data it asks for it. -/
def onDataCommand (body : Fields → Container.ContainerM (List Answer)) (cmd : Command) : ServerM Reply :=
  catching do
    let d ← parseDataCommand lex cmd
    if !(← get).checkObjectAccess d.containerType d.containerName cmd.command then error "access denied"
    else
      match d.parsed with
      | .needs size => return { answers := [], moreDataSize := size }
      | .fields f => return { answers := ← withContainer d.container (body f) }

/-- `OnAnyDataCommand` -/
def onAnyDataCommand (cmd : Command) : ServerM Reply :=
  onDataCommand lex (fun f => return [← dataCommand cmd.command f]) cmd

/-- `OnModify` -/
def onModify (cmd : Command) : ServerM Reply := onDataCommand lex (fun f => Modify.body lex f.key f.value) cmd

/-- `OnCommand_Pop` -/
def onCommandPop (cmd : Command) : ServerM Reply :=
  catching do
    match cmd.params with
    | [param] =>
      match lex.toUnsigned param with
      | none => throw badLexicalCast
      | some handle =>
        let (container, containerName, containerType) ← getRegisteredContainer handle
        if !(← get).checkObjectAccess containerType containerName cmd.command then error "access denied"
        else return { answers := ← withContainer container (popCommand cmd.command) }
    | _ => error "invalid parameter count"

/-- The start of a subscription: none if there is no such parameter, or if it says so. -/
def startOf (cmd : Command) : Bytes :=
  match cmd.params[1]? with
  | none => []
  | some start => if start = ascii "__none__" then [] else start

/-- `filterEnd` is cast, and never used. -/
def filterEnd (cmd : Command) : Except Exc Unit :=
  match cmd.params with
  | [_, _, param] => if (lex.toInt param).isNone then .error badLexicalCast else .ok ()
  | _ => .ok ()

/-- `OnCommand_SubscribeUnsubscribe` -/
def onCommandSubscribeUnsubscribe (cmd : Command) : ServerM Reply :=
  if cmd.params.length < 1 ∨ 3 < cmd.params.length then error "invalid parameter count"
  else
    match (cmd.params[0]?).bind lex.toUnsigned with
    | none => error "invalid handle"
    | some handle =>
      catching do
        let (container, containerName, containerType) ← getRegisteredContainer handle
        if !(← get).checkObjectAccess containerType containerName cmd.command then error "access denied"
        else
          Prog.ofExcept (filterEnd lex cmd)
          if cmd.command = ascii "subscribe" then
            modify fun s => { s with subscriptions := s.subscriptions ++ [⟨container, handle, startOf cmd⟩] }
          -- `Unsubscribe` has an empty body
          success

/-- The last parameter of `set_permission`. -/
def ruleResult (allowOrDeny : Bytes) : Option RuleResult :=
  if allowOrDeny = ascii "allow" then some .allow
  else if allowOrDeny = ascii "deny" then some .deny
  else none

/-- `Exists` is asked inside of no handler of exceptions: the caller of the handlers answers. -/
def onCommandSetPermission (cmd : Command) : ServerM Reply := do
  match cmd.params with
  | objectType :: objectName :: command :: allowOrDeny :: token =>
    if 1 < token.length then error "invalid parameter count"
    else
      let objectType := (← get).manager.resolveAlias objectType
      match ruleResult allowOrDeny with
      | none => error "invalid permission type"
      | some rule =>
        match (ContainerManager.containerExists objectType objectName).run (← get).manager with
        | .undefined => Prog.undefined
        | .throws e _ => throw e
        | .ok found _ =>
          if !found then error "no such object"
          else
            match token with
            | token :: _ =>
              modify fun s => { s with auth := s.auth.addObjectRule objectType objectName command token rule }
              success
            | [] =>
              if command ≠ ascii "__default__" then error "no user specified"
              else
                modify fun s => { s with auth := s.auth.setObjectDefaultRule objectType objectName rule }
                success
  | _ => error "invalid parameter count"

/-- The handlers that look at the permissions of an object, and the others. -/
inductive Handler where
  | anyData
  | modify
  | pop
  | subscribeUnsubscribe
  | setPermission
  | other
  deriving DecidableEq, Repr

def dataCommands : List Bytes :=
  [ascii "push_back", ascii "push_front", ascii "set", ascii "insert", ascii "delete", ascii "get_property",
    ascii "set_property", ascii "get"]

def handlerOf (command : Bytes) : Handler :=
  if command ∈ dataCommands then .anyData
  else if command = ascii "modify" then .modify
  else if command = ascii "pop_back" ∨ command = ascii "pop_front" then .pop
  else if command = ascii "subscribe" ∨ command = ascii "unsubscribe" then .subscribeUnsubscribe
  else if command = ascii "set_permission" then .setPermission
  else .other

/-- The other handlers are parameters, with the answer to a command that has none: none of them asks for data. -/
def dispatch (others : Command → ServerM (List Answer)) (cmd : Command) : Handler → ServerM Reply
  | .anyData => onAnyDataCommand lex cmd
  | .modify => onModify lex cmd
  | .pop => onCommandPop lex cmd
  | .subscribeUnsubscribe => onCommandSubscribeUnsubscribe lex cmd
  | .setPermission => onCommandSetPermission cmd
  | .other => return { answers := ← others cmd }

/-- `OnTextCommand` -/
def onTextCommand (others : Command → ServerM (List Answer)) (cmd : Command) : ServerM Reply :=
  tryCatch (dispatch lex others cmd (handlerOf cmd.command)) fun e => answer (.error (ascii
    "internal error, handler functions not supposed to throw exceptions but I've got this one: " ++ e.what))

end TextServer

end Tiodb
