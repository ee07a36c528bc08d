import Tiodb.Server.BinaryCommands

/-!
# Calls of the C client

The functions of `tioclient.c` that ask the server for something: the request of each,
and what it does with the messages that it receives until it returns. A function that
waits stands in `tio_receive_until_not_event`, which hands it one message at a time. A
pointer to a `TIO_DATA` is `none` where it is null, and the output pointers are all given.
The calls on groups are left out, and so are network batches and the clusters, to which
`tio_create_or_open` turns with an error where it has them.
-/

namespace Tiodb.Binary

open Lib Query

/-- The commands of `tio_container_input_command`. -/
inductive InputCommand where
  | pushBack
  | pushFront
  | set
  | insert
  | delete
  | clear
  | propset
  | subscribe
  | unsubscribe
  | waitAndPopNext
  deriving DecidableEq, Repr

/-- The command of the function. -/
def InputCommand.commandId : InputCommand → Int32
  | pushBack => commandPushBack
  | pushFront => commandPushFront
  | set => commandSet
  | insert => commandInsert
  | delete => commandDelete
  | clear => commandClear
  | propset => commandPropset
  | subscribe => commandSubscribe
  | unsubscribe => commandUnsubscribe
  | waitAndPopNext => commandWaitAndPopNext

/-- The functions of `tioclient.h` that send one request and wait for its answer. -/
inductive Call where
  | ping (payload : Bytes)
  | createOrOpen (create : Bool) (name : Bytes) (type : Option Bytes)
  | close (handle : Int32)
  | inputCommand (command : InputCommand) (handle : Int32) (key value metadata : Option TioData)
  | popBack (handle : Int32)
  | popFront (handle : Int32)
  | get (handle : Int32) (searchKey : Option TioData)
  | propget (handle : Int32) (searchKey : Option TioData)
  | getCount (handle : Int32)
  | query (handle start stop : Int32) (regex : Option Bytes)
  deriving DecidableEq, Repr

/-- `tio_create` -/
def tioCreate (name : Bytes) (type : Option Bytes) : Call := .createOrOpen true name type

/-- `tio_open` -/
def tioOpen (name : Bytes) (type : Option Bytes) : Call := .createOrOpen false name type

section Containers

variable (handle : Int32) (key value metadata : Option TioData)

/-- `tio_container_propset`, and the functions after it that `tio_container_input_command` carries out. -/
def tioContainerPropset : Call := .inputCommand .propset handle key value none

def tioContainerPushBack : Call := .inputCommand .pushBack handle key value metadata

def tioContainerPushFront : Call := .inputCommand .pushFront handle key value metadata

def tioContainerSet : Call := .inputCommand .set handle key value metadata

def tioContainerInsert : Call := .inputCommand .insert handle key value metadata

def tioContainerClear : Call := .inputCommand .clear handle none none none

def tioContainerDelete : Call := .inputCommand .delete handle key none none

def tioContainerSubscribe (start : Option TioData) : Call := .inputCommand .subscribe handle start none none

def tioContainerUnsubscribe : Call := .inputCommand .unsubscribe handle none none none

def tioContainerWaitAndPopNext : Call := .inputCommand .waitAndPopNext handle none none none

end Containers

/-! ## The requests -/

/-- `tio_generate_data_message`: what is `NULL` has no field. -/
def tioGenerateDataMessage (command handle : Int32) (key value metadata : Option TioData) : Query.Fields :=
  [(fieldCommand, .int command), (fieldHandle, .int handle)] ++ (key.map fun d => (fieldKey, d)).toList ++
    (value.map fun d => (fieldValue, d)).toList ++ (metadata.map fun d => (fieldMetadata, d)).toList

/-- `tio_generate_create_or_open_msg` -/
def tioGenerateCreateOrOpenMsg (command : Int32) (name : Bytes) (type : Option Bytes) : Query.Fields :=
  [(fieldCommand, .int command), (fieldName, .string (cstr name))] ++
    (type.map fun type => (fieldType, .string (cstr type))).toList

/-- The message that the function sends. -/
def Call.request : Call → Query.Fields
  | ping payload => [(fieldCommand, .int commandPing), (fieldValue, .string (cstr payload))]
  | createOrOpen create name type =>
    tioGenerateCreateOrOpenMsg (if create then commandCreate else commandOpen) name type
  | close handle => [(fieldCommand, .int commandClose), (fieldHandle, .int handle)]
  | inputCommand command handle key value metadata =>
    tioGenerateDataMessage command.commandId handle key value metadata
  | popBack handle => tioGenerateDataMessage commandPopBack handle none none none
  | popFront handle => tioGenerateDataMessage commandPopFront handle none none none
  | get handle searchKey => tioGenerateDataMessage commandGet handle searchKey none none
  | propget handle searchKey => tioGenerateDataMessage commandPropget handle searchKey none none
  | getCount handle => tioGenerateDataMessage commandCount handle none none none
  | query handle start stop regex => Query.request handle start stop (regex.map cstr)

/-! ## The answers -/

/-- What a function returns, with what it puts behind its pointers. `description` is what it leaves for
`pr1_get_last_error_description`, if it does. The records of a query went to the callback. -/
inductive Result where
  | failed (error : Int32) (description : Option Bytes)
  | success
  | container (handle : Int32)
  | record (key value metadata : TioData)
  | value (value : TioData)
  | count (count : Int32)
  | queried (queryId : Int32) (records : List Record)
  deriving DecidableEq, Repr

/-- Queries are numbered in another order than they read the containers, so no order of the calls says the number. -/
def Result.unnumbered : Result → Result
  | queried _ records => .queried 0 records
  | r => r

/-- A function that waits for a message, with its local variables. -/
inductive Waiting where
  | ping (payload : Bytes)
  | createOrOpen
  | response
  | data
  | value
  | count
  | query
  | items (queryId : Int32) (records : List Record)
  deriving DecidableEq, Repr

/-- What the function waits for when it has sent its request. -/
def Call.waiting : Call → Waiting
  | ping payload => .ping (cstr payload)
  | createOrOpen _ _ _ => .createOrOpen
  | close _ => .response
  | inputCommand _ _ _ _ _ => .response
  | popBack _ => .data
  | popFront _ => .data
  | get _ _ => .data
  | propget _ _ => .value
  | getCount _ => .count
  | query _ _ _ _ => .query

/-- What a message does to a function: it waits for another one, or returns. -/
inductive Turn where
  | waits (w : Waiting)
  | ends (r : Result)
  deriving DecidableEq, Repr

/-- `MAX_ERROR_DESCRIPTION_SIZE` -/
def maxErrorDescriptionSize : Nat := 255

/-- `pr1_message_get_error_code`, with the description that it copies. A message without a code is a success. -/
def getErrorCode (m : Query.Fields) : Option (Int32 × Option Bytes) :=
  match fieldFindById m fieldErrorCode with
  | none => some (0, none)
  | some code => (fieldGetInt code).map fun code =>
    (code, some ((fieldFindById m fieldErrorDesc).elim [] fun d => (Pr1.raw d).take maxErrorDescriptionSize))

/-- What a function does with a response, unless it is an error. -/
def unlessFailed (m : Query.Fields) (next : Option Turn) : Option Turn :=
  match getErrorCode m with
  | none => none
  | some (code, description) => if code < 0 then some (.ends (.failed code description)) else next

/-- What a function does with the message that it waited for. `none` is a read past the end of a field, and a query
whose answer has no id: it frees data that it did not initialize. -/
def onResponse (m : Query.Fields) : Waiting → Option Turn
  | .ping payload =>
    match fieldFindById m fieldValue with
    | none => some (.ends (.failed errorProtocol none))
    | some value => some (.ends (if Pr1.raw value = payload then .success else .failed errorProtocol none))
  | .createOrOpen => unlessFailed m <|
    match fieldFindById m fieldHandle with
    | none => some (.ends (.failed errorMissingParameter none))
    | some handle => (fieldGetInt handle).map fun handle => .ends (.container handle)
  | .response => unlessFailed m (some (.ends .success))
  | .data => unlessFailed m <| some <| .ends <|
    .record (fieldGetAsTioData m fieldKey) (fieldGetAsTioData m fieldValue) (fieldGetAsTioData m fieldMetadata)
  | .value => unlessFailed m (some (.ends (.value (fieldGetAsTioData m fieldValue))))
  | .count => unlessFailed m <| some <| .ends <|
    match fieldGetAsTioData m fieldValue with
    | .int count => .count count
    | _ => .failed errorGeneric (some (ascii "Expected count_value.data_type to be INT. It is not."))
  | .query => (answerQueryId m).map fun queryId => .waits (.items queryId [])
  | .items queryId records => some <| match itemOf m with
    | .noItem => .ends (.failed errorProtocol none)
    | .last => .ends (.queried queryId records)
    | .record r => .waits (.items queryId (records ++ [r]))

/-- What it does where the message has no command, which `tio_receive_until_not_event` says is an error. -/
def onMissingCommand : Waiting → Option Turn
  | .query => none
  | _ => some (.ends
    (.failed errorProtocol (some (ascii "Missing field MESSAGE_FIELD_ID_COMMAND on the received packet"))))

/-! ## The same call without messages -/

/-- What a command does to the container. The last three do nothing to it. -/
def InputCommand.change (command : InputCommand) (key value metadata : TioData) : Container.ContainerM Unit :=
  match command with
  | pushBack => Container.pushBack key value metadata
  | pushFront => Container.pushFront key value metadata
  | set => Container.set key value metadata
  | insert => Container.insert key value metadata
  | delete => Container.delete key value metadata
  | clear => Container.clear
  | propset => DataCommand.setProperty key value
  | subscribe | unsubscribe | waitAndPopNext => pure ()

variable (regex : Bytes → Except Exc (Bytes → Bool)) (session : Nat)

/-- The container of a handle. -/
def containerOf (handle : Int32) : ServerM Nat :=
  if handle = 0 then throw (runtimeError "handle?") else getRegisteredContainer session handle.toUInt32

/-- The records of a query that are shown: with an expression those whose key is a string that matches, and no more
than `stop`, where 0 is no bound. -/
def shown (stop : Int32) (keyMatches : Option (Bytes → Bool)) (records : List Record) : List Record :=
  (records.filter fun r => keyMatches.all fun e => match r.key with
    | .string k => e (cstr k)
    | _ => false).take (if stop.toUInt32 = 0 then 0xFFFFFFFF else stop.toUInt32).toNat

/-- The call on the containers of the server itself, where nothing numbers a query. -/
def Call.perform : Call → ServerM Result
  | ping _ => return .success
  | createOrOpen create name type =>
    let type := (type.map cstr).getD []
    if create ∧ type = [] then
      return .failed errorMissingParameter
        (some (ascii "must inform type on container creation (MESSAGE_FIELD_ID_TYPE)"))
    else do
      let container ← onManager
        (if create then ContainerManager.createContainer type (cstr name)
          else ContainerManager.openContainer type (cstr name))
      let handle ← registerContainer session (cstr name) container
      return .container handle.toInt32
  | close handle => do
    closeContainerHandle session handle.toUInt32
    return .success
  | inputCommand .subscribe handle _ _ _ => do
    let _ ← containerOf session handle
    return .success
  | inputCommand .unsubscribe _ _ _ _ => return .success
  | inputCommand .waitAndPopNext _ _ _ _ => return .failed errorProtocol (some (ascii "invalid command"))
  | inputCommand command handle key value metadata => do
    let container ← containerOf session handle
    onContainer container (command.change (key.getD .none) (value.getD .none) (metadata.getD .none))
    return .success
  | popBack handle => do
    let container ← containerOf session handle
    let record ← onContainer container Container.popBack
    return .record record.key record.value record.metadata
  | popFront handle => do
    let container ← containerOf session handle
    let record ← onContainer container Container.popFront
    return .record record.key record.value record.metadata
  | get handle searchKey => do
    let container ← containerOf session handle
    let record ← onContainer container (Container.getRecord (searchKey.getD .none))
    return .record record.key record.value record.metadata
  | propget handle searchKey => do
    let container ← containerOf session handle
    let key ← Prog.ofExcept (searchKey.getD .none).asSz
    let value ← onContainer container (Container.getProperty key)
    return .value (.string value)
  | getCount handle => do
    let container ← containerOf session handle
    let count ← onContainer container Container.getRecordCount
    return .count (Int32.ofNat count)
  | query handle start stop expression => do
    let container ← containerOf session handle
    let expression := (expression.map cstr).getD []
    if expression = [] then
      let records ← onContainer container (Container.query start stop .none)
      return .queried 0 (shown stop none records)
    else
      let e ← Prog.ofExcept (regex expression)
      let records ← onContainer container (Container.query 0 0 .none)
      return .queried 0 (shown stop (some e) records)

/-- What the function returns for an exception. A ping does not look for the error. -/
def Call.thrown (e : Exc) : Call → Result
  | ping _ => .failed errorProtocol none
  | _ => .failed errorProtocol (some ((cstr e.what).take maxErrorDescriptionSize))

/-- The result of the function, if the server did what it asks for on its own. -/
def Call.result (call : Call) (s : Server) : Option (Result × Server) :=
  match (call.perform regex session).run s with
  | .ok r s' => some (r, s')
  | .throws e s' => some (call.thrown e, s')
  | .undefined => none

end Tiodb.Binary
