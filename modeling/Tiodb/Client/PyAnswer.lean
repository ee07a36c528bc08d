import Tiodb.Client.PyDispatch
import Tiodb.Protocol.TextEvents

/-!
# Answers of the Python client

`ReceiveAnswer` of `tioclient.py`, with the calls that wait for it. No call has a
timeout.
-/

namespace Tiodb.Python

open Lib
open Text (PyData PyFields lineEnd pyInt pyValue splitLine)

/-! ## Functions -/

/-- The dictionaries and tuples that `ReceiveAnswer` returns. -/
inductive PyAnswer where
  | none
  | pong (text : Bytes)
  | handle (handle type : Bytes)
  | diff (diffType diffHandle : Bytes)
  | parameter (type value : Bytes)
  | data (fields : PyFields)
  | diffLine (diffType diffHandle : Bytes)
  | query (items : List PyFields)
  deriving DecidableEq

/-- `TioServerConnection`. `sent` is history. -/
structure ServerConnection where
  events : EventConnection PyData
  groupSinks : Bytes → Option Sink := fun _ => none
  runningQueries : Bytes → Option (List PyFields) := fun _ => none
  waitForAnswers : Bool := true
  pendingAnswersCount : Nat := 0
  sent : List Bytes := []

namespace ServerConnection

def registerQuery (c : ServerConnection) (queryId : Bytes) : ServerConnection :=
  { c with runningQueries := Function.update c.runningQueries queryId (some []) }

/-- `none` is a `KeyError`. -/
def addToQuery (c : ServerConnection) (queryId : Bytes) (data : PyFields) : Option ServerConnection :=
  (c.runningQueries queryId).map fun items =>
    { c with runningQueries := Function.update c.runningQueries queryId (some (items ++ [data])) }

def finishQuery (c : ServerConnection) (queryId : Bytes) : Option (List PyFields × ServerConnection) :=
  (c.runningQueries queryId).map fun items =>
    (items, { c with runningQueries := Function.update c.runningQueries queryId none })

/-- `HandleEvent`, with the data that the event has then. -/
def handleEvent (c : ServerConnection) (handle : Int) (name : Bytes) (fields : PyFields) : ServerConnection :=
  { c with
    events :=
      { c.events.handleEvent ⟨c.events.received, handle, name, fields.key, fields.value, fields.metadata⟩ with
        received := c.events.received + 1 } }

/-- The container of a group that is new, and the sink of the group. -/
def addContainer (c : ServerConnection) (handle : Int) (type name : Bytes) : ServerConnection :=
  { c with
    events := { c.events with containers := Function.update c.events.containers handle (some ⟨handle, type, name⟩) } }

def addSink (c : ServerConnection) (handle : Int) (sink : Sink) : ServerConnection :=
  let sinks := (c.events.sinks handle).getD fun _ => none
  let sinks := Function.update sinks (ascii "*") (some ((sinks (ascii "*")).getD [] ++ [sink]))
  { c with events := { c.events with sinks := Function.update c.events.sinks handle (some sinks) } }

end ServerConnection

section Receive

variable (toDecimal : Bytes → Option Rat)

/-- What a turn of the loop leaves: the connection, and what is returned or raised if the loop ends. -/
abbrev Turn := ServerConnection × Option (Except PyError PyAnswer)

/-- The answers that have all they say in the line. `none` is any other one. -/
def lineAnswer : List Bytes → Option (Except PyError PyAnswer)
  | [] => some (.ok .none)
  | parameterType :: params =>
    if parameterType = [] then some (.ok .none)
    else if parameterType = ascii "pong" then some (.ok (.pong (List.intercalate [32] (parameterType :: params))))
    else if parameterType = ascii "handle" then
      match params with
      | handle :: type :: _ => some (.ok (.handle handle type))
      | _ => some (.error .index)
    else if parameterType = ascii "diff_map" ∨ parameterType = ascii "diff_list" then
      match params with
      | diffHandle :: _ => some (.ok (.diff parameterType diffHandle))
      | [] => some (.error .index)
    else if parameterType = ascii "count" ∨ parameterType = ascii "name" then
      match params with
      | value :: _ => some (.ok (.parameter parameterType value))
      | [] => some (.error .index)
    else none

/-- The words after `answer ok`. -/
def onOk (c : ServerConnection) (params : List Bytes) : PyM Turn :=
  match lineAnswer params, params with
  | some r, _ => pure (c, some r)
  | none, [] => pure (c, none)
  | none, parameterType :: params =>
    if parameterType = ascii "data" then do
      let r ← receiveDataAnswer toDecimal params {}
      pure (c, some (r.map .data))
    else if parameterType = ascii "query" then
      match params with
      | queryId :: _ => pure (c.registerQuery queryId, none)
      | [] => pure (c, some (.error .index))
    else pure (c, some (.error (.exception (ascii "invalid parameter type: " ++ parameterType))))

/-- The words after `query`. -/
def onQuery (c : ServerConnection) : List Bytes → PyM Turn
  | queryId :: what :: params =>
    if what = ascii "item" then do
      match ← receiveDataAnswer toDecimal params {} with
      | .error e => pure (c, some (.error e))
      | .ok data =>
        match c.addToQuery queryId data with
        | some c => pure (c, none)
        | none => pure (c, some (.error .key))
    else if what = ascii "end" then
      match c.finishQuery queryId with
      | some (items, c) => pure (c, some (.ok (.query items)))
      | none => pure (c, some (.error .key))
    else pure (c, none)
  | _ => pure (c, some (.error .index))

def onGroupContainer (c : ServerConnection) : List Bytes → Turn
  | [groupName, containerName, containerType, containerHandle] =>
    match pyInt containerHandle with
    | none => (c, some (.error .value))
    | some handle =>
      let c := c.addContainer handle containerType containerName
      match c.groupSinks groupName with
      | some sink => (c.addSink handle sink, none)
      | none => (c, some (.error .key))
  | _ => (c, some (.error .value))

/-- The words after `event`. An event whose data cannot be read waits without them. -/
def onEvent (waitUntilAnswer : Bool) (c : ServerConnection) : List Bytes → PyM Turn
  | [] => pure (c, some (.error .index))
  | handle :: params =>
    match pyInt handle, params with
    | none, _ => pure (c, some (.error .value))
    | some _, [] => pure (c, some (.error .index))
    | some handle, name :: params =>
      let left := if waitUntilAnswer then none else some (.ok .none)
      if name = ascii "clear" ∨ name = ascii "snapshot_end" then pure (c.handleEvent handle name {}, left)
      else do
        match ← receiveDataAnswer toDecimal params {} with
        | .ok fields => pure (c.handleEvent handle name fields, left)
        | .error e => pure (c.handleEvent handle name {}, some (.error e))

/-- A line of the loop of `ReceiveAnswer`, with what belongs to it. -/
def onLine (waitUntilAnswer : Bool) (c : ServerConnection) (line : Bytes) : PyM Turn :=
  match line.splitOn 32 with
  | [] => pure (c, none)
  | answerType :: params =>
    if answerType = ascii "answer" then
      match params with
      | [] => pure (c, some (.error .index))
      | answerResult :: params =>
        if answerResult = ascii "ok" then onOk toDecimal c params else pure (c, some (.error (.exception line)))
    else if answerType = ascii "diff_list" ∨ answerType = ascii "diff_map" then
      match params with
      | diffHandle :: _ => pure (c, some (.ok (.diffLine answerType diffHandle)))
      | [] => pure (c, some (.error .index))
    else if answerType = ascii "query" then onQuery toDecimal c params
    else if answerType = ascii "group_container" then pure (onGroupContainer c params)
    else if answerType = ascii "event" then onEvent toDecimal waitUntilAnswer c params
    else pure (c, none)

/-- `ReceiveAnswer`, for at most so many lines. -/
def receiveAnswer (waitUntilAnswer : Bool) :
    Nat → ServerConnection → PyM (ServerConnection × Except PyError PyAnswer)
  | 0, _ => Calling.stuck
  | lines + 1, c => do
    let line ← Calling.ask StreamCall.receiveLine
    match ← onLine toDecimal waitUntilAnswer c line with
    | (c, some r) => pure (c, r)
    | (c, none) => receiveAnswer waitUntilAnswer lines c

end Receive

end Tiodb.Python
