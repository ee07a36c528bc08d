import Mathlib.Logic.Function.Basic
import Tiodb.Lib.Machine
import Tiodb.Server.Sessions

/-!
# The container table of a client connection

`connection->containers` of `tioclient.c`: `register_container` writes it for the
answer to `tio_create` and `tio_open` and for the messages about group containers,
`tio_close` clears it, and `tio_dispatch_pending_events` looks each event up in it.
The other end is a session of the server with its handle table. What the server sends
is read in order, also while the client waits for an answer.
-/

namespace Tiodb.Client.Table

open Lib

/-- `TIO_CONTAINER`. A callback is a number, and so is a cookie. -/
structure Container where
  handle : Int32
  eventCallback : Option Nat := none
  subscriptionCookie : Nat := 0
  waitAndPopNextCallback : Option Nat := none
  waitAndPopNextCookie : Nat := 0
  groupName : Option Bytes
  name : Bytes
  deriving DecidableEq, Repr

/-- The code of an event message. -/
inductive EventCode where
  | waitAndPopNext
  | of (code : ContainerEventCode)
  deriving DecidableEq, Repr

/-- The fields of an event message. -/
structure EventMessage where
  handle : Int32
  eventCode : EventCode
  key : TioData
  value : TioData
  metadata : TioData
  deriving DecidableEq, Repr

/-- What a callback is called with. -/
structure Invocation where
  callback : Nat
  container : Nat
  cookie : Nat
  groupName : Option Bytes
  name : Bytes
  event : EventMessage
  deriving DecidableEq, Repr

/-- Where the behaviour of the client ends to be defined. -/
inductive Fault where
  | nullEntry (handle : Int32)
  | freedEntry (handle : Int32)
  | outOfBounds (handle : Int32)
  | overflow
  deriving DecidableEq, Repr

/-- `containers` is as long as `containers_buffer_size`. The containers of the client are numbered in the order of
their `malloc`, and `heap` has those that were not freed. `invoked` is history. -/
structure Connection where
  containers : List (Option Nat)
  heap : Nat → Option Container
  mallocs : Nat
  pendingEvents : List EventMessage
  maxPendingEventCount : Nat
  groupEventCallback : Option Nat
  groupEventCookie : Nat
  invoked : List Invocation
  fault : Option Fault

namespace Connection

/-- What `tio_connect` makes, before it opens the first container. -/
def tioConnect : Connection where
  containers := List.replicate 64 none
  heap := fun _ => none
  mallocs := 0
  pendingEvents := []
  maxPendingEventCount := 0
  groupEventCallback := none
  groupEventCookie := 0
  invoked := []
  fault := none

/-- The entry of a handle is written, if the table has it. -/
def setEntry (s : Connection) (handle : Int32) (entry : Option Nat) : Connection :=
  if 0 ≤ handle ∧ handle.toNatClampNeg < s.containers.length then
    { s with containers := s.containers.set handle.toNatClampNeg entry }
  else { s with fault := some (.outOfBounds handle) }

/-- `handle * 2` is computed as an `int`. -/
def growContainers (s : Connection) (handle : Int32) : Connection :=
  if handle.toInt < s.containers.length then s
  else if 2 ^ 31 ≤ handle.toInt * 2 then { s with fault := some .overflow }
  else { s with containers :=
    s.containers ++ List.replicate (handle.toNatClampNeg * 2 - s.containers.length) none }

/-- `none` is the missing handle, an error before anything is written. The entry that is there is not looked at. -/
def registerContainer (s : Connection) (handle : Option Int32) (name : Bytes) (groupName : Option Bytes) :
    Connection :=
  match handle with
  | none => s
  | some handle =>
    let container : Container := { handle, groupName, name }
    let s := { s with heap := Function.update s.heap s.mallocs (some container), mallocs := s.mallocs + 1 }
    let s := s.growContainers handle
    if s.fault.isSome then s else s.setEntry handle (some (s.mallocs - 1))

/-- The container that the entry of the handle leads to. The client checks neither. -/
def lookup (s : Connection) (handle : Int32) : Except Fault (Nat × Container) :=
  if 0 ≤ handle then
    match s.containers[handle.toNatClampNeg]? with
    | none => .error (.outOfBounds handle)
    | some none => .error (.nullEntry handle)
    | some (some i) =>
      match s.heap i with
      | none => .error (.freedEntry handle)
      | some container => .ok (i, container)
  else .error (.outOfBounds handle)

/-- The callback for an event, and its cookie. -/
def target (s : Connection) (container : Container) : EventCode → Option Nat × Nat
  | .waitAndPopNext => (container.waitAndPopNextCallback, container.waitAndPopNextCookie)
  | .of _ =>
    if container.groupName = none then (container.eventCallback, container.subscriptionCookie)
    else (s.groupEventCallback, s.groupEventCookie)

/-- The callback of the container is called, if it has one. -/
def dispatchEvent (s : Connection) (e : EventMessage) : Connection :=
  match s.lookup e.handle with
  | .error fault => { s with fault := some fault }
  | .ok (i, container) =>
    match s.target container e.eventCode with
    | (none, _) => s
    | (some callback, cookie) =>
      { s with invoked := s.invoked ++ [⟨callback, i, cookie, container.groupName, container.name, e⟩] }

def dispatchEvents (s : Connection) : List EventMessage → Connection
  | [] => s
  | e :: es =>
    let s := s.dispatchEvent e
    if s.fault.isSome then s else s.dispatchEvents es

/-- `tio_dispatch_pending_events` -/
def tioDispatchPendingEvents (s : Connection) (maxEvents : Nat) : Connection :=
  { s with pendingEvents := s.pendingEvents.drop maxEvents }.dispatchEvents (s.pendingEvents.take maxEvents)

/-- `on_event_receive`: the event is queued, and all of them are dispatched once there are too many. -/
def onEventReceive (s : Connection) (e : EventMessage) : Connection :=
  let s := { s with pendingEvents := s.pendingEvents ++ [e] }
  if s.maxPendingEventCount ≤ s.pendingEvents.length then s.tioDispatchPendingEvents 0xFFFFFFFF else s

/-- The fields of a container are written. -/
def modifyContainer (s : Connection) (i : Nat) (f : Container → Container) : Connection :=
  { s with heap := Function.update s.heap i ((s.heap i).map f) }

/-- `free` of a container. -/
def free (s : Connection) (i : Nat) : Connection := { s with heap := Function.update s.heap i none }

/-- The end of `tio_close`: the entry is cleared on success, and the container is freed. -/
def tioCloseAnswered (s : Connection) (i : Nat) (handle : Int32) (failed : Bool) : Connection :=
  if failed then s.free i else (s.setEntry handle none).free i

def tioContainerSubscribeAnswered (s : Connection) (i : Nat) (callback : Option Nat) (cookie : Nat) (failed : Bool) :
    Connection :=
  if failed then s
  else s.modifyContainer i fun c => { c with eventCallback := callback, subscriptionCookie := cookie }

end Connection

/-! ## The client and its session -/

/-- What the client looks for in an answer. -/
structure Answer where
  failed : Bool
  handle : Option Int32 := none
  deriving DecidableEq, Repr

inductive Message where
  | event (e : EventMessage)
  | newGroupContainer (handle : Int32) (groupName name : Bytes)
  | answer (a : Answer)
  deriving DecidableEq, Repr

/-- What the session is asked for. -/
inductive Request where
  | createOrOpen (name : Bytes)
  | close (handle : Int32)
  | other
  deriving DecidableEq, Repr

/-- A function of the client that waits for its answer, with its local variables. -/
inductive Call where
  | createOrOpen (name : Bytes)
  | close (container : Nat) (handle : Int32)
  | subscribe (container : Nat) (callback : Option Nat) (cookie : Nat)
  | other
  deriving DecidableEq, Repr

/-- `wire` is what the session sent and the client did not read. `groupContainers` are those that the session
registered for a group, and will tell the client of. The rest is history: the handles that were told to the client
once, those that were told and not closed since, and what `tio_container_subscribe` installed. -/
structure Conversation where
  session : Session
  groupContainers : List (Int32 × Bytes × Bytes)
  wire : List Message
  request : Option Request
  call : Option Call
  connection : Connection
  announced : List Int32
  opened : List Int32
  installed : Nat → Option (Nat × Nat)

/-- What the program calls, what the session does, and that the client reads. -/
inductive Step where
  | tioCreateOrOpen (name : Bytes)
  | tioClose (container : Nat)
  | tioContainerSubscribe (container : Nat) (callback : Option Nat) (cookie : Nat)
  | tioContainerUnsubscribe (container : Nat)
  | tioContainerWaitAndPopNext (container : Nat) (callback : Option Nat) (cookie : Nat)
  | tioGroupSetSubscriptionCallback (callback : Option Nat) (cookie : Nat)
  | otherCommand
  | tioDispatchPendingEvents (maxEvents : Nat)
  | receive
  | serve (container : Option UInt64)
  | registerNewGroupContainer (groupName name : Bytes) (container : UInt64)
  | publishNewGroupContainer
  | publishEvent (handle : Int32) (code : EventCode) (k v m : TioData)
  deriving DecidableEq, Repr

namespace Conversation

def start : Conversation where
  session := { binaryProtocol := true }
  groupContainers := []
  wire := []
  request := none
  call := none
  connection := .tioConnect
  announced := []
  opened := []
  installed := fun _ => none

/-- A function of the client sends its request. -/
def send (s : Conversation) (call : Call) (request : Request) : Conversation :=
  { s with call := some call, request := some request }

/-- The container that the caller of a function passes, which the caller did not close. -/
def container? (s : Conversation) (i : Nat) : Option Container := s.connection.heap i

/-- The answer came: what the function that waits does before it returns. -/
def answered (s : Conversation) (a : Answer) : Conversation :=
  match s.call with
  | none => s
  | some call =>
    let s := { s with call := none }
    match call with
    | .createOrOpen name =>
      if a.failed then s else { s with connection := s.connection.registerContainer a.handle name none }
    | .close i handle =>
      { s with
        connection := s.connection.tioCloseAnswered i handle a.failed
        installed := Function.update s.installed i none }
    | .subscribe i callback cookie =>
      { s with
        connection := s.connection.tioContainerSubscribeAnswered i callback cookie a.failed
        installed := if a.failed then s.installed
          else Function.update s.installed i (callback.map fun callback => (callback, cookie)) }
    | .other => s

def received (s : Conversation) : Message → Conversation
  | .event e => { s with connection := s.connection.onEventReceive e }
  | .newGroupContainer handle groupName name =>
    { s with connection := s.connection.registerContainer (some handle) name (some groupName) }
  | .answer a => s.answered a

def announce (s : Conversation) (handle : Int32) (m : Message) : Conversation :=
  { s with wire := s.wire ++ [m], announced := handle :: s.announced, opened := handle :: s.opened }

variable (getName : UInt64 → Bytes)

/-- The session handles a request. `none` for the container is an exception, which is answered with an error. -/
def served (s : Conversation) (request : Request) (container : Option UInt64) : Conversation :=
  let s := { s with request := none }
  match request, container with
  | .createOrOpen name, some container =>
    let r := s.session.registerContainer name container
    { s with session := r.2 }.announce r.1.toInt32 (.answer ⟨false, some r.1.toInt32⟩)
  | .close handle, some _ =>
    match s.session.closeContainerHandle getName handle.toUInt32 with
    | some session =>
      { s with
        session
        wire := s.wire ++ [.answer ⟨false, none⟩]
        opened := s.opened.filter (· ≠ handle) }
    | none => { s with wire := s.wire ++ [.answer ⟨true, none⟩] }
  | .other, some _ => { s with wire := s.wire ++ [.answer ⟨false, none⟩] }
  | _, none => { s with wire := s.wire ++ [.answer ⟨true, none⟩] }

/-- The client calls one function at a time, and passes containers that are not freed. -/
def call? (s : Conversation) : Step → Option Conversation
  | .tioCreateOrOpen name => some (s.send (.createOrOpen name) (.createOrOpen name))
  | .tioClose i => (s.container? i).map fun c => s.send (.close i c.handle) (.close c.handle)
  | .tioContainerSubscribe i callback cookie =>
    (s.container? i).map fun _ => s.send (.subscribe i callback cookie) .other
  | .tioContainerUnsubscribe i =>
    (s.container? i).map fun _ =>
      { s with
        connection := s.connection.modifyContainer i fun c => { c with eventCallback := none, subscriptionCookie := 0 }
        installed := Function.update s.installed i none }.send .other .other
  | .tioContainerWaitAndPopNext i callback cookie =>
    (s.container? i).map fun _ =>
      { s with connection := s.connection.modifyContainer i fun c =>
        { c with waitAndPopNextCallback := callback, waitAndPopNextCookie := cookie } }.send .other .other
  | .tioGroupSetSubscriptionCallback callback cookie =>
    some { s with connection := { s.connection with groupEventCallback := callback, groupEventCookie := cookie } }
  | .otherCommand => some (s.send .other .other)
  | .tioDispatchPendingEvents maxEvents =>
    some { s with connection := s.connection.tioDispatchPendingEvents maxEvents }
  | _ => none

def step (s : Conversation) (a : Step) : Option Conversation :=
  if s.connection.fault.isSome then none
  else
    match a with
    | .receive =>
      match s.wire with
      | [] => none
      | m :: wire => some ({ s with wire }.received m)
    | .serve container => s.request.map fun request => s.served getName request container
    | .registerNewGroupContainer groupName name container =>
      let r := s.session.registerNewGroupContainer groupName name container
      some { s with
        session := r.2
        groupContainers := s.groupContainers ++ [(r.1.toInt32, groupName, name)] }
    | .publishNewGroupContainer =>
      match s.groupContainers with
      | [] => none
      | (handle, groupName, name) :: groupContainers =>
        some ({ s with groupContainers }.announce handle (.newGroupContainer handle groupName name))
    | .publishEvent handle code k v m =>
      if handle ∈ s.announced then some { s with wire := s.wire ++ [.event ⟨handle, code, k, v, m⟩] } else none
    | a => if s.call.isSome then none else s.call? a

end Conversation

end Tiodb.Client.Table
