import Mathlib.Logic.Function.Basic
import Tiodb.Data
import Tiodb.Lib.Machine

/-!
# The publisher thread

`PublisherThread`, `OnAnyContainerEvent` and `SessionAsyncSubscribe` of
`TioTcpServer.cpp`. The containers are of any type that can be queried: the
publisher sees nothing else of them. A container is named by the id of its
storage, which no two containers share.
-/

namespace Tiodb

open Lib

/-- What the publisher asks of a container. A `none` result of `query` is a call that does not return. -/
structure ContainerOps (C : Type) where
  name : C → Bytes
  type : C → Bytes
  query : C → Int32 → Int32 → Option (Except Exc (List Record))

/-- `SubscriptionInfo`, with the session that it leads to. -/
structure SubscriptionInfo where
  groupName : Bytes
  container : UInt64
  handle : UInt32
  session : Nat
  start : Bytes
  snapshotPending : Bool
  deriving DecidableEq, Repr

/-- `EventInfo`: an event in the queue, with the storage that it is of. -/
structure EventInfo where
  storageId : UInt64
  event : Event
  deriving DecidableEq, Repr

/-- What a session is asked to send. Snapshot records go out as events, like any other event. -/
inductive Message where
  | newGroupContainer (groupName name type : Bytes)
  | snapshot (e : Event)
  | event (e : Event)
  deriving DecidableEq, Repr

/-- A message handed to a session for the subscription at index `sub` of its storage. -/
structure Delivery where
  seq : Nat
  storageId : UInt64
  sub : Nat
  session : Nat
  handle : UInt32
  message : Message
  deriving DecidableEq, Repr

/-- `published` and `sent` are history: the entries that are done, and what was handed to the sessions. -/
structure Publisher (C : Type) where
  containers : UInt64 → C
  subscribers : UInt64 → Option (List SubscriptionInfo)
  eventQueue : List EventInfo
  localEventQueue : List EventInfo
  alive : Nat → Bool
  published : List EventInfo
  sent : List Delivery

namespace Publisher

variable {C : Type} (ops : ContainerOps C) (numericStart : Bytes → Int32)

def init (containers : UInt64 → C) (alive : Nat → Bool) : Publisher C :=
  ⟨containers, fun _ => none, [], [], alive, [], []⟩

/-- `IsMapContainer` -/
def isMapContainer (c : C) : Bool :=
  ops.type c = ascii "volatile_map" || ops.type c = ascii "persistent_map"

/-- `OnAnyContainerEvent`: what nobody has subscribed is not queued. -/
def onAnyContainerEvent (p : Publisher C) (ei : EventInfo) : Publisher C :=
  match p.subscribers ei.storageId with
  | none => p
  | some _ => { p with eventQueue := p.eventQueue ++ [ei] }

/-- The marker that makes the publisher serve a new subscription. -/
def snapshotEnd : Event := ⟨.snapshotEnd, .none, .none, .none⟩

/-- `SessionAsyncSubscribe`: the marker is queued before the subscription is stored. -/
def sessionAsyncSubscribe (p : Publisher C) (s : SubscriptionInfo) : Publisher C :=
  { p with
    eventQueue := p.eventQueue ++ [⟨s.container, snapshotEnd⟩]
    subscribers := Function.update p.subscribers s.container
      (some ((p.subscribers s.container).getD [] ++ [s])) }

/-- A record is sent as the event that would have made it. -/
def snapshotMessages (code : ContainerEventCode) (rs : List Record) : List Message :=
  rs.map (fun r => .snapshot ⟨code, r.key, r.value, r.metadata⟩) ++ [.snapshot snapshotEnd]

/-- The announcement of a container of a group. -/
def groupMessages (s : SubscriptionInfo) (c : C) : List Message :=
  if s.groupName = [] then [] else [.newGroupContainer s.groupName (ops.name c) (ops.type c)]

/-- The publisher reaches a marker: a pending subscription gets its snapshot. -/
def publishSnapshot (p : Publisher C) (s : SubscriptionInfo) :
    Option (SubscriptionInfo × List Message) :=
  if !s.snapshotPending then some (s, [])
  -- start empty = no snapshot
  else if s.start = [] then some ({ s with snapshotPending := false }, [])
  else if !p.alive s.session then some (s, [])
  else
    let c := p.containers s.container
    match ops.query c (numericStart s.start) 0 with
    | none => none
    | some (.error _) => some ({ s with snapshotPending := false }, [])
    | some (.ok resultSet) =>
      let code := if isMapContainer ops c then ContainerEventCode.set else .pushBack
      some ({ s with snapshotPending := false }, groupMessages ops s c ++ snapshotMessages code resultSet)

/-- A subscription that waits for its snapshot gets no event yet. -/
def publishEvent (p : Publisher C) (e : Event) (s : SubscriptionInfo) : SubscriptionInfo × List Message :=
  if s.snapshotPending || !p.alive s.session then (s, []) else (s, [.event e])

/-- The body of both loops over `interestedSubscribers`. -/
def notify (p : Publisher C) (e : Event) (s : SubscriptionInfo) :
    Option (SubscriptionInfo × List Message) :=
  if e.code = .snapshotEnd then publishSnapshot ops numericStart p s else some (publishEvent p e s)

/-- What goes to each subscription, with the turn of the queue in which it goes. -/
def deliveries (seq : Nat) (storageId : UInt64) (rs : List (SubscriptionInfo × List Message)) :
    List Delivery :=
  rs.zipIdx.flatMap fun (r, i) => r.2.map fun m => ⟨seq, storageId, i, r.1.session, r.1.handle, m⟩

/-- One turn of `PublisherThread`. -/
def publish (p : Publisher C) (ei : EventInfo) : Option (Publisher C) :=
  match p.subscribers ei.storageId with
  | none => some { p with published := p.published ++ [ei] }
  | some interestedSubscribers =>
    (interestedSubscribers.mapM (notify ops numericStart p ei.event)).map fun rs =>
      { p with
        subscribers := Function.update p.subscribers ei.storageId (some (rs.map Prod.fst))
        published := p.published ++ [ei]
        sent := p.sent ++ deliveries p.published.length ei.storageId rs }

/-- `client` changes a container and calls the sink; no storage publishes a snapshot end. -/
inductive Step (C : Type) where
  | client (id : UInt64) (c : C) (es : List Event)
  | subscribe (groupName : Bytes) (container : UInt64) (handle : UInt32) (session : Nat) (start : Bytes)
  | swap
  | publish
  | sessionDies (session : Nat)

def step (p : Publisher C) : Step C → Option (Publisher C)
  | .client id c es =>
    if ∃ e ∈ es, e.code = .snapshotEnd then none
    else some (es.foldl (fun p e => onAnyContainerEvent p ⟨id, e⟩)
      { p with containers := Function.update p.containers id c })
  | .subscribe groupName container handle session start =>
    some (sessionAsyncSubscribe p ⟨groupName, container, handle, session, start, true⟩)
  | .swap =>
    if p.localEventQueue = [] then some { p with localEventQueue := p.eventQueue, eventQueue := [] }
    else none
  | .publish =>
    match p.localEventQueue with
    | [] => none
    | ei :: rest => publish ops numericStart { p with localEventQueue := rest } ei
  | .sessionDies session => some { p with alive := Function.update p.alive session false }

end Publisher

end Tiodb
