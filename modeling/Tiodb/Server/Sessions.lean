import Tiodb.Server.Delivery

/-!
# Sessions, handles and groups

The handle tables of `TioTcpSession.cpp`, `GroupManager` of `TioTcpServer.h`, and
the commands of `TioTcpServer.cpp` that open, close, subscribe and group
containers, over the publisher. A command is one step, and so is the publication
of one entry of the queue. What the container manager answers to a command comes
with the command.
-/

namespace Tiodb

open Lib

/-- The part of `TioTcpSession` that is about handles. -/
structure Session where
  binaryProtocol : Bool
  valid : Bool := true
  handles : Std.ExtTreeMap UInt32 UInt64 := ∅
  containerNameToHandle : StringMap UInt32 := ∅
  lastHandle : UInt32 := 0

namespace Session

def registerContainer (s : Session) (containerName : Bytes) (container : UInt64) : UInt32 × Session :=
  match s.containerNameToHandle[containerName]? with
  | some handle => (handle, s)
  | none =>
    let handle := s.lastHandle + 1
    (handle, { s with
      -- `emplace` leaves an entry that is there
      handles := s.handles.insertIfNew handle container
      containerNameToHandle := s.containerNameToHandle.insert containerName handle
      lastHandle := handle })

def registerNewGroupContainer (s : Session) (_groupName containerName : Bytes) (container : UInt64) :
    UInt32 × Session :=
  s.registerContainer containerName container

def getRegisteredContainer (s : Session) (handle : UInt32) : Option UInt64 := s.handles[handle]?

/-- The body of the source is empty. -/
def unsubscribe (s : Session) (_handle : UInt32) : Session := s

/-- `none` is the invalid handle; `getName` is what the container of the handle is asked. -/
def closeContainerHandle (getName : UInt64 → Bytes) (s : Session) (handle : UInt32) : Option Session :=
  s.handles[handle]?.map fun container =>
    let s := { s with containerNameToHandle := s.containerNameToHandle.erase (getName container) }
    let s := s.unsubscribe handle
    { s with handles := s.handles.erase handle }

def invalidateConnection (s : Session) : Session :=
  if s.valid then { s with valid := false, handles := ∅ } else s

end Session

/-- What a session sends. -/
inductive Outgoing where
  | answer
  | answerHandle (handle : UInt32)
  | error
  | published (handle : UInt32) (m : Message)
  deriving DecidableEq, Repr

/-- `wire` and `unsubscribed` are history: what was sent by sessions that were valid, and how much had been enqueued
when a session unsubscribed or closed a handle under which it did not subscribe again. -/
structure Server (C : Type) where
  publisher : Publisher C
  sessions : Nat → Session
  groups : StringMap (StringMap UInt64)
  groupSubscriptions : StringMap (List Nat)
  wire : List (Nat × Outgoing)
  unsubscribed : Nat → UInt32 → Option Nat

namespace Server

variable {C : Type} (ops : ContainerOps C) (numericStart : Bytes → Int32)

def init (containers : UInt64 → C) (alive : Nat → Bool) (binaryProtocol : Nat → Bool) : Server C where
  publisher := Publisher.init containers alive
  sessions := fun session => { binaryProtocol := binaryProtocol session }
  groups := ∅
  groupSubscriptions := ∅
  wire := []
  unsubscribed := fun _ _ => none

def getName (s : Server C) (container : UInt64) : Bytes := ops.name (s.publisher.containers container)

/-- The weak pointer to the session can be locked, and the session is valid. -/
def live (s : Server C) (session : Nat) : Bool := s.publisher.alive session && (s.sessions session).valid

def send (s : Server C) (session : Nat) (m : Outgoing) : Server C :=
  if (s.sessions session).valid then { s with wire := s.wire ++ [(session, m)] } else s

def setSession (s : Server C) (session : Nat) (se : Session) : Server C :=
  { s with sessions := Function.update s.sessions session se }

def sessionAsyncSubscribe (s : Server C) (info : SubscriptionInfo) : Server C :=
  { s with
    publisher := s.publisher.sessionAsyncSubscribe info
    unsubscribed := Function.update s.unsubscribed info.session
      (Function.update (s.unsubscribed info.session) info.handle none) }

/-- `none` is an exception on the way to the group: `list` is what creating the list of a new group gives. -/
def addContainer (s : Server C) (groupName : Bytes) (container : UInt64) (list : Except Exc Unit) :
    Option (Server C) :=
  let add (containersMap : StringMap UInt64) : Server C :=
    if containersMap.contains (s.getName ops container) then
      { s with groups := s.groups.insert groupName containersMap }
    else
      { s with groups := s.groups.insert groupName (containersMap.insert (s.getName ops container) container) }
  match s.groups[groupName]?, list with
  | some containersMap, _ => some (add containersMap)
  | none, .ok () => some (add ∅)
  | none, .error _ => none

def getGroupContainers (s : Server C) (groupName : Bytes) : StringMap UInt64 := (s.groups[groupName]?).getD ∅

/-- The body of the loops of both group commands. -/
def subscribeGroupContainer (groupName start : Bytes) (s : Server C) (target : Nat × Bytes × UInt64) : Server C :=
  let r := (s.sessions target.1).registerNewGroupContainer groupName target.2.1 target.2.2
  (s.setSession target.1 r.2).sessionAsyncSubscribe ⟨groupName, target.2.2, r.1, target.1, start, true⟩

def groupSubscribers (s : Server C) (groupName : Bytes) : List Nat := (s.groupSubscriptions[groupName]?).getD []

def onGroupAdd (s : Server C) (session : Nat) (groupName containerName : Bytes) (container : UInt64)
    (list : Except Exc Unit) : Server C :=
  match s.addContainer ops groupName container list with
  | none => s.send session .error
  | some s =>
    let s := s.send session .answer
    let targets := ((s.groupSubscribers groupName).filter s.live).map fun se => (se, containerName, container)
    targets.foldl (subscribeGroupContainer groupName (ascii "0")) s

def pushGroupSubscription (s : Server C) (groupName : Bytes) (session : Nat) : Server C :=
  { s with groupSubscriptions := s.groupSubscriptions.insert groupName (s.groupSubscribers groupName ++ [session]) }

/-- The text command takes no start, and asks the containers for their names. -/
def onGroupSubscribe (s : Server C) (session : Nat) (groupName start : Bytes) : Server C :=
  let binary := (s.sessions session).binaryProtocol
  if !binary && start ≠ [] then s.send session .error
  else
    let containers := (s.getGroupContainers groupName).toList
    let s := (s.pushGroupSubscription groupName session).send session .answer
    let targets := containers.map fun c => (session, if binary then c.1 else s.getName ops c.2, c.2)
    targets.foldl (subscribeGroupContainer groupName (if binary then start else ascii "0")) s

/-- `CREATE` or `OPEN`, with the container that the manager gave. -/
def onOpen (s : Server C) (session : Nat) (name : Bytes) (container : UInt64) : Server C :=
  let r := (s.sessions session).registerContainer name container
  (s.setSession session r.2).send session (.answerHandle r.1)

def onSubscribe (s : Server C) (session : Nat) (handle : UInt32) (start : Bytes) : Server C :=
  match (s.sessions session).getRegisteredContainer handle with
  | none => s.send session .error
  | some container =>
    -- "handle?"
    if (s.sessions session).binaryProtocol && handle = 0 then s.send session .error
    else (s.send session .answer).sessionAsyncSubscribe ⟨[], container, handle, session, start, true⟩

/-- The history of an answer that says that the handle is not subscribed any more. -/
def sendUnsubscribed (s : Server C) (session : Nat) (handle : UInt32) : Server C :=
  let s := s.send session .answer
  { s with
    unsubscribed := Function.update s.unsubscribed session
      (Function.update (s.unsubscribed session) handle (some s.publisher.enqueued.length)) }

def onUnsubscribe (s : Server C) (session : Nat) (handle : UInt32) : Server C :=
  -- only the text command looks the handle up
  if !(s.sessions session).binaryProtocol && ((s.sessions session).getRegisteredContainer handle).isNone then
    s.send session .error
  else (s.setSession session ((s.sessions session).unsubscribe handle)).sendUnsubscribed session handle

def onClose (s : Server C) (session : Nat) (handle : UInt32) : Server C :=
  match (s.sessions session).closeContainerHandle (s.getName ops) handle with
  | none => s.send session .error
  | some se => (s.setSession session se).sendUnsubscribed session handle

/-- What the publisher hands to a session goes out if the session is valid. -/
def outgoing (s : Server C) (ds : List Delivery) : List (Nat × Outgoing) :=
  (ds.filter fun d => (s.sessions d.session).valid).map fun d => (d.session, .published d.handle d.message)

/-- `refused` is a command that is answered with an error before it does anything. -/
inductive Action (C : Type) where
  | refused (session : Nat)
  | onOpen (session : Nat) (name : Bytes) (container : UInt64)
  | onClose (session : Nat) (handle : UInt32)
  | onSubscribe (session : Nat) (handle : UInt32) (start : Bytes)
  | onUnsubscribe (session : Nat) (handle : UInt32)
  | onGroupAdd (session : Nat) (groupName containerName : Bytes) (container : UInt64) (list : Except Exc Unit)
  | onGroupSubscribe (session : Nat) (groupName start : Bytes)
  | mutate (id : UInt64) (c : C) (es : List Event)
  | swap
  | publish
  | invalidateConnection (session : Nat)
  | sessionDies (session : Nat)

/-- A step of the publisher. -/
def publisherStep (s : Server C) (a : Publisher.Step C) : Option (Server C) :=
  (s.publisher.step ops numericStart a).map fun p =>
    { s with
      publisher := p
      wire := s.wire ++ s.outgoing (p.sent.drop s.publisher.sent.length) }

def step (s : Server C) : Action C → Option (Server C)
  | .refused session => some (s.send session .error)
  | .onOpen session name container => some (s.onOpen session name container)
  | .onClose session handle => some (s.onClose ops session handle)
  | .onSubscribe session handle start => some (s.onSubscribe session handle start)
  | .onUnsubscribe session handle => some (s.onUnsubscribe session handle)
  | .onGroupAdd session groupName containerName container list =>
    some (s.onGroupAdd ops session groupName containerName container list)
  | .onGroupSubscribe session groupName start => some (s.onGroupSubscribe ops session groupName start)
  | .mutate id c es =>
    -- a container keeps its name
    if ops.name c = s.getName ops id then s.publisherStep ops numericStart (.client id c es) else none
  | .swap => s.publisherStep ops numericStart .swap
  | .publish => s.publisherStep ops numericStart .publish
  | .invalidateConnection session =>
    some (s.setSession session (s.sessions session).invalidateConnection)
  | .sessionDies session => s.publisherStep ops numericStart (.sessionDies session)

/-! ## What a step does -/

section
variable {ops numericStart} {s s' : Server C}

@[simp] theorem send_publisher (s : Server C) (session : Nat) (m : Outgoing) :
    (s.send session m).publisher = s.publisher := by
  unfold send
  split_ifs <;> rfl

@[simp] theorem send_sessions (s : Server C) (session : Nat) (m : Outgoing) :
    (s.send session m).sessions = s.sessions := by
  unfold send
  split_ifs <;> rfl

@[simp] theorem send_groups (s : Server C) (session : Nat) (m : Outgoing) : (s.send session m).groups = s.groups := by
  unfold send
  split_ifs <;> rfl

@[simp] theorem send_groupSubscriptions (s : Server C) (session : Nat) (m : Outgoing) :
    (s.send session m).groupSubscriptions = s.groupSubscriptions := by
  unfold send
  split_ifs <;> rfl

@[simp] theorem send_unsubscribed (s : Server C) (session : Nat) (m : Outgoing) :
    (s.send session m).unsubscribed = s.unsubscribed := by
  unfold send
  split_ifs <;> rfl

theorem send_wire (s : Server C) (session : Nat) (m : Outgoing) :
    (s.send session m).wire = s.wire ++ if (s.sessions session).valid then [(session, m)] else [] := by
  unfold send
  split_ifs <;> simp

/-- These subscriptions were made, one after the other. -/
def subscribed (p : Publisher C) (infos : List SubscriptionInfo) : Publisher C :=
  infos.foldl Publisher.sessionAsyncSubscribe p

theorem subs_subscribed (p : Publisher C) (infos : List SubscriptionInfo) (id : UInt64) :
    Publisher.subs (subscribed p infos) id = Publisher.subs p id ++ infos.filter (·.container = id) := by
  induction infos generalizing p with
  | nil => simp [subscribed]
  | cons info infos ih =>
    rw [subscribed, List.foldl_cons, ← subscribed, ih, List.filter_cons]
    by_cases hid : info.container = id
    · subst hid
      simp [Publisher.subs, Publisher.sessionAsyncSubscribe]
    · simp [Publisher.subs, Publisher.sessionAsyncSubscribe, hid, Function.update_of_ne (Ne.symm hid)]

theorem subscribed_runs (p : Publisher C) {infos : List SubscriptionInfo}
    (h : ∀ info ∈ infos, info.snapshotPending = true) :
    ∃ as, run (Publisher.step ops numericStart) p as = some (subscribed p infos) := by
  induction infos generalizing p with
  | nil => exact ⟨[], rfl⟩
  | cons info infos ih =>
    obtain ⟨as, has⟩ := ih (p.sessionAsyncSubscribe info) fun i hi => h i (by simp [hi])
    refine ⟨.subscribe info.groupName info.container info.handle info.session info.start :: as,
      run_cons.mpr ⟨p.sessionAsyncSubscribe info, ?_, has⟩⟩
    have hp := h info (by simp)
    obtain ⟨g, c, hd, se, st, pending⟩ := info
    rw [show pending = true from hp]
    rfl

theorem subscribed_frame (p : Publisher C) (infos : List SubscriptionInfo) :
    (subscribed p infos).sent = p.sent ∧ (subscribed p infos).published = p.published ∧
      (subscribed p infos).alive = p.alive ∧ (subscribed p infos).containers = p.containers ∧
      ∃ added, (subscribed p infos).enqueued = p.enqueued ++ added := by
  induction infos generalizing p with
  | nil => exact ⟨rfl, rfl, rfl, rfl, [], by simp [subscribed]⟩
  | cons info infos ih =>
    obtain ⟨hsent, hpub, halive, hcont, added, henq⟩ := ih (p.sessionAsyncSubscribe info)
    refine ⟨hsent, hpub, halive, hcont, [⟨info.container, Publisher.snapshotEnd⟩] ++ added, ?_⟩
    rw [← List.append_assoc, ← Publisher.enqueued_subscribe]
    exact henq

/-- The action ends what the session gets under the handle. -/
def Action.Leaves (session : Nat) (handle : UInt32) : Action C → Prop
  | .onClose se h => se = session ∧ h = handle
  | .onUnsubscribe se h => se = session ∧ h = handle
  | _ => False

/-- What a command does: it makes these subscriptions and sends these answers. -/
structure Commanded (a : Action C) (s s' : Server C) (infos : List SubscriptionInfo) (out : List (Nat × Outgoing)) :
    Prop where
  publisher : s'.publisher = subscribed s.publisher infos
  pending : ∀ info ∈ infos, info.snapshotPending = true
  wire : s'.wire = s.wire ++ out
  answers : ∀ x ∈ out, ∀ handle m, x.2 ≠ .published handle m
  valid : ∀ se, (s'.sessions se).valid = true → (s.sessions se).valid = true
  binary : ∀ se, (s'.sessions se).binaryProtocol = (s.sessions se).binaryProtocol
  unsubscribed : ∀ se h n, s'.unsubscribed se h = some n →
    (s.unsubscribed se h = some n ∧ ∀ info ∈ infos, ¬ (info.session = se ∧ info.handle = h)) ∨
      (infos = [] ∧ n = s.publisher.enqueued.length ∧ a.Leaves se h)

variable {a : Action C}

theorem Commanded.of_eq (hp : s'.publisher = s.publisher) (hw : s'.wire = s.wire)
    (hu : s'.unsubscribed = s.unsubscribed)
    (hv : ∀ se, (s'.sessions se).valid = true → (s.sessions se).valid = true)
    (hb : ∀ se, (s'.sessions se).binaryProtocol = (s.sessions se).binaryProtocol) : Commanded a s s' [] [] where
  publisher := hp
  pending := by simp
  wire := by rw [hw, List.append_nil]
  answers := by simp
  valid := hv
  binary := hb
  unsubscribed se h n hn := Or.inl ⟨by rwa [← hu], by simp⟩

theorem Commanded.trans {t : Server C} {infos infos' : List SubscriptionInfo} {out out' : List (Nat × Outgoing)}
    (ha : ∀ se h, ¬ a.Leaves se h) (h : Commanded a s t infos out) (h' : Commanded a t s' infos' out') :
    Commanded a s s' (infos ++ infos') (out ++ out') where
  publisher := by rw [h'.publisher, h.publisher, subscribed, subscribed, subscribed, List.foldl_append]
  pending info hi := (List.mem_append.mp hi).elim (h.pending info) (h'.pending info)
  wire := by rw [h'.wire, h.wire, List.append_assoc]
  answers x hx := (List.mem_append.mp hx).elim (h.answers x) (h'.answers x)
  valid se hv := h.valid se (h'.valid se hv)
  binary se := (h'.binary se).trans (h.binary se)
  unsubscribed se hd n hn := by
    rcases h'.unsubscribed se hd n hn with ⟨ht, hno'⟩ | ⟨-, -, hl⟩
    · rcases h.unsubscribed se hd n ht with ⟨hs, hno⟩ | ⟨-, -, hl⟩
      · exact Or.inl ⟨hs, fun info hi => (List.mem_append.mp hi).elim (hno info) (hno' info)⟩
      · exact absurd hl (ha se hd)
    · exact absurd hl (ha se hd)

theorem commanded_send (s : Server C) (session : Nat) {m : Outgoing} (hm : ∀ handle m', m ≠ .published handle m') :
    Commanded a s (s.send session m) [] (if (s.sessions session).valid then [(session, m)] else []) where
  publisher := send_publisher s session m
  pending := by simp
  wire := send_wire s session m
  answers x hx := by
    split_ifs at hx
    · obtain rfl := List.mem_singleton.mp hx
      exact hm
    · cases hx
  valid se hv := by simpa using hv
  binary se := by simp
  unsubscribed se h n hn := Or.inl ⟨by simpa using hn, by simp⟩

theorem commanded_setSession (s : Server C) (session : Nat) {se : Session}
    (hv : se.valid = true → (s.sessions session).valid = true)
    (hb : se.binaryProtocol = (s.sessions session).binaryProtocol) :
    Commanded a s (s.setSession session se) [] [] := by
  refine .of_eq rfl rfl rfl (fun se' => ?_) fun se' => ?_
  · by_cases h : se' = session
    · subst h
      simpa [setSession] using hv
    · simp [setSession, Function.update_of_ne h]
  · by_cases h : se' = session
    · subst h
      simpa [setSession] using hb
    · simp [setSession, Function.update_of_ne h]

theorem commanded_sessionAsyncSubscribe (s : Server C) {info : SubscriptionInfo} (hp : info.snapshotPending = true) :
    Commanded a s (s.sessionAsyncSubscribe info) [info] [] where
  publisher := rfl
  pending i hi := by
    obtain rfl := List.mem_singleton.mp hi
    exact hp
  wire := (List.append_nil _).symm
  answers := by simp
  valid _ hv := hv
  binary _ := rfl
  unsubscribed se h n hn := by
    refine Or.inl ?_
    simp only [sessionAsyncSubscribe] at hn
    by_cases hse : se = info.session
    · subst hse
      rw [Function.update_self] at hn
      by_cases hh : h = info.handle
      · subst hh
        rw [Function.update_self] at hn
        cases hn
      · rw [Function.update_of_ne hh] at hn
        exact ⟨hn, by simpa using fun h' => hh h'.symm⟩
    · rw [Function.update_of_ne hse] at hn
      exact ⟨hn, by simpa using fun h' => absurd h'.symm hse⟩

theorem registerContainer_frame (se : Session) (name : Bytes) (container : UInt64) :
    (se.registerContainer name container).2.valid = se.valid ∧
      (se.registerContainer name container).2.binaryProtocol = se.binaryProtocol := by
  unfold Session.registerContainer
  split <;> exact ⟨rfl, rfl⟩

theorem closeContainerHandle_frame {getName : UInt64 → Bytes} {se se' : Session} {handle : UInt32}
    (h : se.closeContainerHandle getName handle = some se') :
    se'.valid = se.valid ∧ se'.binaryProtocol = se.binaryProtocol := by
  obtain ⟨container, -, rfl⟩ := Option.map_eq_some_iff.mp h
  exact ⟨rfl, rfl⟩

/-- The subscriptions that a loop over these targets makes. -/
def Targeted (groupName start : Bytes) (target : Nat × Bytes × UInt64) (info : SubscriptionInfo) : Prop :=
  info.groupName = groupName ∧ info.container = target.2.2 ∧ info.session = target.1 ∧ info.start = start

theorem foldl_subscribeGroupContainer (ha : ∀ se h, ¬ a.Leaves se h) (groupName start : Bytes)
    (targets : List (Nat × Bytes × UInt64)) (s : Server C) :
    ∃ infos, Commanded a s (targets.foldl (subscribeGroupContainer groupName start) s) infos [] ∧
      List.Forall₂ (Targeted groupName start) targets infos ∧
      (targets.foldl (subscribeGroupContainer groupName start) s).groups = s.groups ∧
      (targets.foldl (subscribeGroupContainer groupName start) s).groupSubscriptions = s.groupSubscriptions := by
  induction targets generalizing s with
  | nil => exact ⟨[], .of_eq rfl rfl rfl (fun _ h => h) fun _ => rfl, .nil, rfl, rfl⟩
  | cons target targets ih =>
    obtain ⟨infos, hcmd, hall, hgroups, hsubs⟩ := ih (s.subscribeGroupContainer groupName start target)
    have hreg := registerContainer_frame (s.sessions target.1) target.2.1 target.2.2
    have hset : Commanded a s (s.setSession target.1
        ((s.sessions target.1).registerNewGroupContainer groupName target.2.1 target.2.2).2) [] [] :=
      commanded_setSession s target.1 (fun h => hreg.1 ▸ h) hreg.2
    exact ⟨_ :: infos, (hset.trans ha (commanded_sessionAsyncSubscribe _ rfl)).trans ha hcmd,
      .cons ⟨rfl, rfl, rfl, rfl⟩ hall, hgroups, hsubs⟩

/-- The containers of the group with this one among them, under its name. -/
def withContainer (ops : ContainerOps C) (s : Server C) (groupName : Bytes) (container : UInt64) : StringMap UInt64 :=
  if (s.getGroupContainers groupName).contains (s.getName ops container) then s.getGroupContainers groupName
  else (s.getGroupContainers groupName).insert (s.getName ops container) container

theorem addContainer_eq {groupName : Bytes} {container : UInt64} {list : Except Exc Unit} {t : Server C}
    (h : s.addContainer ops groupName container list = some t) :
    t = { s with groups := s.groups.insert groupName (s.withContainer ops groupName container) } := by
  unfold addContainer at h
  unfold withContainer getGroupContainers
  cases hg : s.groups[groupName]? with
  | some containersMap =>
    simp only [hg, Option.some.injEq] at h
    rw [← h, Option.getD_some]
    split_ifs <;> rfl
  | none =>
    cases list with
    | error e => simp [hg] at h
    | ok =>
      simp only [hg, Option.some.injEq] at h
      rw [← h, Option.getD_none]
      split_ifs <;> rfl

theorem onGroupAdd_spec (session : Nat) (groupName containerName : Bytes) (container : UInt64)
    (list : Except Exc Unit) (ha : a = .onGroupAdd session groupName containerName container list)
    (hs : s' = s.onGroupAdd ops session groupName containerName container list) :
    ∃ infos out, Commanded a s s' infos out ∧ s'.groupSubscriptions = s.groupSubscriptions ∧
      ((infos = [] ∧ s'.groups = s.groups) ∨
        (List.Forall₂ (Targeted groupName (ascii "0"))
            (((s.groupSubscribers groupName).filter s.live).map fun se => (se, containerName, container)) infos ∧
          s'.groups = s.groups.insert groupName (s.withContainer ops groupName container))) := by
  subst ha hs
  unfold onGroupAdd
  cases hadd : s.addContainer ops groupName container list with
  | none =>
    exact ⟨_, _, commanded_send s session (by simp), by simp, Or.inl ⟨rfl, by simp⟩⟩
  | some t =>
    obtain rfl := addContainer_eq hadd
    have hleaves : ∀ se h, ¬ (Action.onGroupAdd session groupName containerName container list : Action C).Leaves se h :=
      fun _ _ h => h
    obtain ⟨infos, hcmd, hall, hgroups, hsubs⟩ := foldl_subscribeGroupContainer hleaves groupName (ascii "0")
      (((s.groupSubscribers groupName).filter s.live).map fun se => (se, containerName, container))
      (send { s with groups := s.groups.insert groupName (s.withContainer ops groupName container) } session .answer)
    have hset : Commanded (Action.onGroupAdd session groupName containerName container list) s
        { s with groups := s.groups.insert groupName (s.withContainer ops groupName container) } [] [] :=
      .of_eq rfl rfl rfl (fun _ h => h) fun _ => rfl
    have hlive : (send { s with groups := s.groups.insert groupName (s.withContainer ops groupName container) }
        session .answer).live = s.live := by
      funext se
      simp [live]
    dsimp only
    rw [groupSubscribers, send_groupSubscriptions, hlive]
    refine ⟨_, _, (hset.trans hleaves (commanded_send (m := .answer) _ session (by simp))).trans hleaves hcmd, ?_,
      Or.inr ⟨hall, ?_⟩⟩
    · simpa [groupSubscribers] using hsubs
    · simpa [groupSubscribers] using hgroups

theorem onGroupSubscribe_spec (session : Nat) (groupName start : Bytes)
    (ha : a = .onGroupSubscribe session groupName start)
    (hs : s' = s.onGroupSubscribe ops session groupName start) :
    ∃ infos out, Commanded a s s' infos out ∧ s'.groups = s.groups ∧
      ((infos = [] ∧ s'.groupSubscriptions = s.groupSubscriptions) ∨
        ∃ (start' : Bytes) (name : Bytes × UInt64 → Bytes), List.Forall₂ (Targeted groupName start')
            ((s.getGroupContainers groupName).toList.map fun c => (session, name c, c.2)) infos ∧
          s'.groupSubscriptions =
            s.groupSubscriptions.insert groupName (s.groupSubscribers groupName ++ [session])) := by
  subst ha hs
  unfold onGroupSubscribe
  by_cases htext : (!(s.sessions session).binaryProtocol && decide (start ≠ [])) = true
  · dsimp only
    rw [if_pos htext]
    exact ⟨_, _, commanded_send s session (by simp), by simp, Or.inl ⟨rfl, by simp⟩⟩
  · have hleaves : ∀ se h, ¬ (Action.onGroupSubscribe session groupName start : Action C).Leaves se h := fun _ _ h => h
    have hpush : Commanded (Action.onGroupSubscribe session groupName start) s
        (s.pushGroupSubscription groupName session) [] [] := .of_eq rfl rfl rfl (fun _ h => h) fun _ => rfl
    have hname (c : UInt64) :
        ((s.pushGroupSubscription groupName session).send session .answer).getName ops c = s.getName ops c := by
      simp [getName, pushGroupSubscription]
    obtain ⟨infos, hcmd, hall, hgroups, hsubs⟩ := foldl_subscribeGroupContainer hleaves groupName
      (if (s.sessions session).binaryProtocol then start else ascii "0")
      ((s.getGroupContainers groupName).toList.map fun c =>
        (session, if (s.sessions session).binaryProtocol then c.1 else s.getName ops c.2, c.2))
      ((s.pushGroupSubscription groupName session).send session .answer)
    dsimp only
    rw [if_neg htext]
    simp only [hname]
    refine ⟨_, _, (hpush.trans hleaves (commanded_send (m := .answer) _ session (by simp))).trans hleaves hcmd, ?_,
      Or.inr ⟨_, fun c => if (s.sessions session).binaryProtocol then c.1 else s.getName ops c.2, hall, ?_⟩⟩
    · simpa [pushGroupSubscription] using hgroups
    · simpa [pushGroupSubscription] using hsubs

theorem onOpen_spec (session : Nat) (name : Bytes) (container : UInt64) (ha : ∀ se h, ¬ a.Leaves se h) :
    Commanded a s (s.onOpen session name container) []
      (if (s.sessions session).valid then
        [(session, .answerHandle ((s.sessions session).registerContainer name container).1)] else []) := by
  have hreg := registerContainer_frame (s.sessions session) name container
  have hset : Commanded a s (s.setSession session ((s.sessions session).registerContainer name container).2) [] [] :=
    commanded_setSession s session (fun h => hreg.1 ▸ h) hreg.2
  have hvalid : ((s.setSession session ((s.sessions session).registerContainer name container).2).sessions
      session).valid = (s.sessions session).valid := by
    simp [setSession, hreg.1]
  have hsend := hset.trans ha (commanded_send _ session
    (m := .answerHandle ((s.sessions session).registerContainer name container).1) (by simp))
  rw [hvalid] at hsend
  exact hsend

theorem onSubscribe_spec (session : Nat) (handle : UInt32) (start : Bytes) (ha : ∀ se h, ¬ a.Leaves se h) :
    ∃ infos out, Commanded a s (s.onSubscribe session handle start) infos out ∧
      ∀ info ∈ infos, info.groupName = [] := by
  unfold onSubscribe
  cases (s.sessions session).getRegisteredContainer handle with
  | none => exact ⟨_, _, commanded_send s session (by simp), by simp⟩
  | some container =>
    dsimp only
    split_ifs
    · exact ⟨_, _, commanded_send s session (by simp), by simp⟩
    · exact ⟨_, _, (commanded_send (m := .answer) s session (by simp)).trans ha
        (commanded_sessionAsyncSubscribe _ rfl), by simp⟩

theorem sendUnsubscribed_spec (s : Server C) (session : Nat) (handle : UInt32) (ha : a.Leaves session handle) :
    Commanded a s (s.sendUnsubscribed session handle) []
      (if (s.sessions session).valid then [(session, .answer)] else []) := by
  have hsend : Commanded a s (s.send session .answer) [] _ := commanded_send s session (by simp)
  refine { hsend with unsubscribed := fun se h n hn => ?_ }
  simp only [sendUnsubscribed, send_unsubscribed, send_publisher] at hn
  by_cases hse : se = session
  · subst hse
    rw [Function.update_self] at hn
    by_cases hh : h = handle
    · subst hh
      rw [Function.update_self] at hn
      exact Or.inr ⟨rfl, (Option.some.inj hn).symm, ha⟩
    · rw [Function.update_of_ne hh] at hn
      exact Or.inl ⟨hn, by simp⟩
  · rw [Function.update_of_ne hse] at hn
    exact Or.inl ⟨hn, by simp⟩

theorem onUnsubscribe_spec (session : Nat) (handle : UInt32) :
    ∃ out, Commanded (.onUnsubscribe session handle) s (s.onUnsubscribe session handle) [] out := by
  unfold onUnsubscribe
  split_ifs
  · exact ⟨_, commanded_send s session (by simp)⟩
  · have hsame : s.setSession session ((s.sessions session).unsubscribe handle) = s := by
      rw [setSession, Session.unsubscribe, Function.update_eq_self]
    rw [hsame]
    exact ⟨_, sendUnsubscribed_spec s session handle ⟨rfl, rfl⟩⟩

theorem onClose_spec (session : Nat) (handle : UInt32) :
    ∃ out, Commanded (.onClose session handle) s (s.onClose ops session handle) [] out := by
  unfold onClose
  cases hclose : (s.sessions session).closeContainerHandle (s.getName ops) handle with
  | none => exact ⟨_, commanded_send s session (by simp)⟩
  | some se =>
    obtain ⟨hvalid, hbinary⟩ := closeContainerHandle_frame hclose
    have hset := commanded_setSession (a := .onClose session handle) s session (fun h => hvalid ▸ h) hbinary
    have hsend := sendUnsubscribed_spec (a := .onClose session handle) (s.setSession session se) session handle
      ⟨rfl, rfl⟩
    exact ⟨_, { hsend with
      valid := fun se' h => hset.valid se' (hsend.valid se' h)
      binary := fun se' => (hsend.binary se').trans (hset.binary se') }⟩

theorem invalidateConnection_spec (session : Nat) :
    Commanded a s (s.setSession session (s.sessions session).invalidateConnection) [] [] := by
  refine commanded_setSession s session ?_ ?_
  · unfold Session.invalidateConnection
    split_ifs with hv
    · exact fun _ => hv
    · exact id
  · unfold Session.invalidateConnection
    split_ifs <;> rfl

def Action.publisherStep? : Action C → Option (Publisher.Step C)
  | .mutate id c es => some (.client id c es)
  | .swap => some .swap
  | .publish => some .publish
  | .sessionDies session => some (.sessionDies session)
  | _ => none

theorem step_cases (h : step ops numericStart s a = some s') :
    (a.publisherStep? = none ∧ ∃ infos out, Commanded a s s' infos out) ∨
      ∃ b, a.publisherStep? = some b ∧ s.publisherStep ops numericStart b = some s' := by
  cases a with
  | refused session =>
    obtain rfl := Option.some.inj h
    exact Or.inl ⟨rfl, _, _, commanded_send s session (by simp)⟩
  | onOpen session name container =>
    obtain rfl := Option.some.inj h
    exact Or.inl ⟨rfl, _, _, onOpen_spec session name container fun _ _ h => h⟩
  | onClose session handle =>
    obtain rfl := Option.some.inj h
    exact Or.inl ⟨rfl, _, onClose_spec session handle⟩
  | onSubscribe session handle start =>
    obtain rfl := Option.some.inj h
    obtain ⟨infos, out, hcmd, -⟩ :=
      onSubscribe_spec (a := .onSubscribe session handle start) (s := s) session handle start fun _ _ h => h
    exact Or.inl ⟨rfl, infos, out, hcmd⟩
  | onUnsubscribe session handle =>
    obtain rfl := Option.some.inj h
    exact Or.inl ⟨rfl, _, onUnsubscribe_spec session handle⟩
  | onGroupAdd session groupName containerName container list =>
    obtain ⟨infos, out, hcmd, -⟩ := onGroupAdd_spec session groupName containerName container list rfl
      (Option.some.inj h).symm
    exact Or.inl ⟨rfl, infos, out, hcmd⟩
  | onGroupSubscribe session groupName start =>
    obtain ⟨infos, out, hcmd, -⟩ := onGroupSubscribe_spec session groupName start rfl (Option.some.inj h).symm
    exact Or.inl ⟨rfl, infos, out, hcmd⟩
  | mutate id c es =>
    rw [step] at h
    split_ifs at h
    exact Or.inr ⟨_, rfl, h⟩
  | swap => exact Or.inr ⟨_, rfl, h⟩
  | publish => exact Or.inr ⟨_, rfl, h⟩
  | invalidateConnection session =>
    obtain rfl := Option.some.inj h
    exact Or.inl ⟨rfl, _, _, invalidateConnection_spec session⟩
  | sessionDies session => exact Or.inr ⟨_, rfl, h⟩

/-! ## The publisher below -/

/-- A step of the server is some steps of the publisher. -/
theorem step_publisher (h : step ops numericStart s a = some s') :
    ∃ bs, run (Publisher.step ops numericStart) s.publisher bs = some s'.publisher := by
  rcases step_cases h with ⟨-, infos, out, hcmd⟩ | ⟨b, -, hb⟩
  · rw [hcmd.publisher]
    exact subscribed_runs s.publisher hcmd.pending
  · obtain ⟨p, hp, rfl⟩ := Option.map_eq_some_iff.mp hb
    exact ⟨[b], run_cons.mpr ⟨p, hp, rfl⟩⟩

theorem run_publisher {as : List (Action C)} (h : run (step ops numericStart) s as = some s') :
    ∃ bs, run (Publisher.step ops numericStart) s.publisher bs = some s'.publisher := by
  induction as generalizing s with
  | nil =>
    obtain rfl := Option.some.inj h
    exact ⟨[], rfl⟩
  | cons a as ih =>
    obtain ⟨t, ht, hr⟩ := run_cons.mp h
    obtain ⟨bs, hbs⟩ := step_publisher ht
    obtain ⟨bs', hbs'⟩ := ih hr
    exact ⟨bs ++ bs', run_append.mpr ⟨t.publisher, hbs, hbs'⟩⟩

end

end Server

end Tiodb
