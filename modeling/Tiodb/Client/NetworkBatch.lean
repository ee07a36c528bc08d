import Mathlib.Data.List.DropRight
import Tiodb.Lib.Ring
import Tiodb.Client.TableRuns

/-!
# Network batches

Between `tio_begin_network_batch` and `tio_finish_network_batch` a command does not wait
for its answer, it is counted in `pending_event_count`. The events that wait to be
dispatched are counted there too, and `tio_finish_network_batch` receives until the
count is reached, while the events that it meets on the way are counted in and out.
-/

namespace Tiodb.Client.Table

open Lib

/-- Why a function of the client does not return: what it does is not defined, or the socket has no message. -/
inductive Stop where
  | undefined
  | waiting
  deriving DecidableEq, Repr

structure Command where
  handle : Int32
  commandId : UInt16
  key : Option TioData
  value : Option TioData
  metadata : Option TioData
  deriving DecidableEq, Repr

/-- `TIO_CONNECTION` without clusters. `table` has the containers, the callbacks and `max_pending_event_count`;
the events that wait are in `eventList`. `sent` and `dispatched` are history. -/
structure TioConnection where
  table : Connection
  eventList : Lib.Ring EventMessage := {}
  pendingEventCount : Int := 0
  openContainersCount : Int := 0
  waitForAnswer : Bool := true
  sent : List Command := []
  dispatched : List EventMessage := []

/-- The value of an `int`. -/
def toInt (n : Int) : Except Stop Int := if -2 ^ 31 ≤ n ∧ n < 2 ^ 31 then .ok n else .error .undefined

/-- A pointer was read. -/
def deref {α : Type} : Option α → Except Stop α
  | some x => .ok x
  | none => .error .undefined

/-- What is undefined in the table of containers is undefined here. -/
def noFault (table : Connection) : Except Stop Connection :=
  if table.fault.isSome then .error .undefined else .ok table

theorem Connection.dispatchEvents_cons {t : Connection} {e : EventMessage} {es : List EventMessage}
    (h : (t.dispatchEvents (e :: es)).fault = none) :
    (t.dispatchEvent e).fault = none ∧ t.dispatchEvents (e :: es) = (t.dispatchEvent e).dispatchEvents es := by
  rw [dispatchEvents] at h ⊢
  by_cases hfault : (t.dispatchEvent e).fault = none
  · simp only [hfault, Option.isSome_none, Bool.false_eq_true, if_false, and_self]
  · rw [if_pos (Option.isSome_iff_ne_none.mpr hfault)] at h
    exact absurd h hfault

theorem Connection.dispatchEvent_with (t : Connection) (q : List EventMessage) (e : EventMessage) :
    { t with pendingEvents := q }.dispatchEvent e = { t.dispatchEvent e with pendingEvents := q } := by
  have hlookup : { t with pendingEvents := q }.lookup e.handle = t.lookup e.handle := rfl
  unfold dispatchEvent
  rw [hlookup]
  cases t.lookup e.handle with
  | error fault => rfl
  | ok r =>
    obtain ⟨i, container⟩ := r
    have htarget : { t with pendingEvents := q }.target container e.eventCode = t.target container e.eventCode := by
      cases e.eventCode <;> rfl
    dsimp only
    rw [htarget]
    obtain ⟨_ | callback, cookie⟩ := t.target container e.eventCode <;> rfl

theorem Connection.dispatchEvents_with (t : Connection) (q es : List EventMessage) :
    { t with pendingEvents := q }.dispatchEvents es = { t.dispatchEvents es with pendingEvents := q } := by
  induction es generalizing t with
  | nil => rfl
  | cons e es ih =>
    rw [dispatchEvents, dispatchEvents, dispatchEvent_with]
    dsimp only
    split
    · rfl
    · exact ih _

namespace TioConnection

/-- `events_list_push` -/
def eventsListPush (s : TioConnection) (e : EventMessage) : Except Stop TioConnection := do
  let eventList ← deref (s.eventList.push e)
  let pendingEventCount ← toInt (s.pendingEventCount + 1)
  pure { s with eventList, pendingEventCount }

/-- `events_list_pop` -/
def eventsListPop (s : TioConnection) : Except Stop (Option EventMessage × TioConnection) := do
  let (e, eventList) ← deref s.eventList.pop
  if e.isNone then pure (none, s)
  else
    let pendingEventCount ← toInt (s.pendingEventCount - 1)
    pure (e, { s with eventList, pendingEventCount })

def dispatchEvent (s : TioConnection) (e : EventMessage) : Except Stop TioConnection := do
  let table ← noFault (s.table.dispatchEvent e)
  pure { s with table, dispatched := s.dispatched ++ [e] }

/-- `tio_dispatch_pending_events` -/
def tioDispatchPendingEvents (s : TioConnection) : Nat → Except Stop TioConnection
  | 0 => pure s
  | maxEvents + 1 => do
    let (e, s) ← s.eventsListPop
    match e with
    | none => pure s
    | some e =>
      let s ← s.dispatchEvent e
      s.tioDispatchPendingEvents maxEvents

/-- `on_event_receive` -/
def onEventReceive (s : TioConnection) (e : EventMessage) : Except Stop TioConnection := do
  let s ← s.eventsListPush e
  if s.table.maxPendingEventCount ≤ s.pendingEventCount then s.tioDispatchPendingEvents 0xFFFFFFFF else pure s

/-- `on_group_new_container` -/
def onGroupNewContainer (s : TioConnection) (handle : Int32) (groupName name : Bytes) :
    Except Stop TioConnection := do
  let table ← noFault (s.table.registerContainer (some handle) name (some groupName))
  let openContainersCount ← toInt (s.openContainersCount + 1)
  pure { s with table, openContainersCount }

/-- The answer, with what stays on the socket. -/
def tioReceiveUntilNotEvent (s : TioConnection) :
    List Message → Except Stop (Answer × List Message × TioConnection)
  | [] => .error .waiting
  | .event e :: socket => do
    let s ← s.onEventReceive e
    s.tioReceiveUntilNotEvent socket
  | .newGroupContainer handle groupName name :: socket => do
    let s ← s.onGroupNewContainer handle groupName name
    s.tioReceiveUntilNotEvent socket
  | .answer a :: socket => .ok (a, socket, s)

/-- Whether the command failed. `sendFails` is what the socket does with the request. -/
def tioContainerInputCommand (s : TioConnection) (socket : List Message) (command : Command) (sendFails : Bool) :
    Except Stop (Bool × List Message × TioConnection) :=
  if sendFails then pure (true, socket, s)
  else
    let s := { s with sent := s.sent ++ [command] }
    if s.waitForAnswer then do
      let (answer, socket, s) ← s.tioReceiveUntilNotEvent socket
      pure (answer.failed, socket, s)
    else do
      let pendingEventCount ← toInt (s.pendingEventCount + 1)
      pure (false, socket, { s with pendingEventCount })

/-- `tio_begin_network_batch` -/
def tioBeginNetworkBatch (s : TioConnection) : TioConnection := { s with waitForAnswer := false }

theorem tioReceiveUntilNotEvent_length {s : TioConnection} {socket : List Message} {a : Answer}
    {r : List Message × TioConnection} (h : s.tioReceiveUntilNotEvent socket = .ok (a, r)) :
    r.1.length < socket.length := by
  fun_induction tioReceiveUntilNotEvent s socket with
  | case1 => cases h
  | case2 s e socket ih =>
    simp only [bind, Except.bind] at h
    split at h
    · cases h
    · exact (ih _ h).trans (Nat.lt_succ_self _)
  | case3 s handle groupName name socket ih =>
    simp only [bind, Except.bind] at h
    split at h
    · cases h
    · exact (ih _ h).trans (Nat.lt_succ_self _)
  | case4 s a' socket =>
    cases h
    exact Nat.lt_succ_self _

/-- The loop of `tio_finish_network_batch`. Its bound is read again each time. -/
def receivePending (s : TioConnection) (a : Int) (socket : List Message) :
    Except Stop (List Message × TioConnection) :=
  if a < s.pendingEventCount then
    match h : s.tioReceiveUntilNotEvent socket with
    | .error stop => .error stop
    | .ok (_, socket', s') => s'.receivePending (a + 1) socket'
  else pure (socket, s)
termination_by socket.length
decreasing_by exact tioReceiveUntilNotEvent_length h

/-- `tio_finish_network_batch` -/
def tioFinishNetworkBatch (s : TioConnection) (socket : List Message) :
    Except Stop (List Message × TioConnection) := do
  let (socket, s) ← { s with waitForAnswer := true }.receivePending 0 socket
  pure (socket, { s with pendingEventCount := 0 })

/-- Commands that are sent. -/
def inputCommands (s : TioConnection) (socket : List Message) :
    List Command → Except Stop (List Message × TioConnection)
  | [] => pure (socket, s)
  | command :: commands => do
    let (_, socket, s) ← s.tioContainerInputCommand socket command false
    s.inputCommands socket commands

/-- A batch from its begin to its end, with these commands in it. -/
def networkBatch (s : TioConnection) (commands : List Command) (socket : List Message) :
    Except Stop (List Message × TioConnection) := do
  let (socket, s) ← s.tioBeginNetworkBatch.inputCommands socket commands
  s.tioFinishNetworkBatch socket

/-! ## The queue and its counter -/

theorem toInt_ok {n : Int} (hlow : -2 ^ 31 ≤ n) (hhigh : n < 2 ^ 31) : toInt n = .ok n := if_pos ⟨hlow, hhigh⟩

theorem toInt_error {n : Int} (h : 2 ^ 31 ≤ n) : toInt n = .error .undefined := if_neg (by omega)

variable {s : TioConnection} {e : EventMessage} {es : List EventMessage}

theorem eventsListPush_eq (hq : s.eventList.Holds es) (e : EventMessage) :
    ∃ eventList, eventList.Holds (es ++ [e]) ∧
      s.eventsListPush e = (toInt (s.pendingEventCount + 1)).map fun pendingEventCount =>
        { s with eventList, pendingEventCount } := by
  obtain ⟨eventList, hpush, hq'⟩ := hq.push e
  refine ⟨eventList, hq', ?_⟩
  unfold eventsListPush
  rw [hpush]
  rfl

theorem eventsListPop_nil (hq : s.eventList.Holds []) : s.eventsListPop = .ok (none, s) := by
  unfold eventsListPop
  rw [hq.pop_nil]
  rfl

theorem eventsListPop_cons (hq : s.eventList.Holds (e :: es)) (hcount : 0 < s.pendingEventCount)
    (hlt : s.pendingEventCount < 2 ^ 31) :
    ∃ eventList, eventList.Holds es ∧ s.eventsListPop =
      .ok (some e, { s with eventList, pendingEventCount := s.pendingEventCount - 1 }) := by
  obtain ⟨eventList, hpop, hq'⟩ := hq.pop_cons
  refine ⟨eventList, hq', ?_⟩
  unfold eventsListPop
  rw [hpop]
  change (toInt (s.pendingEventCount - 1)).bind _ = _
  rw [toInt_ok (by omega) (by omega)]
  rfl

theorem dispatchEvent_eq (h : (s.table.dispatchEvent e).fault = none) :
    s.dispatchEvent e = .ok { s with table := s.table.dispatchEvent e, dispatched := s.dispatched ++ [e] } := by
  unfold dispatchEvent noFault
  rw [h]
  rfl

theorem tioDispatchPendingEvents_eq (hq : s.eventList.Holds es) (hcount : (es.length : Int) ≤ s.pendingEventCount)
    (hlt : s.pendingEventCount < 2 ^ 31) (n : Nat) (hfault : (s.table.dispatchEvents (es.take n)).fault = none) :
    ∃ eventList, eventList.Holds (es.drop n) ∧ s.tioDispatchPendingEvents n = .ok { s with
      table := s.table.dispatchEvents (es.take n)
      eventList
      pendingEventCount := s.pendingEventCount - (es.take n).length
      dispatched := s.dispatched ++ es.take n } := by
  induction n generalizing s es with
  | zero =>
    refine ⟨s.eventList, hq, ?_⟩
    simp [tioDispatchPendingEvents, Connection.dispatchEvents]
    rfl
  | succ n ih =>
    rw [tioDispatchPendingEvents]
    cases es with
    | nil =>
      refine ⟨s.eventList, hq, ?_⟩
      rw [eventsListPop_nil hq]
      simp [Connection.dispatchEvents, bind, Except.bind]
      rfl
    | cons e es =>
      rw [List.length_cons] at hcount
      rw [List.take_succ_cons] at hfault
      obtain ⟨hfirst, hcons⟩ := Connection.dispatchEvents_cons hfault
      rw [hcons] at hfault
      obtain ⟨eventList, hq', hpop⟩ := eventsListPop_cons hq (by omega) hlt
      let s' : TioConnection := { s with
        eventList
        pendingEventCount := s.pendingEventCount - 1
        table := s.table.dispatchEvent e
        dispatched := s.dispatched ++ [e] }
      obtain ⟨eventList', hq'', hrest⟩ := ih (s := s') hq' (by change _ ≤ s.pendingEventCount - 1; omega)
        (by change s.pendingEventCount - 1 < _; omega) hfault
      refine ⟨eventList', hq'', ?_⟩
      rw [hpop]
      simp only [bind, Except.bind]
      rw [dispatchEvent_eq (by exact hfirst)]
      change s'.tioDispatchPendingEvents n = _
      rw [hrest, List.take_succ_cons, hcons, List.length_cons]
      have hleft : s.pendingEventCount - 1 - (es.take n).length =
          s.pendingEventCount - ((es.take n).length + 1 : Nat) := by
        omega
      simp only [s', hleft, List.append_assoc, List.singleton_append]

/-- The connection with the events that wait in a list. -/
def view (s : TioConnection) (events : List EventMessage) : Connection := { s.table with pendingEvents := events }

theorem onEventReceive_view (hq : s.eventList.Holds es) (hcount : s.pendingEventCount = es.length)
    (hlt : es.length + 1 < 2 ^ 31) (hfault : ((s.view es).onEventReceive e).fault = none) :
    ∃ s' es', s.onEventReceive e = .ok s' ∧ s'.eventList.Holds es' ∧ s'.pendingEventCount = es'.length ∧
      s'.view es' = (s.view es).onEventReceive e := by
  obtain ⟨eventList, hq', hpush⟩ := eventsListPush_eq hq e
  rw [toInt_ok (by omega) (by omega)] at hpush
  let s' : TioConnection := { s with eventList, pendingEventCount := s.pendingEventCount + 1 }
  have hone : s.onEventReceive e = if (s.table.maxPendingEventCount : Int) ≤ s.pendingEventCount + 1 then
      s'.tioDispatchPendingEvents 0xFFFFFFFF else pure s' := by
    unfold onEventReceive
    rw [hpush]
    rfl
  have hlength : (es ++ [e]).length = es.length + 1 := List.length_append
  have hview : (s.view es).onEventReceive e = if s.table.maxPendingEventCount ≤ es.length + 1 then
      { s.table.dispatchEvents ((es ++ [e]).take 0xFFFFFFFF) with pendingEvents := (es ++ [e]).drop 0xFFFFFFFF }
      else s.view (es ++ [e]) := by
    rw [← Connection.dispatchEvents_with, ← hlength]
    rfl
  rw [hview] at hfault ⊢
  rw [hone]
  by_cases hfull : s.table.maxPendingEventCount ≤ es.length + 1
  · rw [if_pos hfull] at hfault ⊢
    rw [if_pos (by omega)]
    obtain ⟨eventList', hq'', hall⟩ := tioDispatchPendingEvents_eq (s := s') hq' (by dsimp only [s']; omega)
      (by dsimp only [s']; omega) 0xFFFFFFFF hfault
    refine ⟨_, _, hall, hq'', ?_, rfl⟩
    have hsum := congrArg List.length (List.take_append_drop 0xFFFFFFFF (es ++ [e]))
    rw [List.length_append, hlength] at hsum
    dsimp only [s']
    omega
  · rw [if_neg hfull] at hfault ⊢
    rw [if_neg (by omega)]
    exact ⟨s', es ++ [e], rfl, hq', by dsimp only [s']; omega, rfl⟩

end TioConnection

/-! ## The messages of a batch -/

/-- What a message does to the table, as it comes. -/
def arrived (t : Connection) : Message → Connection
  | .event e => t.dispatchEvent e
  | .newGroupContainer handle groupName name => t.registerContainer (some handle) name (some groupName)
  | .answer _ => t

/-- The length of the table after a message. -/
def tableLength (length : Nat) : Message → Nat
  | .newGroupContainer handle _ _ => Connection.grownLength length handle
  | _ => length

def eventOf : Message → Option EventMessage
  | .event e => some e
  | _ => none

def isAnswer : Message → Bool
  | .answer _ => true
  | _ => false

def isNewGroupContainer : Message → Bool
  | .newGroupContainer .. => true
  | _ => false

/-- The messages up to the last answer, which is among them. -/
def throughLastAnswer (socket : List Message) : List Message := socket.rdropWhile fun m => !isAnswer m

/-- The table has a container under the handle. -/
def Known (t : Connection) (handle : Int32) : Prop := ∃ i c, t.entry handle = some i ∧ t.heap i = some c

/-- Every event is for a handle that the table has or that an earlier message announces. -/
structure Announced (t : Connection) (ms : List Message) : Prop where
  events : ∀ before e after, ms = before ++ .event e :: after →
    Known t e.handle ∨ ∃ groupName name, .newGroupContainer e.handle groupName name ∈ before
  handles : ∀ handle groupName name, .newGroupContainer handle groupName name ∈ ms → 0 ≤ handle

/-- The counters of the client and the length of its table stay within an `int` while it receives `ms`. -/
structure Countable (count opened : Int) (length : Nat) (ms : List Message) : Prop where
  events : ∀ e, .event e ∈ ms → count + 1 < 2 ^ 31
  containers : opened + ms.countP isNewGroupContainer < 2 ^ 31
  table : ∀ before handle groupName name after, ms = before ++ .newGroupContainer handle groupName name :: after →
    Connection.Fits (before.foldl tableLength length) handle

namespace Connection

theorem dispatchEvent_of_known {t : Connection} {e : EventMessage} (h : Known t e.handle) :
    ∃ invoked, t.dispatchEvent e = { t with invoked } := by
  obtain ⟨i, c, hi, hc⟩ := h
  unfold dispatchEvent
  rw [lookup_of_entry hi hc]
  dsimp only
  split
  · exact ⟨t.invoked, rfl⟩
  · exact ⟨_, rfl⟩

theorem known_registerContainer {t : Connection} {handle : Int32} (hfault : t.fault = none)
    (hsized : 0 < t.containers.length) (hh : 0 ≤ handle)
    (hfits : Fits t.containers.length handle) (name : Bytes) (groupName : Option Bytes) {h : Int32}
    (hknown : Known t h ∨ h = handle) :
    Known (t.registerContainer (some handle) name groupName) h := by
  obtain ⟨n, ht', hlength⟩ := registerContainer_eq hfault hsized hh hfits name groupName
  have hentry := entry_registered hh (hlength ▸ lt_grownLength hsized hh) t.mallocs h
  rw [ht']
  by_cases he : h = handle
  · exact ⟨t.mallocs, _, hentry.trans (if_pos he), Function.update_self ..⟩
  · obtain ⟨i, c, hi, hc⟩ := hknown.resolve_right he
    by_cases hnew : i = t.mallocs
    · exact ⟨i, _, (hentry.trans (if_neg he)).trans hi, by rw [hnew]; exact Function.update_self ..⟩
    · exact ⟨i, c, (hentry.trans (if_neg he)).trans hi, (Function.update_of_ne hnew ..).trans hc⟩

theorem registerContainer_overflow {t : Connection} {handle : Int32}
    (hfits : ¬ Fits t.containers.length handle) (name : Bytes) (groupName : Option Bytes) :
    (t.registerContainer (some handle) name groupName).fault = some .overflow := by
  obtain ⟨hlong, hdouble⟩ := not_or.mp hfits
  let u : Connection :=
    { t with
      heap := Function.update t.heap t.mallocs (some { handle, groupName, name })
      mallocs := t.mallocs + 1 }
  have hgrow : u.growContainers handle = { u with fault := some .overflow } := by
    unfold growContainers
    rw [if_neg hlong, if_pos (Int.not_lt.mp hdouble)]
  change (if (u.growContainers handle).fault.isSome then u.growContainers handle
    else (u.growContainers handle).setEntry handle _).fault = _
  rw [hgrow]
  rfl

end Connection

theorem Announced.tail {t : Connection} {m : Message} {ms : List Message} (h : Announced t (m :: ms))
    (hkeep : ∀ handle, Known t handle ∨ (∃ groupName name, m = .newGroupContainer handle groupName name) →
      Known (arrived t m) handle) : Announced (arrived t m) ms where
  events := by
    rintro before e after rfl
    obtain hknown | ⟨groupName, name, hmem⟩ := h.events (m :: before) e after rfl
    · exact .inl (hkeep _ (.inl hknown))
    · obtain hm | hmem := List.mem_cons.mp hmem
      · exact .inl (hkeep _ (.inr ⟨groupName, name, hm.symm⟩))
      · exact .inr ⟨groupName, name, hmem⟩
  handles := fun handle groupName name hmem => h.handles handle groupName name (List.mem_cons_of_mem _ hmem)

theorem Announced.of_append {t : Connection} {ms rest : List Message} (h : Announced t (ms ++ rest)) :
    Announced t ms where
  events := by
    rintro before e after rfl
    exact h.events before e (after ++ rest) (List.append_assoc ..)
  handles := fun handle groupName name hmem => h.handles handle groupName name (List.mem_append_left _ hmem)

theorem countP_cons_message (m : Message) (ms : List Message) :
    ((m :: ms).countP isNewGroupContainer : Int) =
      [m].countP isNewGroupContainer + ms.countP isNewGroupContainer := by
  change (([m] ++ ms).countP isNewGroupContainer : Int) = _
  rw [List.countP_append, Int.natCast_add]

theorem countable_nil {count opened : Int} {length : Nat} : Countable count opened length [] ↔ opened < 2 ^ 31 := by
  constructor
  · intro h
    simpa using h.containers
  · intro h
    exact ⟨by simp, by simpa using h, by simp⟩

theorem countable_cons {count opened : Int} {length : Nat} {m : Message} {ms : List Message} :
    Countable count opened length (m :: ms) ↔ Countable count opened length [m] ∧
      Countable count (opened + [m].countP isNewGroupContainer) (tableLength length m) ms := by
  have hcount := countP_cons_message m ms
  constructor
  · intro h
    have hcontainers := h.containers
    rw [hcount] at hcontainers
    refine ⟨⟨fun e he => h.events e (by simp_all), by omega, ?_⟩, fun e he => h.events e (List.mem_cons_of_mem _ he),
      by omega, ?_⟩
    · intro before handle groupName name after hm
      obtain ⟨rfl, rfl, rfl⟩ : before = [] ∧ m = .newGroupContainer handle groupName name ∧ after = [] := by
        cases before <;> simp_all
      exact h.table [] handle groupName name ms rfl
    · rintro before handle groupName name after rfl
      exact h.table (m :: before) handle groupName name after rfl
  · rintro ⟨hm, hms⟩
    refine ⟨fun e he => ?_, ?_, ?_⟩
    · obtain rfl | he := List.mem_cons.mp he
      · exact hm.events e (List.mem_cons_self ..)
      · exact hms.events e he
    · have := hms.containers
      rw [hcount]
      omega
    · intro before handle groupName name after heq
      cases before with
      | nil =>
        obtain ⟨rfl, rfl⟩ := List.cons.inj heq
        exact hm.table [] handle groupName name [] rfl
      | cons m' before =>
        obtain ⟨rfl, rfl⟩ := List.cons.inj heq
        exact hms.table before handle groupName name after rfl

namespace TioConnection

/-- No event waits, and what the connection does is defined. -/
structure Ready (s : TioConnection) : Prop where
  queue : s.eventList.Holds []
  counted : 0 ≤ s.pendingEventCount
  opened : -2 ^ 31 ≤ s.openContainersCount ∧ s.openContainersCount < 2 ^ 31
  fault : s.table.fault = none
  eager : s.table.maxPendingEventCount = 0
  sized : 0 < s.table.containers.length

/-- One turn of the loop of `tio_receive_until_not_event`. -/
def received (s : TioConnection) : Message → Except Stop TioConnection
  | .event e => s.onEventReceive e
  | .newGroupContainer handle groupName name => s.onGroupNewContainer handle groupName name
  | .answer _ => pure s

/-- The messages are received: the events among them were dispatched. -/
structure Received (s : TioConnection) (ms : List Message) (s' : TioConnection) : Prop where
  ready : s'.Ready
  count : s'.pendingEventCount = s.pendingEventCount
  opened : s'.openContainersCount = s.openContainersCount + ms.countP isNewGroupContainer
  table : s'.table = ms.foldl arrived s.table
  length : s'.table.containers.length = ms.foldl tableLength s.table.containers.length
  dispatched : s'.dispatched = s.dispatched ++ ms.filterMap eventOf

theorem Ready.nil {s : TioConnection} (hs : s.Ready) : s.Received [] s :=
  ⟨hs, rfl, by simp, rfl, rfl, by simp⟩

theorem Received.cons {s s' s'' : TioConnection} {m : Message} {ms : List Message} (h : s.Received [m] s')
    (h' : s'.Received ms s'') : s.Received (m :: ms) s'' where
  ready := h'.ready
  count := h'.count.trans h.count
  opened := by
    rw [h'.opened, h.opened, countP_cons_message m ms, add_assoc]
  table := by
    rw [h'.table, h.table]
    rfl
  length := by
    rw [h'.length, h.length]
    rfl
  dispatched := by
    rw [h'.dispatched, h.dispatched, List.append_assoc, ← List.filterMap_append]
    rfl

theorem onEventReceive_eq {s : TioConnection} {e : EventMessage} (hs : s.Ready) (hknown : Known s.table e.handle)
    (hcount : s.pendingEventCount + 1 < 2 ^ 31) :
    ∃ eventList, eventList.Holds [] ∧ s.onEventReceive e = .ok { s with
      table := s.table.dispatchEvent e
      eventList
      dispatched := s.dispatched ++ [e] } := by
  obtain ⟨invoked, hdispatch⟩ := Connection.dispatchEvent_of_known hknown
  obtain ⟨eventList, hq, hpush⟩ := eventsListPush_eq hs.queue e
  have hcounted := hs.counted
  rw [List.nil_append] at hq
  rw [toInt_ok (by omega) hcount] at hpush
  let s' : TioConnection := { s with eventList, pendingEventCount := s.pendingEventCount + 1 }
  have hone : s'.table.dispatchEvents ([e].take 0xFFFFFFFF) = s.table.dispatchEvent e := by
    simp [s', Connection.dispatchEvents]
  obtain ⟨eventList', hq', hall⟩ := tioDispatchPendingEvents_eq (s := s') hq (by simp [s']; omega) hcount 0xFFFFFFFF
    (by rw [hone, hdispatch]; exact hs.fault)
  refine ⟨eventList', hq', ?_⟩
  unfold onEventReceive
  rw [hpush]
  change (if (s.table.maxPendingEventCount : Int) ≤ s.pendingEventCount + 1 then s'.tioDispatchPendingEvents 0xFFFFFFFF
    else pure s') = _
  rw [if_pos (by rw [hs.eager]; omega), hall, hone]
  simp [s']

theorem onEventReceive_overflow {s : TioConnection} {e : EventMessage} (hs : s.Ready)
    (hcount : ¬ s.pendingEventCount + 1 < 2 ^ 31) : s.onEventReceive e = .error .undefined := by
  obtain ⟨eventList, -, hpush⟩ := eventsListPush_eq hs.queue e
  unfold onEventReceive
  rw [hpush, toInt_error (by omega)]
  rfl

theorem onGroupNewContainer_eq {s : TioConnection} {handle : Int32} (hs : s.Ready) (hh : 0 ≤ handle)
    (hfits : Connection.Fits s.table.containers.length handle) (hopened : s.openContainersCount + 1 < 2 ^ 31)
    (groupName name : Bytes) :
    s.onGroupNewContainer handle groupName name = .ok { s with
      table := s.table.registerContainer (some handle) name (some groupName)
      openContainersCount := s.openContainersCount + 1 } := by
  obtain ⟨n, hregister, -⟩ := Connection.registerContainer_eq hs.fault hs.sized hh hfits name (some groupName)
  have hlow := hs.opened.1
  unfold onGroupNewContainer noFault
  rw [hregister, hs.fault, toInt_ok (by omega) hopened]
  rfl

theorem onGroupNewContainer_overflow {s : TioConnection} {handle : Int32} {groupName name : Bytes}
    (h : ¬ (Connection.Fits s.table.containers.length handle ∧ s.openContainersCount + 1 < 2 ^ 31)) :
    s.onGroupNewContainer handle groupName name = .error .undefined := by
  unfold onGroupNewContainer noFault
  split
  · rfl
  · rename_i hfault
    have hfits : Connection.Fits s.table.containers.length handle := by
      by_contra hfits
      rw [Connection.registerContainer_overflow hfits] at hfault
      exact hfault rfl
    change (toInt (s.openContainersCount + 1)).bind _ = _
    rw [toInt_error (Int.not_lt.mp fun hlt => h ⟨hfits, hlt⟩)]
    rfl

theorem received_ok {s : TioConnection} {m : Message} {ms : List Message} (hs : s.Ready)
    (ha : Announced s.table (m :: ms))
    (hc : Countable s.pendingEventCount s.openContainersCount s.table.containers.length [m]) :
    ∃ s', s.received m = .ok s' ∧ s.Received [m] s' ∧ Announced s'.table ms := by
  cases m with
  | event e =>
    obtain hknown | ⟨_, _, hmem⟩ := ha.events [] e ms rfl
    · obtain ⟨eventList, hq, hreceive⟩ := onEventReceive_eq hs hknown (hc.events e (List.mem_singleton_self _))
      obtain ⟨invoked, hdispatch⟩ := Connection.dispatchEvent_of_known hknown
      have hlength : (s.table.dispatchEvent e).containers.length = s.table.containers.length := by rw [hdispatch]
      refine ⟨_, hreceive, ⟨⟨hq, hs.counted, hs.opened, ?_, ?_, ?_⟩, rfl, ?_, rfl, ?_, rfl⟩, ?_⟩
      · exact (congrArg Connection.fault hdispatch).trans hs.fault
      · exact (congrArg Connection.maxPendingEventCount hdispatch).trans hs.eager
      · exact hlength.symm ▸ hs.sized
      · simp [isNewGroupContainer]
      · exact hlength
      · apply ha.tail
        rintro handle (⟨i, c, hi, hc⟩ | ⟨_, _, hm⟩)
        · change Known (s.table.dispatchEvent e) handle
          rw [hdispatch]
          exact ⟨i, c, hi, hc⟩
        · cases hm
    · cases hmem
  | newGroupContainer handle groupName name =>
    have hh := ha.handles handle groupName name (List.mem_cons_self ..)
    have hfits := hc.table [] handle groupName name [] rfl
    have hopened : s.openContainersCount + 1 < 2 ^ 31 := by simpa [isNewGroupContainer] using hc.containers
    have hlow := hs.opened.1
    obtain ⟨n, hregister, hlength⟩ := Connection.registerContainer_eq hs.fault hs.sized hh hfits name (some groupName)
    have hlength' : (s.table.registerContainer (some handle) name (some groupName)).containers.length =
        Connection.grownLength s.table.containers.length handle := by
      rw [hregister, List.length_set, List.length_append, List.length_replicate, hlength]
    refine ⟨_, onGroupNewContainer_eq hs hh hfits hopened groupName name,
      ⟨⟨hs.queue, hs.counted, ⟨by dsimp only; omega, hopened⟩, ?_, ?_, ?_⟩, rfl, ?_, rfl, hlength', by simp [eventOf]⟩,
      ?_⟩
    · exact (congrArg Connection.fault hregister).trans hs.fault
    · exact (congrArg Connection.maxPendingEventCount hregister).trans hs.eager
    · exact hlength' ▸ Nat.zero_lt_of_lt (Connection.lt_grownLength hs.sized hh)
    · simp [isNewGroupContainer]
    · apply ha.tail
      rintro h (hknown | ⟨_, _, hm⟩)
      · exact Connection.known_registerContainer hs.fault hs.sized hh hfits name _ (.inl hknown)
      · cases hm
        exact Connection.known_registerContainer hs.fault hs.sized hh hfits name _ (.inr rfl)
  | answer a =>
    refine ⟨s, rfl, ⟨hs, rfl, by simp [isNewGroupContainer], rfl, rfl, by simp [eventOf]⟩, ?_⟩
    apply ha.tail
    rintro h (hknown | ⟨_, _, hm⟩)
    · exact hknown
    · cases hm

theorem received_overflow {s : TioConnection} {m : Message} (hs : s.Ready)
    (hc : ¬ Countable s.pendingEventCount s.openContainersCount s.table.containers.length [m]) :
    s.received m = .error .undefined := by
  have hopened := hs.opened.2
  cases m with
  | event e =>
    apply onEventReceive_overflow hs
    intro hcount
    exact hc ⟨fun _ _ => hcount, by simpa [isNewGroupContainer] using hopened, by simp [List.singleton_eq_append_iff]⟩
  | newGroupContainer handle groupName name =>
    apply onGroupNewContainer_overflow
    rintro ⟨hfits, hcount⟩
    refine hc ⟨by simp, by simpa [isNewGroupContainer] using hcount, ?_⟩
    intro before handle' groupName' name' after heq
    cases before <;> simp_all
  | answer a =>
    exact absurd ⟨by simp, by simpa [isNewGroupContainer] using hopened, by simp [List.singleton_eq_append_iff]⟩ hc

theorem receivedAll_ok {s : TioConnection} {ms rest : List Message} (hs : s.Ready)
    (ha : Announced s.table (ms ++ rest))
    (hc : Countable s.pendingEventCount s.openContainersCount s.table.containers.length ms) :
    ∃ s', ms.foldlM received s = .ok s' ∧ s.Received ms s' ∧ Announced s'.table rest := by
  induction ms generalizing s with
  | nil => exact ⟨s, rfl, hs.nil, ha⟩
  | cons m ms ih =>
    obtain ⟨hm, hms⟩ := countable_cons.mp hc
    obtain ⟨s', hreceived, h, ha'⟩ := received_ok hs ha hm
    have hlength : s'.table.containers.length = tableLength s.table.containers.length m := h.length
    rw [← h.count, ← h.opened, ← hlength] at hms
    obtain ⟨s'', hall, h', ha''⟩ := ih h.ready ha' hms
    refine ⟨s'', ?_, h.cons h', ha''⟩
    rw [List.foldlM_cons, hreceived]
    exact hall

theorem receivedAll_overflow {s : TioConnection} {ms rest : List Message} (hs : s.Ready)
    (ha : Announced s.table (ms ++ rest))
    (hc : ¬ Countable s.pendingEventCount s.openContainersCount s.table.containers.length ms) :
    ms.foldlM received s = .error .undefined := by
  induction ms generalizing s with
  | nil => exact absurd (countable_nil.mpr hs.opened.2) hc
  | cons m ms ih =>
    rw [countable_cons, not_and] at hc
    rw [List.foldlM_cons]
    by_cases hm : Countable s.pendingEventCount s.openContainersCount s.table.containers.length [m]
    · obtain ⟨s', hreceived, h, ha'⟩ := received_ok hs ha hm
      have hlength : s'.table.containers.length = tableLength s.table.containers.length m := h.length
      have hms := hc hm
      rw [← h.count, ← h.opened, ← hlength] at hms
      rw [hreceived]
      exact ih h.ready ha' hms
    · rw [received_overflow hs hm]
      rfl

/-! ## The loops -/

theorem tioReceiveUntilNotEvent_eq {s : TioConnection} {before : List Message} (h : ∀ m ∈ before, ¬ isAnswer m)
    (a : Answer) (rest : List Message) :
    s.tioReceiveUntilNotEvent (before ++ .answer a :: rest) =
      (before.foldlM received s).map fun s' => (a, rest, s') := by
  induction before generalizing s with
  | nil => rfl
  | cons m before ih =>
    have hrest (s' : TioConnection) := ih (s := s') fun m' hm' => h m' (List.mem_cons_of_mem _ hm')
    rw [List.cons_append, List.foldlM_cons]
    cases m with
    | event e =>
      rw [tioReceiveUntilNotEvent]
      simp only [hrest, received]
      cases s.onEventReceive e <;> rfl
    | newGroupContainer handle groupName name =>
      rw [tioReceiveUntilNotEvent]
      simp only [hrest, received]
      cases s.onGroupNewContainer handle groupName name <;> rfl
    | answer a' => exact absurd rfl (h (.answer a') (List.mem_cons_self ..))

theorem exists_answer {ms : List Message} (h : ms.countP isAnswer ≠ 0) :
    ∃ before a after, ms = before ++ .answer a :: after ∧ ∀ m ∈ before, ¬ isAnswer m := by
  induction ms with
  | nil => exact absurd rfl h
  | cons m ms ih =>
    by_cases hm : isAnswer m
    · cases m with
      | answer a => exact ⟨[], a, ms, rfl, by simp⟩
      | event e => cases hm
      | newGroupContainer handle groupName name => cases hm
    · rw [List.countP_cons_of_neg hm] at h
      obtain ⟨before, a, after, rfl, hbefore⟩ := ih h
      exact ⟨m :: before, a, after, rfl, List.forall_mem_cons.mpr ⟨hm, hbefore⟩⟩

theorem throughLastAnswer_tail {before after : List Message} {m : Message}
    (h : throughLastAnswer (before ++ m :: after) = before ++ m :: after) : throughLastAnswer after = after := by
  unfold throughLastAnswer at h ⊢
  rw [List.rdropWhile_eq_self_iff] at h ⊢
  intro hafter
  have hlast := h (by simp)
  rwa [List.getLast_append_of_ne_nil _ (List.cons_ne_nil m after), List.getLast_cons hafter] at hlast

/-- The turns of the loop are over with the last answer: each takes one answer, and the count is what it was. -/
theorem receivePending_eq {s : TioConnection} {ms : List Message} {a : Int} (hs : s.Ready)
    (ha : Announced s.table ms) (hcount : s.pendingEventCount = a + ms.countP isAnswer)
    (hlast : throughLastAnswer ms = ms) (rest : List Message) :
    s.receivePending a (ms ++ rest) = (ms.foldlM received s).map fun s' => (rest, s') := by
  induction hn : ms.countP isAnswer generalizing s ms a with
  | zero =>
    have hms : ms = [] := by
      rw [← hlast]
      refine List.rdropWhile_eq_nil_iff.mpr fun m hm => ?_
      simpa using List.countP_eq_zero.mp hn m hm
    subst hms
    rw [receivePending, if_neg (by simp at hcount; omega)]
    rfl
  | succ n ih =>
    obtain ⟨before, x, after, rfl, hbefore⟩ := exists_answer (by omega : ms.countP isAnswer ≠ 0)
    have hafter : after.countP isAnswer = n := by
      rw [List.countP_append, List.countP_eq_zero.mpr hbefore, List.countP_cons_of_pos rfl] at hn
      omega
    have hreceive := tioReceiveUntilNotEvent_eq (s := s) hbefore x (after ++ rest)
    rw [receivePending, if_pos (by omega), List.append_assoc, List.cons_append, List.foldlM_append]
    by_cases hc : Countable s.pendingEventCount s.openContainersCount s.table.containers.length before
    · obtain ⟨s', hall, h, ha'⟩ := receivedAll_ok hs ha hc
      rw [hall] at hreceive
      have ha'' : Announced s'.table after := ha'.tail fun handle hknown =>
        hknown.resolve_right fun ⟨_, _, hm⟩ => by cases hm
      have hrest := ih h.ready ha'' (a := a + 1) (by rw [h.count]; omega) (throughLastAnswer_tail hlast) hafter
      split
      · rename_i heq
        rw [hreceive] at heq
        cases heq
      · rename_i heq
        rw [hreceive] at heq
        cases heq
        rw [hrest, hall]
        rfl
    · have hall := receivedAll_overflow hs ha hc
      rw [hall] at hreceive
      split
      · rename_i heq
        rw [hreceive] at heq
        cases heq
        rw [hall]
        rfl
      · rename_i heq
        rw [hreceive] at heq
        cases heq

theorem tioContainerInputCommand_eq {s : TioConnection} (hwait : s.waitForAnswer = false) (socket : List Message)
    (command : Command) :
    s.tioContainerInputCommand socket command false =
      (toInt (s.pendingEventCount + 1)).map fun pendingEventCount =>
        (false, socket, { s with sent := s.sent ++ [command], pendingEventCount }) := by
  unfold tioContainerInputCommand
  rw [if_neg Bool.false_ne_true, if_neg (by simp [hwait])]
  rfl

theorem inputCommands_ok {s : TioConnection} {commands : List Command} (hwait : s.waitForAnswer = false)
    (hcount : 0 ≤ s.pendingEventCount) (hlt : s.pendingEventCount + commands.length < 2 ^ 31)
    (socket : List Message) :
    s.inputCommands socket commands = .ok (socket, { s with
      sent := s.sent ++ commands
      pendingEventCount := s.pendingEventCount + commands.length }) := by
  induction commands generalizing s with
  | nil => simp [inputCommands, pure, Except.pure]
  | cons command commands ih =>
    rw [List.length_cons] at hlt
    let s' : TioConnection :=
      { s with sent := s.sent ++ [command], pendingEventCount := s.pendingEventCount + 1 }
    have hcounted : s'.pendingEventCount = s.pendingEventCount + 1 := rfl
    rw [inputCommands, tioContainerInputCommand_eq hwait, toInt_ok (by omega) (by omega)]
    refine (ih (s := s') hwait (by omega) (by omega)).trans ?_
    have hsum : s.pendingEventCount + 1 + commands.length = s.pendingEventCount + (commands.length + 1 : Nat) := by
      omega
    simp only [s', hsum, List.append_assoc, List.singleton_append, List.length_cons]

theorem inputCommands_overflow {s : TioConnection} {commands : List Command} (hwait : s.waitForAnswer = false)
    (hcount : 0 ≤ s.pendingEventCount) (hlt : s.pendingEventCount < 2 ^ 31)
    (hlong : 2 ^ 31 ≤ s.pendingEventCount + commands.length) (socket : List Message) :
    s.inputCommands socket commands = .error .undefined := by
  induction commands generalizing s with
  | nil => simp at hlong; omega
  | cons command commands ih =>
    rw [List.length_cons] at hlong
    rw [inputCommands, tioContainerInputCommand_eq hwait]
    by_cases hfull : s.pendingEventCount + 1 < 2 ^ 31
    · rw [toInt_ok (by omega) hfull]
      exact ih hwait (by dsimp only; omega) hfull (by dsimp only; omega)
    · rw [toInt_error (Int.not_lt.mp hfull)]
      rfl

/-! ## The batch -/

/-- What `tio_finish_network_batch` has done when it returns `r`. -/
structure BatchDone (s : TioConnection) (commands : List Command) (socket : List Message)
    (r : List Message × TioConnection) : Prop where
  consumed : socket = throughLastAnswer socket ++ r.1
  answers : (throughLastAnswer socket).countP isAnswer = commands.length
  dispatched : r.2.dispatched = s.dispatched ++ (throughLastAnswer socket).filterMap eventOf
  table : r.2.table = (throughLastAnswer socket).foldl arrived s.table
  count : r.2.pendingEventCount = 0
  queue : r.2.eventList.Holds []

/-- The connection when the loop of `tio_finish_network_batch` begins. -/
def batched (s : TioConnection) (commands : List Command) : TioConnection :=
  { s with waitForAnswer := true, sent := s.sent ++ commands, pendingEventCount := commands.length }

theorem Ready.batched {s : TioConnection} (hs : s.Ready) (commands : List Command) : (s.batched commands).Ready :=
  ⟨hs.queue, Int.natCast_nonneg _, hs.opened, hs.fault, hs.eager, hs.sized⟩

theorem networkBatch_overflow {s : TioConnection} {commands : List Command} (hcount : s.pendingEventCount = 0)
    (hlong : ¬ commands.length < 2 ^ 31) (socket : List Message) :
    s.networkBatch commands socket = .error .undefined := by
  have hcount' : s.tioBeginNetworkBatch.pendingEventCount = 0 := hcount
  unfold networkBatch
  rw [inputCommands_overflow rfl (by omega) (by omega) (by omega)]
  rfl

theorem countP_throughLastAnswer (socket : List Message) :
    (throughLastAnswer socket).countP isAnswer = socket.countP isAnswer := by
  have hrest : (socket.rtakeWhile fun m => !isAnswer m).countP isAnswer = 0 := by
    refine List.countP_eq_zero.mpr fun m hm => ?_
    simpa using List.mem_rtakeWhile_imp hm
  conv_rhs => rw [← List.rdropWhile_append_rtakeWhile (l := socket) (p := fun m => !isAnswer m)]
  rw [List.countP_append, hrest, Nat.add_zero]
  rfl

theorem networkBatch_eq {s : TioConnection} {commands : List Command} {socket : List Message} (hs : s.Ready)
    (hcount : s.pendingEventCount = 0) (ha : Announced s.table socket)
    (hanswers : socket.countP isAnswer = commands.length) (hlt : commands.length < 2 ^ 31) :
    s.networkBatch commands socket =
      ((throughLastAnswer socket).foldlM received (s.batched commands)).map fun s' =>
        (socket.rtakeWhile fun m => !isAnswer m, { s' with pendingEventCount := 0 }) := by
  have hcount' : s.tioBeginNetworkBatch.pendingEventCount = 0 := hcount
  have hsocket : throughLastAnswer socket ++ (socket.rtakeWhile fun m => !isAnswer m) = socket :=
    List.rdropWhile_append_rtakeWhile
  have ha' : Announced (s.batched commands).table (throughLastAnswer socket) :=
    Announced.of_append (hsocket.symm ▸ ha)
  have hloop := receivePending_eq (hs.batched commands) ha' (a := 0)
    (by rw [countP_throughLastAnswer, hanswers]; exact (Int.zero_add _).symm)
    (List.rdropWhile_idempotent _ _) (socket.rtakeWhile fun m => !isAnswer m)
  rw [hsocket] at hloop
  unfold networkBatch
  rw [inputCommands_ok rfl (by omega) (by omega)]
  change (TioConnection.receivePending { s with
    waitForAnswer := true, sent := s.sent ++ commands, pendingEventCount := s.pendingEventCount + commands.length }
    0 socket).bind _ = _
  rw [hcount, Int.zero_add]
  change ((s.batched commands).receivePending 0 socket).bind _ = _
  rw [hloop]
  cases (throughLastAnswer socket).foldlM received (s.batched commands) <;> rfl

theorem networkBatch_done_iff {s : TioConnection} {commands : List Command} {socket : List Message} (hs : s.Ready)
    (hcount : s.pendingEventCount = 0) (ha : Announced s.table socket)
    (hanswers : socket.countP isAnswer = commands.length) :
    (∃ r, s.networkBatch commands socket = .ok r ∧ s.BatchDone commands socket r) ↔
      commands.length < 2 ^ 31 ∧
        Countable commands.length s.openContainersCount s.table.containers.length (throughLastAnswer socket) := by
  have hsocket : throughLastAnswer socket ++ (socket.rtakeWhile fun m => !isAnswer m) = socket :=
    List.rdropWhile_append_rtakeWhile
  have ha' : Announced (s.batched commands).table
      (throughLastAnswer socket ++ socket.rtakeWhile fun m => !isAnswer m) := by rwa [hsocket]
  constructor
  · rintro ⟨r, hr, -⟩
    by_cases hlt : commands.length < 2 ^ 31
    · refine ⟨hlt, ?_⟩
      by_contra hc
      rw [networkBatch_eq hs hcount ha hanswers hlt, receivedAll_overflow (hs.batched commands) ha' hc] at hr
      cases hr
    · rw [networkBatch_overflow hcount hlt] at hr
      cases hr
  · rintro ⟨hlt, hc⟩
    obtain ⟨s', hall, h, -⟩ := receivedAll_ok (hs.batched commands) ha' hc
    refine ⟨(socket.rtakeWhile fun m => !isAnswer m, { s' with pendingEventCount := 0 }), ?_, hsocket.symm, ?_,
      h.dispatched, h.table, rfl, h.ready.queue⟩
    · rw [networkBatch_eq hs hcount ha hanswers hlt, hall]
      rfl
    · rw [countP_throughLastAnswer, hanswers]

end TioConnection

/-- What `tio_connect` leaves: the server gave the handle 1 to the container of the clusters. -/
def TioConnection.tioConnect : TioConnection where
  table := Connection.tioConnect.registerContainer (some 1) (ascii "__meta__/clusters") none
  openContainersCount := 1

theorem tioConnect_ready : TioConnection.tioConnect.Ready where
  queue := Lib.Ring.holds_nil
  counted := by decide
  opened := by decide
  fault := by decide +kernel
  eager := by decide +kernel
  sized := by decide +kernel

/-- Two commands. An event is after the last answer, it stays on the socket. -/
theorem networkBatch_done_two :
    let command : Command := ⟨1, 0x17, none, some (.int 5), none⟩
    let event (handle : Int32) : Message := .event ⟨handle, .of .pushBack, .int 0, .int 5, .none⟩
    let socket := [event 1, .newGroupContainer 2 (ascii "g") (ascii "b"), .answer ⟨false, none⟩, event 2,
      .answer ⟨true, none⟩, event 1]
    ∃ r, TioConnection.tioConnect.networkBatch [command, command] socket = .ok r ∧
      TioConnection.tioConnect.BatchDone [command, command] socket r ∧ r.1 = [event 1] ∧
      r.2.dispatched.map EventMessage.handle = [1, 2] := by
  intro command event socket
  have hknown : Known TioConnection.tioConnect.table 1 :=
    ⟨0, { handle := 1, groupName := none, name := ascii "__meta__/clusters" }, by decide +kernel, by decide +kernel⟩
  have ha : Announced TioConnection.tioConnect.table socket := by
    constructor
    · intro before e after h
      simp only [socket, event, List.cons_eq_append_iff, List.cons.injEq, Message.event.injEq, reduceCtorEq, false_and,
        and_false, exists_false, or_false, false_or, List.nil_eq, List.append_eq_nil_iff] at h
      obtain ⟨rfl, rfl, -⟩ | ⟨_, rfl, ⟨_, rfl, ⟨_, rfl, ⟨rfl, rfl, -⟩ | ⟨_, rfl, ⟨_, rfl, ⟨rfl, rfl, -⟩⟩⟩⟩⟩⟩ := h
      · exact .inl hknown
      · exact .inr ⟨_, _, by simp; exact ⟨rfl, rfl⟩⟩
      · exact .inl hknown
    · intro handle groupName name hmem
      simp [socket, event] at hmem
      rw [hmem.1]
      decide
  have hthrough : throughLastAnswer socket = socket.take 5 := by decide +kernel
  obtain ⟨r, hr, hdone⟩ := (@TioConnection.networkBatch_done_iff _ [command, command] _ tioConnect_ready
    (by decide +kernel) ha (by decide +kernel)).mpr ⟨by decide, by
      rw [hthrough]
      constructor
      · intro e he
        decide
      · decide +kernel
      · intro before handle groupName name after h
        simp only [socket, event, List.take_succ_cons, List.take_zero, List.cons_eq_append_iff, List.cons.injEq,
          Message.newGroupContainer.injEq, reduceCtorEq, false_and, and_false, exists_false, or_false, false_or,
          List.nil_eq, List.append_eq_nil_iff] at h
        obtain ⟨_, rfl, ⟨rfl, ⟨rfl, -, -⟩, -⟩⟩ := h
        exact .inr (by decide)⟩
  refine ⟨r, hr, hdone, ?_, ?_⟩
  · have hrest := hdone.consumed
    rw [hthrough] at hrest
    exact (List.append_cancel_left (hrest.symm.trans (List.take_append_drop 5 socket).symm))
  · rw [hdone.dispatched, hthrough]
    decide +kernel

/-- The last of 2^31 commands does not fit the counter. -/
theorem networkBatch_counter_overflows :
    let commands : List Command := List.replicate (2 ^ 31) ⟨1, 0x17, none, some (.int 5), none⟩
    let socket : List Message := List.replicate (2 ^ 31) (.answer ⟨false, none⟩)
    TioConnection.tioConnect.Ready ∧ TioConnection.tioConnect.pendingEventCount = 0 ∧
      Announced TioConnection.tioConnect.table socket ∧ socket.countP isAnswer = commands.length ∧
      ¬ ∃ r, TioConnection.tioConnect.networkBatch commands socket = .ok r ∧
        TioConnection.tioConnect.BatchDone commands socket r := by
  intro commands socket
  have hanswer (m : Message) (hm : m ∈ socket) : m = .answer ⟨false, none⟩ := List.eq_of_mem_replicate hm
  refine ⟨tioConnect_ready, rfl, ⟨?_, ?_⟩, ?_, ?_⟩
  · intro before e after h
    cases hanswer (.event e) (by rw [h]; simp)
  · intro handle groupName name hmem
    cases hanswer _ hmem
  · rw [List.length_replicate, List.countP_replicate]
    rfl
  · rintro ⟨r, hr, -⟩
    rw [TioConnection.networkBatch_overflow rfl (by rw [List.length_replicate]; exact lt_irrefl _)] at hr
    cases hr

end Tiodb.Client.Table
