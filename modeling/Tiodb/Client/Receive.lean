import Mathlib.Logic.Function.Basic
import Tiodb.Data
import Tiodb.Lib.Lists
import Tiodb.Lib.Machine

/-!
# Waiting for an answer

`tio_receive_until_not_event` of `tioclient.c`, for a connection with cluster
connections, and `pr1_message_receive_from_any_cluster` under it. The loop passes the
address of its own `connection` variable as the output parameter, so a message from a
cluster connection leaves that connection in the variable.
-/

namespace Tiodb.Client

open Lib

/-- The connections that one call can reach, by number. `tio_connect_cluster` connects anew, so no
connection has the one of the call among its cluster connections. -/
structure Net where
  connection : Nat
  clustersConnections : Nat → List Nat
  maxPendingEventCount : Nat → Nat
  apart : ∀ c, connection ∉ clustersConnections c

inductive Message where
  | event (payload : Bytes)
  | newGroupContainer (payload : Bytes)
  | answer (payload : Bytes)
  deriving DecidableEq, Repr

def Message.event? : Message → Option Bytes
  | .event payload => some payload
  | _ => none

def Message.group? : Message → Option Bytes
  | .newGroupContainer payload => some payload
  | _ => none

def Message.isAnswer : Message → Bool
  | .answer _ => true
  | _ => false

/-- `connection` is the local variable. `arrived` and `waits` are history: what came on each socket,
and the sockets of each `select`. -/
structure State where
  connection : Nat
  inbox : Nat → List Message
  pendingEvents : Nat → List Bytes
  dispatched : Nat → List Bytes
  groupContainers : Nat → List Bytes
  response : Option (Nat × Bytes)
  arrived : Nat → List Message
  waits : List (List Nat)

variable (net : Net)

def start : State :=
  ⟨net.connection, fun _ => [], fun _ => [], fun _ => [], fun _ => [], none, fun _ => [], []⟩

def waitSet (connection : Nat) : List Nat := connection :: net.clustersConnections connection

/-- The first socket of the set that is readable: the own one, or the first of the cluster connections. -/
def readable (s : State) : Option Nat := (waitSet net s.connection).find? fun c => s.inbox c ≠ []

def onEventReceive (s : State) (c : Nat) (payload : Bytes) : State :=
  let events := s.pendingEvents c ++ [payload]
  if net.maxPendingEventCount c ≤ events.length then
    { s with
      pendingEvents := Function.update s.pendingEvents c []
      dispatched := Function.update s.dispatched c (s.dispatched c ++ events) }
  else { s with pendingEvents := Function.update s.pendingEvents c events }

def onGroupNewContainer (s : State) (c : Nat) (payload : Bytes) : State :=
  { s with groupContainers := Function.update s.groupContainers c (s.groupContainers c ++ [payload]) }

/-- What the loop does with a message, for the connection in its variable. -/
def handle (s : State) : Message → State
  | .event payload => onEventReceive net s s.connection payload
  | .newGroupContainer payload => onGroupNewContainer s s.connection payload
  | .answer payload => { s with response := some (s.connection, payload) }

/-- The message is taken from the socket `c`, which leaves `rest`; the variable is left at `c`. -/
def take (s : State) (c : Nat) (rest : List Message) : State :=
  { s with
    connection := c
    inbox := Function.update s.inbox c rest
    waits := s.waits ++ [waitSet net s.connection] }

/-- One turn of the loop; `select` blocks while nothing is readable. -/
def receive (s : State) : Option State :=
  (readable net s).bind fun c =>
    (s.inbox c).head?.map fun m => handle net (take net s c (s.inbox c).tail) m

inductive Step where
  | arrive (c : Nat) (m : Message)
  | receive
  deriving DecidableEq, Repr

/-- What comes during the call: one answer on the socket of the call, after which nothing comes there,
and no answer on another socket. -/
def expected (s : State) (c : Nat) (m : Message) : Bool :=
  if c = net.connection then !(s.arrived c).any Message.isAnswer else !m.isAnswer

def step (s : State) : Step → Option State
  | .arrive c m =>
    if expected net s c m then
      some { s with
        inbox := Function.update s.inbox c (s.inbox c ++ [m])
        arrived := Function.update s.arrived c (s.arrived c ++ [m]) }
    else none
  | .receive => if s.response.isSome then none else receive net s

/-- The loop finds something to read on the socket of the call. -/
def OwnReadable (s : State) : Step → Prop
  | .arrive _ _ => True
  | .receive => s.inbox net.connection ≠ []

instance (s : State) : DecidablePred (OwnReadable net s)
  | .arrive _ _ => inferInstanceAs (Decidable True)
  | .receive => inferInstanceAs (Decidable (_ ≠ _))

/-! ## Each event to the connection it arrived on -/

structure Conserved (s : State) : Prop where
  events : ∀ c, (s.arrived c).filterMap Message.event? =
    s.dispatched c ++ s.pendingEvents c ++ (s.inbox c).filterMap Message.event?
  groups : ∀ c, (s.arrived c).filterMap Message.group? =
    s.groupContainers c ++ (s.inbox c).filterMap Message.group?

variable {net}

theorem start_conserved : Conserved (start net) := ⟨fun _ => rfl, fun _ => rfl⟩

/-- A turn of the loop takes the first message of a readable socket, and hands it to that connection. -/
theorem receive_cases {s s' : State} (h : receive net s = some s') :
    ∃ c m rest, readable net s = some c ∧ s.inbox c = m :: rest ∧ s' = handle net (take net s c rest) m := by
  obtain ⟨c, hc, hmap⟩ := Option.bind_eq_some_iff.mp h
  obtain ⟨m, hm, rfl⟩ := Option.map_eq_some_iff.mp hmap
  cases hin : s.inbox c with
  | nil => simp [hin] at hm
  | cons m' rest =>
    obtain rfl : m' = m := by simpa [hin] using hm
    exact ⟨c, m', rest, hc, hin, by simp⟩

@[simp] theorem handle_connection (s : State) (m : Message) : (handle net s m).connection = s.connection := by
  cases m with
  | event p =>
    simp only [handle, onEventReceive]
    split_ifs <;> rfl
  | _ => rfl

@[simp] theorem handle_inbox (s : State) (m : Message) : (handle net s m).inbox = s.inbox := by
  cases m with
  | event p =>
    simp only [handle, onEventReceive]
    split_ifs <;> rfl
  | _ => rfl

@[simp] theorem handle_arrived (s : State) (m : Message) : (handle net s m).arrived = s.arrived := by
  cases m with
  | event p =>
    simp only [handle, onEventReceive]
    split_ifs <;> rfl
  | _ => rfl

@[simp] theorem handle_waits (s : State) (m : Message) : (handle net s m).waits = s.waits := by
  cases m with
  | event p =>
    simp only [handle, onEventReceive]
    split_ifs <;> rfl
  | _ => rfl

theorem handle_response (s : State) (m : Message) :
    (handle net s m).response =
      match m with
      | .answer p => some (s.connection, p)
      | _ => s.response := by
  cases m with
  | event p =>
    simp only [handle, onEventReceive]
    split_ifs <;> rfl
  | _ => rfl

theorem handle_events (s : State) (m : Message) (c : Nat) :
    (handle net s m).dispatched c ++ (handle net s m).pendingEvents c =
      s.dispatched c ++ s.pendingEvents c ++ if c = s.connection then m.event?.toList else [] := by
  cases m with
  | event p =>
    simp only [handle, onEventReceive]
    by_cases hc : c = s.connection
    · rw [if_pos hc]
      split_ifs <;> simp [Message.event?, hc]
    · rw [if_neg hc]
      split_ifs <;> simp [Function.update_of_ne hc]
  | _ => simp [handle, onGroupNewContainer, Message.event?]

theorem handle_groups (s : State) (m : Message) (c : Nat) :
    (handle net s m).groupContainers c =
      s.groupContainers c ++ if c = s.connection then m.group?.toList else [] := by
  cases m with
  | event p =>
    simp only [handle, onEventReceive]
    split_ifs <;> simp [Message.group?]
  | newGroupContainer p =>
    by_cases hc : c = s.connection
    · subst hc
      simp [handle, onGroupNewContainer, Message.group?]
    · simp [handle, onGroupNewContainer, hc]
  | answer p => simp [handle, Message.group?]

theorem receive_conserved {s s' : State} (h : Conserved s) (hr : receive net s = some s') : Conserved s' := by
  obtain ⟨c, m, rest, -, hin, rfl⟩ := receive_cases hr
  refine ⟨fun c' => ?_, fun c' => ?_⟩
  · rw [handle_events, handle_arrived, handle_inbox]
    by_cases hc : c' = c
    · subst hc
      simp only [take, Function.update_self, if_true, List.append_assoc]
      rw [← filterMap_cons_toList, ← hin, ← List.append_assoc]
      exact h.events c'
    · simpa [take, hc, Function.update_of_ne hc] using h.events c'
  · rw [handle_groups, handle_arrived, handle_inbox]
    by_cases hc : c' = c
    · subst hc
      simp only [take, Function.update_self, if_true, List.append_assoc]
      rw [← filterMap_cons_toList, ← hin]
      exact h.groups c'
    · simpa [take, hc, Function.update_of_ne hc] using h.groups c'

theorem step_arrive {s s' : State} {c : Nat} {m : Message} (h : step net s (.arrive c m) = some s') :
    expected net s c m = true ∧
      s' = { s with
        inbox := Function.update s.inbox c (s.inbox c ++ [m])
        arrived := Function.update s.arrived c (s.arrived c ++ [m]) } := by
  simp only [step] at h
  split_ifs at h with he
  exact ⟨he, (Option.some.inj h).symm⟩

theorem step_receive {s s' : State} (h : step net s .receive = some s') :
    s.response = none ∧ receive net s = some s' := by
  simp only [step] at h
  split_ifs at h with hr
  exact ⟨by simpa using hr, h⟩

theorem step_conserved (s : State) (a : Step) (s' : State) (h : Conserved s) (hs : step net s a = some s') :
    Conserved s' := by
  cases a with
  | arrive c m =>
    obtain ⟨-, rfl⟩ := step_arrive hs
    refine ⟨fun c' => ?_, fun c' => ?_⟩
    · by_cases hc : c' = c
      · subst hc
        simp [h.events]
      · simp [h.events, Function.update_of_ne hc]
    · by_cases hc : c' = c
      · subst hc
        simp [h.groups]
      · simp [h.groups, Function.update_of_ne hc]
  | receive => exact receive_conserved h (step_receive hs).2

/-! ## The socket of the call -/

def AnswerLast (l : List Message) : Prop :=
  (∀ m ∈ l, m.isAnswer = false) ∨ ∃ quiet p, l = quiet ++ [.answer p] ∧ ∀ m ∈ quiet, m.isAnswer = false

structure AtHome (net : Net) (s : State) : Prop where
  connection : s.connection = net.connection
  waits : ∀ w ∈ s.waits, net.connection ∈ w
  last : AnswerLast (s.arrived net.connection)
  unread : s.inbox net.connection <:+ s.arrived net.connection
  response : ∀ c p, s.response = some (c, p) → c = net.connection ∧ .answer p ∈ s.arrived net.connection

theorem start_atHome : AtHome net (start net) :=
  ⟨rfl, by simp [start], Or.inl (by simp [start]), List.suffix_refl _, by simp [start]⟩

theorem readable_own {s : State} (hc : s.connection = net.connection) (h : s.inbox net.connection ≠ []) :
    readable net s = some net.connection := by
  rw [readable, waitSet, hc, List.find?_cons_of_pos (by simpa using h)]

theorem AtHome.arrive {s s' : State} {c : Nat} {m : Message} (h : AtHome net s)
    (hs : step net s (.arrive c m) = some s') : AtHome net s' := by
  obtain ⟨he, rfl⟩ := step_arrive hs
  by_cases hc : c = net.connection
  case neg =>
    have hne : net.connection ≠ c := Ne.symm hc
    refine ⟨h.connection, h.waits, ?_, ?_, ?_⟩
    · simpa [Function.update_of_ne hne] using h.last
    · simpa [Function.update_of_ne hne] using h.unread
    · simpa [Function.update_of_ne hne] using h.response
  subst hc
  have hquiet : ∀ x ∈ s.arrived net.connection, x.isAnswer = false := by
    simpa [expected] using he
  refine ⟨h.connection, h.waits, ?_, ?_, fun c p hr => ?_⟩
  · simp only [Function.update_self]
    cases m with
    | answer p => exact Or.inr ⟨_, p, rfl, hquiet⟩
    | event p =>
      refine Or.inl fun x hx => ?_
      rcases List.mem_append.mp hx with hx | hx
      · exact hquiet x hx
      · rw [List.mem_singleton.mp hx]
        rfl
    | newGroupContainer p =>
      refine Or.inl fun x hx => ?_
      rcases List.mem_append.mp hx with hx | hx
      · exact hquiet x hx
      · rw [List.mem_singleton.mp hx]
        rfl
  · simp only [Function.update_self]
    obtain ⟨pre, hpre⟩ := h.unread
    exact ⟨pre, by rw [← List.append_assoc, hpre]⟩
  · obtain ⟨hc, hmem⟩ := h.response c p hr
    simp [hc, hmem]

theorem AtHome.receive {s s' : State} (h : AtHome net s) (hown : s.inbox net.connection ≠ [])
    (hs : step net s .receive = some s') : AtHome net s' := by
  obtain ⟨hnone, hr⟩ := step_receive hs
  obtain ⟨c, m, rest, hc, hin, rfl⟩ := receive_cases hr
  obtain rfl : c = net.connection := by
    rw [readable_own h.connection hown] at hc
    exact (Option.some.inj hc).symm
  have hun := h.unread
  rw [hin] at hun
  refine ⟨handle_connection _ m, ?_, ?_, ?_, ?_⟩
  · intro w hw
    rw [handle_waits] at hw
    rcases List.mem_append.mp hw with hw | hw
    · exact h.waits w hw
    · rw [List.mem_singleton.mp hw, h.connection]
      exact List.mem_cons_self
  · rw [handle_arrived]
    exact h.last
  · rw [handle_inbox, handle_arrived]
    simp only [take, Function.update_self]
    exact (List.suffix_cons m rest).trans hun
  · intro c p hresp
    rw [handle_response] at hresp
    rw [handle_arrived]
    cases m with
    | answer q =>
      obtain ⟨rfl, rfl⟩ := Prod.mk.inj (Option.some.inj hresp)
      exact ⟨rfl, hun.subset List.mem_cons_self⟩
    | event q => cases hnone.symm.trans hresp
    | newGroupContainer q => cases hnone.symm.trans hresp

theorem step_atHome (s : State) (a : Step) (s' : State) (h : AtHome net s) (hown : OwnReadable net s a)
    (hs : step net s a = some s') : AtHome net s' := by
  cases a with
  | arrive c m => exact h.arrive hs
  | receive => exact h.receive hown hs

/-! ## The answer is returned -/

theorem receive_own {s : State} {m : Message} {rest : List Message} (hc : s.connection = net.connection)
    (hnone : s.response = none) (hin : s.inbox net.connection = m :: rest) :
    step net s .receive = some (handle net (take net s net.connection rest) m) := by
  have hne : s.inbox net.connection ≠ [] := by simp [hin]
  simp [step, hnone, Client.receive, readable_own hc hne, hin]

theorem returns_answer {s : State} {quiet : List Message} {p : Bytes} (hc : s.connection = net.connection)
    (hnone : s.response = none) (hin : s.inbox net.connection = quiet ++ [.answer p])
    (hquiet : ∀ m ∈ quiet, m.isAnswer = false) :
    ∃ s', run (step net) s (List.replicate (quiet.length + 1) .receive) = some s' ∧
      s'.response = some (net.connection, p) := by
  induction quiet generalizing s with
  | nil =>
    refine ⟨_, run_cons.mpr ⟨_, receive_own hc hnone hin, rfl⟩, ?_⟩
    rw [handle_response]
    rfl
  | cons m quiet ih =>
    have hnone' : (handle net (take net s net.connection (quiet ++ [.answer p])) m).response = none := by
      have hm : m.isAnswer = false := hquiet m (by simp)
      rw [handle_response]
      cases m with
      | answer q => cases hm
      | _ => exact hnone
    obtain ⟨s', hrun, hresp⟩ := ih (s := handle net (take net s net.connection (quiet ++ [.answer p])) m)
      (handle_connection _ m) hnone' (by simp [take]) fun x hx => hquiet x (by simp [hx])
    exact ⟨s', run_cons.mpr ⟨_, receive_own hc hnone hin, hrun⟩, hresp⟩

theorem AnswerLast.of_suffix {l l' : List Message} {p : Bytes} (h : AnswerLast l) (hs : l' <:+ l)
    (hp : .answer p ∈ l') : ∃ quiet, l' = quiet ++ [.answer p] ∧ ∀ m ∈ quiet, m.isAnswer = false := by
  rcases h with hquiet | ⟨quiet, q, rfl, hquiet⟩
  · cases hquiet _ (hs.subset hp)
  · rcases List.suffix_concat_iff.mp hs with rfl | ⟨t, rfl, ht⟩
    · cases hp
    · rcases List.mem_append.mp hp with hp | hp
      · cases hquiet _ (ht.subset hp)
      · obtain rfl : p = q := by simpa using hp
        exact ⟨t, rfl, fun m hm => hquiet m (ht.subset hm)⟩

/-- In every run whose turns find the own socket readable, each event is with the connection it arrived
on or still to be read, no `select` leaves out the socket of the call, what is returned is its answer,
and an answer that is there is returned. -/
theorem answer_of_own_connection (net : Net) (as : List Step) (s : State)
    (hown : Meets (step net) (OwnReadable net) (start net) as) (hrun : run (step net) (start net) as = some s) :
    (∀ c, (s.arrived c).filterMap Message.event? =
      s.dispatched c ++ s.pendingEvents c ++ (s.inbox c).filterMap Message.event?) ∧
    (∀ w ∈ s.waits, net.connection ∈ w) ∧
    (∀ c p, s.response = some (c, p) → c = net.connection ∧ .answer p ∈ s.arrived net.connection) ∧
    (∀ p, s.response = none → .answer p ∈ s.inbox net.connection →
      ∃ n s', run (step net) s (List.replicate n .receive) = some s' ∧
        s'.response = some (net.connection, p)) := by
  have hcons : Conserved s := run_invariant step_conserved start_conserved hrun
  have hhome : AtHome net s := run_keeps step_atHome start_atHome hown hrun
  refine ⟨hcons.events, hhome.waits, hhome.response, fun p hnone hp => ?_⟩
  obtain ⟨quiet, hin, hquiet⟩ := hhome.last.of_suffix hhome.unread hp
  exact ⟨_, returns_answer hhome.connection hnone hin hquiet⟩

/-- A turn that finds the own socket with nothing to read leaves the socket of the call out of the next
`select`. -/
theorem own_socket_left_out {s s' : State} (hown : s.inbox net.connection = [])
    (hs : step net s .receive = some s') : net.connection ∉ waitSet net s'.connection := by
  obtain ⟨c, m, rest, hread, -, rfl⟩ := receive_cases (step_receive hs).2
  rw [handle_connection]
  have hne : c ≠ net.connection := by
    rintro rfl
    simpa [hown] using List.find?_some hread
  simp only [take, waitSet, List.mem_cons, not_or]
  exact ⟨Ne.symm hne, net.apart c⟩

def oneCluster : Net := ⟨0, fun c => if c = 0 then [1] else [], fun _ => 0, fun c => by split_ifs <;> simp⟩

theorem answer_of_own_connection_after_event :
    ∃ s, run (step oneCluster) (start oneCluster)
        [.arrive 0 (.event [7]), .receive, .arrive 0 (.answer [9]), .receive] = some s ∧
      (∀ w ∈ s.waits, 0 ∈ w) ∧ s.response = some (0, [9]) := by
  generalize hr : run (step oneCluster) (start oneCluster) _ = r
  have hview : r.map State.response = some (some (0, [9])) := by
    rw [← hr]
    rfl
  obtain ⟨s, rfl, hs⟩ := Option.map_eq_some_iff.mp hview
  obtain ⟨-, hwaits, -, -⟩ := answer_of_own_connection oneCluster _ s (by decide) hr
  exact ⟨s, rfl, hwaits, hs⟩

/-- An event comes on the socket of the cluster connection, and is read before the answer comes: the
next `select` leaves out the socket of the call, and the answer is never read. -/
theorem answer_left_out_after_cluster_event :
    (run (step oneCluster) (start oneCluster) [.arrive 1 (.event [7]), .receive, .arrive 0 (.answer [9])]).map
        (fun s => (waitSet oneCluster s.connection, s.inbox 0, s.response,
          (step oneCluster s .receive).isSome)) =
      some ([1], [.answer [9]], none, false) := by
  rfl

end Tiodb.Client
