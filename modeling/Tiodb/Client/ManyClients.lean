import Tiodb.Client.CallsServed
import Tiodb.Lib.Linear

/-!
# Many clients of one server

Binary clients and the server with everything between them: the requests that were not
read, the messages that a handler sends one by one, and what the clients did not read.
The handlers run on many threads. What one does to the containers and to the handles of
its session is one step, and a query that has its records is numbered in another. Threads
of the server send events between any two messages, and calls are also made inside of the
server. What the callers see is what they would see if each call were one step of the
server.
-/

namespace Tiodb.Binary

open Lib Query

/-- What `tio_receive_until_not_event` does with a message. -/
inductive Received where
  | missing
  | event
  | response
  deriving DecidableEq, Repr

/-- `none` is a read past the end of a field. -/
def received (m : Query.Fields) : Option Received :=
  match fieldFindById m fieldCommand with
  | none => some .missing
  | some commandField => (fieldGetInt commandField).map fun command =>
    if command = commandEvent ∨ command = commandNewGroupContainer then .event else .response

/-- `sending` is the reply that a handler of the session has still to send. `events` is what a client gave to
`on_event_receive` and `on_group_new_container`. `published` and `history` are history. -/
structure Network where
  server : Server
  lastQueryID : UInt32 := 0
  requests : Nat → List Query.Fields := fun _ => []
  sending : Nat → Reply := fun _ => .messages []
  wire : Nat → List Query.Fields := fun _ => []
  clients : Nat → Option Waiting := fun _ => none
  events : Nat → List Query.Fields := fun _ => []
  published : Nat → List Query.Fields := fun _ => []
  history : List (Seen Nat Call Result) := []

inductive Action where
  | call (client : Nat) (call : Call)
  | serve (client : Nat)
  /-- `CreateNewQueryId`. -/
  | number (client : Nat)
  | send (client : Nat)
  | publish (client : Nat) (event : Query.Fields)
  | receive (client : Nat)
  /-- A call inside of the server. -/
  | inside (caller : Nat) (call : Call)
  deriving DecidableEq, Repr

namespace Network

variable (regex : Bytes → Except Exc (Bytes → Bool))

def setClient (s : Network) (c : Nat) (w : Option Waiting) : Network :=
  { s with clients := Function.update s.clients c w }

/-- The function of the client goes on with a message. -/
def turn (s : Network) (c : Nat) : Turn → Network
  | .waits w => s.setClient c (some w)
  | .ends r => { s.setClient c none with history := s.history ++ [.returned c r] }

/-- A client that does not wait for an answer reads in `tio_receive_next_pending_event`, which takes no other message
than events. -/
def receive (s : Network) (c : Nat) (m : Query.Fields) : Option Network :=
  match received m, s.clients c with
  | none, _ => none
  | some .event, _ => some { s with events := Function.update s.events c (s.events c ++ [m]) }
  | some _, none => some s
  | some .missing, some w => (onMissingCommand w).map (s.turn c)
  | some .response, some w => (onResponse m w).map (s.turn c)

/-- A handler has one section on what the sessions share, the lock of a container or the mutex of the manager, and the
handles are those of its session alone: `serve` is the handler up to the end of that section. -/
def step (s : Network) : Action → Option Network
  | .call c call =>
    match s.clients c with
    | some _ => none
    | none => some { s.setClient c (some call.waiting) with
        requests := Function.update s.requests c (s.requests c ++ [call.request])
        history := s.history ++ [.called c call] }
  | .serve c =>
    match s.sending c, s.requests c with
    | .messages [], m :: ms => (onBinaryCommand c m regex s.server).map fun r =>
      { s with
        server := r.2
        requests := Function.update s.requests c ms
        sending := Function.update s.sending c r.1 }
    | _, _ => none
  | .number c =>
    match s.sending c with
    | .resultSet resultSet =>
      let queryId := s.lastQueryID + 1
      some { s with
        lastQueryID := queryId
        sending := Function.update s.sending c (.messages (resultSet.messages queryId.toInt32)) }
    | .messages _ => none
  | .send c =>
    match s.sending c with
    | .messages (m :: ms) => some { s with
        sending := Function.update s.sending c (.messages ms)
        wire := Function.update s.wire c (s.wire c ++ [m]) }
    | _ => none
  | .publish c e =>
    if isEvent e then some { s with
      wire := Function.update s.wire c (s.wire c ++ [e])
      published := Function.update s.published c (s.published c ++ [e]) }
    else none
  | .receive c =>
    match s.wire c with
    | [] => none
    | m :: ms => { s with wire := Function.update s.wire c ms }.receive c m
  | .inside c call =>
    match s.clients c with
    | some _ => none
    | none => (call.result regex c s.server).map fun r =>
      { s with
        server := r.2
        history := s.history ++ [.called c call, .returned c r.1] }

/-! ## Where a client stands -/

/-- The messages that are no events, in the order in which the client will read them. -/
def unread (s : Network) (c : Nat) : List Query.Fields := (s.wire c).filter fun m => !isEvent m

def Silent (s : Network) (c : Nat) : Prop := s.unread c = [] ∧ s.sending c = .messages []

/-- What comes to the client makes it return the result. -/
def Comes (s : Network) (c : Nat) (w : Waiting) (r : Result) : Prop :=
  match s.sending c with
  | .messages ms => (Reply.messages (s.unread c ++ ms)).Answers w r
  | .resultSet resultSet => s.unread c = [] ∧ (Reply.resultSet resultSet).Answers w r

def Stands (s : Network) (c : Nat) : Phase Call Result → Prop
  | .idle => s.clients c = none ∧ s.requests c = [] ∧ s.Silent c
  | .asked call => s.clients c = some call.waiting ∧ s.requests c = [call.request] ∧ s.Silent c
  | .answered r => s.requests c = [] ∧ ∃ w, s.clients c = some w ∧ s.Comes c w r

/-- What is seen, less the numbers of the queries. -/
def unnumbered (history : List (Seen Nat Call Result)) : List (Seen Nat Call Result) := history.map fun
  | .called c call => .called c call
  | .returned c r => .returned c r.unnumbered

@[simp] theorem unnumbered_append (history history' : List (Seen Nat Call Result)) :
    unnumbered (history ++ history') = unnumbered history ++ unnumbered history' :=
  List.map_append

/-- The server as an object with one step for each call. -/
structure IsAtomic (s : Network) (a : Atomic Server Nat Call Result) : Prop where
  object : a.object = s.server
  history : a.history = unnumbered s.history
  stands : ∀ c, s.Stands c (a.phase c)
  heard : ∀ c, s.events c ++ (s.wire c).filter isEvent = s.published c

theorem Stands.congr {s s' : Network} {c : Nat} {p : Phase Call Result} (h : s.Stands c p)
    (hclient : s'.clients c = s.clients c) (hrequests : s'.requests c = s.requests c)
    (hunread : s'.unread c = s.unread c) (hsending : s'.sending c = s.sending c) : s'.Stands c p := by
  cases p <;> simpa [Stands, Silent, Comes, hclient, hrequests, hunread, hsending] using h

theorem received_event {m : Query.Fields} (h : isEvent m = true) : received m = some .event := by
  obtain ⟨command, hm, hcommand⟩ := isEvent_command h
  unfold received
  rw [hm]
  dsimp only
  rw [fieldGetInt_int, Option.map_some, if_pos hcommand]

theorem received_answer {m : Query.Fields} (h : IsAnswer m) : received m = some .response := by
  unfold received
  rcases h with h | h
  · rw [h]
    dsimp only
    rw [fieldGetInt_int]
    rfl
  · rw [h]
    dsimp only
    rw [fieldGetInt_int]
    rfl

theorem isEvent_answer {m : Query.Fields} (h : IsAnswer m) : isEvent m = false := by
  unfold isEvent
  rcases h with h | h <;> (rw [h]; rfl)

/-! ## What each step is -/

section Steps

variable {regex} {s s' : Network} {a : Atomic Server Nat Call Result} {c : Nat}

/-- The call as one step. -/
abbrev spec (regex : Bytes → Except Exc (Bytes → Bool)) (s : Server) (c : Nat) (call : Call) : Option (Result × Server) :=
  call.result regex c s

theorem Stands.answered {p : Phase Call Result} (h : s.Stands c p) (hsounds : ¬ s.Silent c) :
    ∃ r w, p = .answered r ∧ s.requests c = [] ∧ s.clients c = some w ∧ s.Comes c w r := by
  cases p with
  | idle => exact absurd h.2.2 hsounds
  | asked call => exact absurd h.2.2 hsounds
  | answered r =>
    obtain ⟨hrequests, w, hclient, hcomes⟩ := h
    exact ⟨r, w, rfl, hrequests, hclient, hcomes⟩

theorem Stands.idle {p : Phase Call Result} (h : s.Stands c p) (hclient : s.clients c = none) : p = .idle := by
  cases p with
  | idle => rfl
  | asked call => simp [Stands, hclient] at h
  | answered r => simp [Stands, hclient] at h

theorem Stands.asked {p : Phase Call Result} (h : s.Stands c p) {m : Query.Fields} {ms : List Query.Fields}
    (hrequests : s.requests c = m :: ms) :
    ∃ call, p = .asked call ∧ m = call.request ∧ ms = [] ∧ s.clients c = some call.waiting ∧ s.Silent c := by
  cases p with
  | idle => simp [Stands, hrequests] at h
  | answered r => simp [Stands, hrequests] at h
  | asked call =>
    obtain ⟨hclient, hm, hsilent⟩ := h
    obtain ⟨rfl, rfl⟩ := List.cons.inj (hrequests.symm.trans hm)
    exact ⟨call, rfl, rfl, rfl, hclient, hsilent⟩

theorem not_silent_of_unread {m : Query.Fields} {ms : List Query.Fields} (h : s.unread c = m :: ms) : ¬ s.Silent c := by
  rintro ⟨hunread, -⟩
  rw [hunread] at h
  cases h

theorem not_silent_of_sending (h : s.sending c ≠ .messages []) : ¬ s.Silent c := fun hsilent => h hsilent.2

theorem comes_messages {r : Result} {w : Waiting} {ms : List Query.Fields} (hsending : s.sending c = .messages ms) :
    s.Comes c w r ↔ (Reply.messages (s.unread c ++ ms)).Answers w r := by
  unfold Comes
  rw [hsending]

theorem comes_resultSet {r : Result} {w : Waiting} {resultSet : ResultSet}
    (hsending : s.sending c = .resultSet resultSet) :
    s.Comes c w r ↔ s.unread c = [] ∧ (Reply.resultSet resultSet).Answers w r := by
  unfold Comes
  rw [hsending]

theorem IsAtomic.call (h : s.IsAtomic a) {call : Call} (hs : s.step regex (.call c call) = some s') :
    ∃ moves a', Lib.run (Atomic.step (spec regex)) a moves = some a' ∧ s'.IsAtomic a' := by
  cases hclient : s.clients c with
  | some w => simp [step, hclient] at hs
  | none =>
    have hidle := (h.stands c).idle hclient
    have hstands := h.stands c
    rw [hidle] at hstands
    obtain ⟨-, hrequests, hsilent⟩ := hstands
    obtain rfl : _ = s' := by simpa [step, hclient] using hs
    refine ⟨[.call c call], { a with
      phase := Function.update a.phase c (.asked call)
      history := a.history ++ [.called c call] }, by simp [Lib.run, Atomic.step, hidle], ?_⟩
    refine ⟨h.object, by rw [unnumbered_append, h.history]; rfl, fun c' => ?_, h.heard⟩
    by_cases hc : c' = c
    · subst hc
      simpa [Stands, setClient, hrequests, Silent, unread] using hsilent
    · simp only [Function.update_of_ne hc]
      exact (h.stands c').congr (by simp [setClient, hc]) (by simp [hc]) rfl rfl

theorem result_of_reply {call : Call} {server server' : Server} {reply : Reply}
    (hserved : onBinaryCommand c call.request regex server = some (reply, server')) :
    ∃ r, call.result regex c server = some (r, server') ∧ reply.Answers call.waiting r := by
  have hrel := @onBinaryCommand_request regex c call server
  rw [hserved] at hrel
  cases hresult : call.result regex c server with
  | none =>
    rw [hresult] at hrel
    cases hrel
  | some y =>
    rw [hresult] at hrel
    cases hrel with
    | some hrel => exact ⟨y.1, by rw [show server' = y.2 from hrel.2], hrel.1⟩

theorem IsAtomic.serve (h : s.IsAtomic a) (hs : s.step regex (.serve c) = some s') :
    ∃ moves a', Lib.run (Atomic.step (spec regex)) a moves = some a' ∧ s'.IsAtomic a' := by
  cases hrequests : s.requests c with
  | nil =>
    rw [step, hrequests] at hs
    split at hs
    · simp_all
    · cases hs
  | cons m ms =>
    obtain ⟨call, hasked, rfl, rfl, hclient, hunread, hsending⟩ := (h.stands c).asked hrequests
    simp only [step, hsending, hrequests, Option.map_eq_some_iff] at hs
    obtain ⟨⟨reply, server⟩, hserved, rfl⟩ := hs
    obtain ⟨r, hresult, hanswers⟩ := result_of_reply hserved
    refine ⟨[.effect c], { a with object := server, phase := Function.update a.phase c (.answered r) }, ?_, ?_⟩
    · simp [Lib.run, Atomic.step, hasked, h.object, hresult]
    refine ⟨rfl, h.history, fun c' => ?_, h.heard⟩
    by_cases hc : c' = c
    · subst hc
      simp only [Function.update_self, Stands]
      refine ⟨trivial, call.waiting, hclient, ?_⟩
      have hwire : (s.wire c').filter (fun m => !isEvent m) = [] := hunread
      cases reply with
      | messages ms => simpa [Comes, unread, hwire] using hanswers
      | resultSet resultSet => simpa [Comes, unread, hwire] using hanswers
    · simp only [Function.update_of_ne hc]
      exact (h.stands c').congr rfl (by simp [hc]) rfl (by simp [hc])

theorem IsAtomic.number (h : s.IsAtomic a) (hs : s.step regex (.number c) = some s') : s'.IsAtomic a := by
  cases hsending : s.sending c with
  | messages ms => simp [step, hsending] at hs
  | resultSet resultSet =>
    obtain rfl : _ = s' := by simpa [step, hsending] using hs
    refine ⟨h.object, h.history, fun c' => ?_, h.heard⟩
    by_cases hc : c' = c
    · subst hc
      obtain ⟨r, w, hphase, hrequests, hclient, hcomes⟩ :=
        (h.stands c').answered (not_silent_of_sending (by simp [hsending]))
      obtain ⟨hunread, rfl, hnumbered⟩ := (comes_resultSet hsending).mp hcomes
      rw [hphase]
      refine ⟨hrequests, .query, hclient, ?_⟩
      have hwire : (s.wire c').filter (fun m => !isEvent m) = [] := hunread
      simpa [Comes, Reply.Answers, unread, hwire] using Or.inl (hnumbered (s.lastQueryID + 1).toInt32)
    · exact (h.stands c').congr rfl rfl rfl (by simp [hc])

theorem IsAtomic.send (h : s.IsAtomic a) (hs : s.step regex (.send c) = some s') : s'.IsAtomic a := by
  cases hsending : s.sending c with
  | resultSet resultSet => simp [step, hsending] at hs
  | messages all =>
    cases all with
    | nil => simp [step, hsending] at hs
    | cons m ms =>
      obtain rfl : _ = s' := by simpa [step, hsending] using hs
      obtain ⟨r, w, hphase, hrequests, hclient, hcomes⟩ :=
        (h.stands c).answered (not_silent_of_sending (by simp [hsending]))
      have hanswers := (comes_messages hsending).mp hcomes
      -- what is sent is no event
      have hm : isEvent m = false := isEvent_answer (hanswers.isAnswer m (by simp))
      refine ⟨h.object, h.history, fun c' => ?_, fun c' => ?_⟩
      · by_cases hc : c' = c
        · subst hc
          rw [hphase]
          refine ⟨hrequests, w, hclient, ?_⟩
          simpa [Comes, unread, hm] using hanswers
        · exact (h.stands c').congr rfl rfl (by simp [unread, hc]) (by simp [hc])
      · by_cases hc : c' = c
        · subst hc
          simpa [hm] using h.heard c'
        · simpa [hc] using h.heard c'

theorem IsAtomic.publish (h : s.IsAtomic a) {e : Query.Fields} (hs : s.step regex (.publish c e) = some s') :
    s'.IsAtomic a := by
  by_cases he : isEvent e = true
  swap
  · simp [step, he] at hs
  obtain rfl : _ = s' := by simpa [step, he] using hs
  refine ⟨h.object, h.history, fun c' => ?_, fun c' => ?_⟩
  · refine (h.stands c').congr rfl rfl ?_ rfl
    by_cases hc : c' = c
    · subst hc
      simp [unread, he]
    · simp [unread, hc]
  · by_cases hc : c' = c
    · subst hc
      simpa [he, ← List.append_assoc] using congrArg (· ++ [e]) (h.heard c')
    · simpa [hc] using h.heard c'

theorem IsAtomic.receiveEvent (h : s.IsAtomic a) {m : Query.Fields} {ms : List Query.Fields}
    (hwire : s.wire c = m :: ms) (hm : isEvent m = true) : IsAtomic { s with
      wire := Function.update s.wire c ms
      events := Function.update s.events c (s.events c ++ [m]) } a := by
  refine ⟨h.object, h.history, fun c' => ?_, fun c' => ?_⟩
  · refine (h.stands c').congr rfl rfl ?_ rfl
    by_cases hc : c' = c
    · subst hc
      simp [unread, hwire, hm]
    · simp [unread, hc]
  · by_cases hc : c' = c
    · subst hc
      simpa [hwire, hm] using h.heard c'
    · simpa [hc] using h.heard c'

theorem IsAtomic.answer_unread (h : s.IsAtomic a) {m : Query.Fields} {ms : List Query.Fields}
    (hunread : s.unread c = m :: ms) :
    ∃ r w rest, a.phase c = .answered r ∧ s.requests c = [] ∧ s.clients c = some w ∧ s.sending c = .messages rest ∧
      (Reply.messages (m :: (ms ++ rest))).Answers w r := by
  obtain ⟨r, w, hphase, hrequests, hclient, hcomes⟩ := (h.stands c).answered (not_silent_of_unread hunread)
  cases hsending : s.sending c with
  | messages rest =>
    have hanswers := (comes_messages hsending).mp hcomes
    rw [hunread] at hanswers
    exact ⟨r, w, rest, hphase, hrequests, hclient, rfl, hanswers⟩
  | resultSet resultSet =>
    have hnone := ((comes_resultSet hsending).mp hcomes).1
    rw [hunread] at hnone
    cases hnone

theorem IsAtomic.receiveAnswer (h : s.IsAtomic a) {m : Query.Fields} {ms : List Query.Fields}
    (hwire : s.wire c = m :: ms) (hm : isEvent m = false) {w : Waiting} (hclient : s.clients c = some w) {t : Turn}
    (ht : onResponse m w = some t) :
    ∃ moves a', Lib.run (Atomic.step (spec regex)) a moves = some a' ∧
      (turn { s with wire := Function.update s.wire c ms } c t).IsAtomic a' := by
  have hunread : s.unread c = m :: ms.filter fun m => !isEvent m := by
    simp [unread, hwire, hm]
  have hheard : ∀ c', s.events c' ++ (Function.update s.wire c ms c').filter isEvent = s.published c' := by
    intro c'
    by_cases hc : c' = c
    · subst hc
      simpa [hwire, hm] using h.heard c'
    · simpa [hc] using h.heard c'
  obtain ⟨r, w', rest, hphase, hrequests, hclient', hsending, hanswers⟩ := h.answer_unread hunread
  obtain rfl : w = w' := Option.some.inj (hclient.symm.trans hclient')
  have hleft : ∀ c', c' ≠ c → (turn { s with wire := Function.update s.wire c ms } c t).unread c' = s.unread c' := by
    intro c' hc
    cases t <;> simp [turn, setClient, unread, hc]
  rcases hanswers with hanswers | ⟨rfl, m', hmessages, -, -, hrefused⟩
  swap
  · -- a query that is refused does not go on
    obtain ⟨rfl, -⟩ := List.cons.inj hmessages
    cases ht.symm.trans hrefused
  rcases hanswers.next with ⟨w', hwaits, hrest⟩ | ⟨r', hends, rfl, hrest⟩
  · obtain rfl := Option.some.inj (ht.symm.trans hwaits)
    refine ⟨[], a, rfl, h.object, h.history, fun c' => ?_, hheard⟩
    by_cases hc : c' = c
    · subst hc
      rw [hphase]
      refine ⟨hrequests, w', by simp [turn, setClient], ?_⟩
      simpa [turn, setClient, Comes, Reply.Answers, unread, hsending] using Or.inl hrest
    · exact (h.stands c').congr (by simp [turn, setClient, hc]) rfl (hleft c' hc) rfl
  · obtain rfl := Option.some.inj (ht.symm.trans hends)
    refine ⟨[.return c], { a with
      phase := Function.update a.phase c .idle
      history := a.history ++ [.returned c r'.unnumbered] }, by simp [Lib.run, Atomic.step, hphase], h.object, ?_,
      fun c' => ?_, hheard⟩
    · rw [turn, unnumbered_append, ← h.history]
      rfl
    by_cases hc : c' = c
    · subst hc
      obtain ⟨hms, rfl⟩ := List.append_eq_nil_iff.mp hrest
      simpa [Stands, turn, setClient, Silent, unread, hrequests, hsending] using hms
    · simp only [Function.update_of_ne hc]
      exact (h.stands c').congr (by simp [turn, setClient, hc]) rfl (hleft c' hc) rfl

theorem IsAtomic.receive (h : s.IsAtomic a) (hs : s.step regex (.receive c) = some s') :
    ∃ moves a', Lib.run (Atomic.step (spec regex)) a moves = some a' ∧ s'.IsAtomic a' := by
  cases hwire : s.wire c with
  | nil => simp [step, hwire] at hs
  | cons m ms =>
    simp only [step, hwire] at hs
    cases hm : isEvent m with
    | true =>
      obtain rfl : _ = s' := by simpa [Network.receive, received_event hm] using hs
      exact ⟨[], a, rfl, h.receiveEvent hwire hm⟩
    | false =>
      have hunread : s.unread c = m :: ms.filter fun m => !isEvent m := by
        simp [unread, hwire, hm]
      obtain ⟨r, w, rest, -, -, hclient, -, hanswers⟩ := h.answer_unread hunread
      have hreceived := received_answer (hanswers.isAnswer m List.mem_cons_self)
      simp only [Network.receive, hreceived, hclient, Option.map_eq_some_iff] at hs
      obtain ⟨t, ht, rfl⟩ := hs
      exact h.receiveAnswer hwire hm hclient ht

theorem IsAtomic.inside (h : s.IsAtomic a) {call : Call} (hs : s.step regex (.inside c call) = some s') :
    ∃ moves a', Lib.run (Atomic.step (spec regex)) a moves = some a' ∧ s'.IsAtomic a' := by
  cases hclient : s.clients c with
  | some w => simp [step, hclient] at hs
  | none =>
    have hidle := (h.stands c).idle hclient
    simp only [step, hclient, Option.map_eq_some_iff] at hs
    obtain ⟨⟨r, server⟩, hresult, rfl⟩ := hs
    refine ⟨[.call c call, .effect c, .return c], { a with
      object := server
      history := a.history ++ [.called c call] ++ [.returned c r] }, ?_, ?_⟩
    · have hphase : Function.update a.phase c .idle = a.phase := by
        rw [← hidle, Function.update_eq_self]
      simp [Lib.run, Atomic.step, hidle, h.object, hresult, hphase]
    · refine ⟨rfl, ?_, fun c' => (h.stands c').congr rfl rfl rfl rfl, h.heard⟩
      rw [unnumbered_append, ← h.history, List.append_assoc]
      simp [unnumbered, result_unnumbered c hresult]

theorem IsAtomic.step (h : s.IsAtomic a) {act : Action} (hs : s.step regex act = some s') :
    ∃ moves a', Lib.run (Atomic.step (spec regex)) a moves = some a' ∧ s'.IsAtomic a' := by
  cases act with
  | call c call => exact h.call hs
  | serve c => exact h.serve hs
  | number c => exact ⟨[], a, rfl, h.number hs⟩
  | send c => exact ⟨[], a, rfl, h.send hs⟩
  | publish c e => exact ⟨[], a, rfl, h.publish hs⟩
  | receive c => exact h.receive hs
  | inside c call => exact h.inside hs

end Steps

theorem isAtomic_start (server : Server) : IsAtomic { server := server } (Atomic.start server) :=
  ⟨rfl, rfl, fun _ => ⟨rfl, rfl, rfl, rfl⟩, fun _ => rfl⟩

def newServer : Server where
  containerManager := {}
  sessions := fun _ => { binaryProtocol := true }

def noRegex (_ : Bytes) : Except Exc (Bytes → Bool) := .error (runtimeError "no regex")

def listName : Bytes := ascii "l"

def listType : Option Bytes := some (ascii "volatile_list")

/-- The first client reads the list, the second one writes and reads it, and is numbered before the first. -/
def twoClients : List Action :=
  [.call 1 (tioCreate listName listType), .serve 1, .call 2 (tioOpen listName listType), .serve 2, .send 2, .send 1,
    .receive 1, .receive 2, .call 1 (.query 1 0 0 none), .serve 1,
    .call 2 (tioContainerPushBack 1 none (some (.int 5)) none), .serve 2, .send 2, .receive 2,
    .call 2 (.query 1 0 0 none), .serve 2, .number 2, .number 1, .send 2,
    .publish 2 [(fieldCommand, .int commandEvent), (fieldHandle, .int 1)], .send 2, .send 1, .send 2, .send 1,
    .receive 2, .receive 2, .receive 2, .receive 2, .receive 1, .receive 1]

section Returns

variable {regex} {s s' : Network} {a : Atomic Server Nat Call Result} {c : Nat} {w : Waiting}

def OfSession (c : Nat) (act : Action) : Prop :=
  act = .serve c ∨ act = .number c ∨ act = .send c ∨ act = .receive c

/-- The steps of one session that end the call of its client. -/
def Returns (regex : Bytes → Except Exc (Bytes → Bool)) (s : Network) (c : Nat) : Prop :=
  ∃ more s', (∀ act ∈ more, OfSession c act) ∧ Lib.run (step regex) s more = some s' ∧ s'.clients c = none

theorem Returns.after {act : Action} (hact : OfSession c act) (hs : s.step regex act = some s')
    (h : Returns regex s' c) : Returns regex s c := by
  obtain ⟨more, t, hmore, hrun, hclient⟩ := h
  exact ⟨act :: more, t, List.forall_mem_cons.mpr ⟨hact, hmore⟩, run_cons.mpr ⟨s', hs, hrun⟩, hclient⟩

/-- A client gets through an answer that is on its way: what is sent and read is less and less. -/
theorem returns_of_answers (h : s.IsAtomic a) (hclient : s.clients c = some w) {ms : List Query.Fields}
    (hsending : s.sending c = .messages ms) {r : Result} (hanswers : Answers w (s.unread c ++ ms) r) :
    Returns regex s c := by
  generalize hn : 2 * ms.length + (s.wire c).length = n
  induction n using Nat.strong_induction_on generalizing s a w ms with
  | _ n ih =>
    subst hn
    cases ms with
    | cons m ms =>
      have hs : s.step regex (.send c) = some { s with
          sending := Function.update s.sending c (.messages ms)
          wire := Function.update s.wire c (s.wire c ++ [m]) } := by
        simp [step, hsending]
      have hm : isEvent m = false := isEvent_answer (hanswers.answer m (by simp))
      refine Returns.after (.inr (.inr (.inl rfl))) hs
        (ih _ ?_ (h.send hs) hclient (Function.update_self ..) ?_ rfl)
      · simp
        omega
      · simpa [unread, hm] using hanswers
    | nil =>
      rw [List.append_nil] at hanswers
      cases hwire : s.wire c with
      | nil => exact absurd (by simp [unread, hwire]) hanswers.ne_nil
      | cons m ms =>
        cases hm : isEvent m with
        | true =>
          have hs : s.step regex (.receive c) = some { s with
              wire := Function.update s.wire c ms
              events := Function.update s.events c (s.events c ++ [m]) } := by
            simp [step, hwire, Network.receive, received_event hm]
          refine Returns.after (.inr (.inr (.inr rfl))) hs
            (ih _ ?_ (h.receiveEvent hwire hm) hclient hsending ?_ rfl)
          · simp [hwire]
          · simpa [unread, hwire, hm] using hanswers
        | false =>
          have hunread : s.unread c = m :: ms.filter fun m => !isEvent m := by
            simp [unread, hwire, hm]
          rw [hunread] at hanswers
          have hreceived := received_answer (hanswers.answer m List.mem_cons_self)
          have hs {t : Turn} (ht : onResponse m w = some t) : s.step regex (.receive c) =
              some (turn { s with wire := Function.update s.wire c ms } c t) := by
            simp [step, hwire, Network.receive, hreceived, hclient, ht]
          rcases hanswers.next with ⟨w', hwaits, hrest⟩ | ⟨r', hends, -, -⟩
          · obtain ⟨moves, a', -, h'⟩ : ∃ moves a', Lib.run (Atomic.step (spec regex)) a moves = some a' ∧ _ :=
              h.receiveAnswer hwire hm hclient hwaits
            refine Returns.after (.inr (.inr (.inr rfl))) (hs hwaits)
              (ih _ ?_ h' (w := w') (by simp [turn, setClient]) hsending ?_ rfl)
            · simp [turn, setClient, hwire]
            · simpa [turn, setClient, unread] using hrest
          · refine ⟨[.receive c], _, ?_, run_cons.mpr ⟨_, hs hends, rfl⟩, Function.update_self ..⟩
            exact List.forall_mem_singleton.mpr (.inr (.inr (.inr rfl)))

def SendsError : Reply → Prop
  | .messages ms => ∃ m ∈ ms, IsError m
  | .resultSet _ => False

instance (m : Query.Fields) : Decidable (IsError m) := inferInstanceAs (Decidable (_ = true))

instance : ∀ reply, Decidable (SendsError reply)
  | .messages ms => inferInstanceAs (Decidable (∃ m ∈ ms, IsError m))
  | .resultSet _ => isFalse id

/-- The client waits for no query that is answered with an error. -/
structure Spared (regex : Bytes → Except Exc (Bytes → Bool)) (s : Network) (c : Nat) : Prop where
  unread : ∀ m ∈ s.unread c, s.clients c = some .query → ¬ IsError m
  sending : s.clients c = some .query → ¬ SendsError (s.sending c)
  request : ∀ m ∈ s.requests c, ∀ reply ∈ onBinaryCommand c m regex s.server, s.clients c = some .query →
    ¬ SendsError reply.1

theorem returns_of_comes (h : s.IsAtomic a) (hclient : s.clients c = some w) {r : Result} (hcomes : s.Comes c w r)
    (hunread : ∀ m ∈ s.unread c, s.clients c = some .query → ¬ IsError m)
    (hspared : s.clients c = some .query → ¬ SendsError (s.sending c)) : Returns regex s c := by
  cases hsending : s.sending c with
  | messages ms =>
    rcases (comes_messages hsending).mp hcomes with hanswers | ⟨rfl, m, hm, -, herror, -⟩
    · exact returns_of_answers h hclient hsending hanswers
    · have hmem : m ∈ s.unread c ++ ms := by
        rw [hm]
        exact List.mem_singleton_self m
      rcases List.mem_append.mp hmem with hmem | hmem
      · exact absurd herror (hunread m hmem hclient)
      · refine absurd ?_ (hspared hclient)
        rw [hsending]
        exact ⟨m, hmem, herror⟩
  | resultSet resultSet =>
    obtain ⟨hnone, rfl, hnumbered⟩ := (comes_resultSet hsending).mp hcomes
    have hs : s.step regex (.number c) = some { s with
        lastQueryID := s.lastQueryID + 1
        sending := Function.update s.sending c (.messages (resultSet.messages (s.lastQueryID + 1).toInt32)) } := by
      simp [step, hsending]
    refine Returns.after (.inr (.inl rfl)) hs
      (returns_of_answers (h.number hs) hclient (Function.update_self ..) (r := r) ?_)
    have hwire : (s.wire c).filter (fun m => !isEvent m) = [] := hnone
    simpa [unread, hwire] using hnumbered (s.lastQueryID + 1).toInt32

end Returns

/-- Three clients wait: for the records of a query that the server has not read, for an answer that it has not sent,
and for an answer that is on its way behind an event. -/
def threeClients : List Action :=
  [.call 1 (tioCreate listName listType), .serve 1, .send 1, .receive 1, .call 2 (tioOpen listName listType), .serve 2,
    .send 2, .receive 2, .call 1 (.query 1 0 0 none), .call 2 (tioContainerPushBack 1 none (some (.int 5)) none),
    .serve 2, .call 3 (.ping (ascii "p")), .serve 3,
    .publish 3 [(fieldCommand, .int commandEvent), (fieldHandle, .int 1)], .send 3]

end Network

end Tiodb.Binary
