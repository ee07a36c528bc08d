import Tiodb.Client.PyCalls

/-!
# Each call gets its own answer

The server answers the commands of a session one after the other, and its events may stand
anywhere between. A run of the client takes the answers in the order of its commands, and
nothing but events in between.
-/

namespace Tiodb.Python

open Lib
open Text (PyFields)

/-! ## Replies -/

/-- What the server writes for one command. -/
inductive Reply where
  | simpleOk
  | answer (a : Tiodb.Answer)
  | resultSet (queryId : UInt32) (records : List Fields)

namespace Reply

def messages : Reply → List Message
  | .simpleOk => [.simpleOk]
  | .answer a => [.answer a]
  | .resultSet queryId records =>
    .resultSetStart queryId :: (records.map (.resultSetItem queryId) ++ [.resultSetEnd queryId])

def writes : Reply → List Handlers.Write
  | .simpleOk => [.answer (.ok [])]
  | .answer a => [.answer a]
  | .resultSet queryId records =>
    .resultSetStart queryId :: records.map (.resultSetItem queryId) ++ [.resultSetEnd queryId]

/-- What the handlers of the text protocol write for a command is one reply. -/
theorem of_oneReply {ws : List Handlers.Write} (h : Handlers.OneReply ws) :
    (∃ r : Reply, r.writes = ws) ∨ (∃ response, ws = [.http response]) ∨ ws = [.goingBinary] := by
  cases h with
  | @answer a _ => exact .inl ⟨.answer a, rfl⟩
  | resultSet queryId records => exact .inl ⟨.resultSet queryId records, rfl⟩
  | http response => exact .inr (.inl ⟨response, rfl⟩)
  | goingBinary => exact .inr (.inr rfl)

variable (doubles : UInt64 → Bytes) (toDecimal : Bytes → Option Rat)

def result : Reply → Except PyError PyAnswer
  | .simpleOk => .ok .none
  | .answer a => answerResult doubles toDecimal a
  | .resultSet _ records => .ok (.query (records.map (textFields doubles toDecimal)))

end Reply

namespace Message

def isReply : Message → Bool
  | .event _ _ _ => false
  | .groupContainer _ _ _ _ => false
  | _ => true

/-- The group of a new container has a sink. -/
def InGroups (groupSinks : Bytes → Option Sink) : Message → Prop
  | .groupContainer groupName _ _ _ => (groupSinks groupName).isSome
  | _ => True

variable (doubles : UInt64 → Bytes) (toDecimal : Bytes → Option Rat)

/-- What a message that is no part of a reply does to the connection. -/
def hear (c : ServerConnection) (m : Message) : ServerConnection := (m.deliver doubles toDecimal true c).1

end Message

variable {doubles : UInt64 → Bytes} {toDecimal : Bytes → Option Rat}

/-- The connection when everything but the replies was heard. -/
def hearAll (doubles : UInt64 → Bytes) (toDecimal : Bytes → Option Rat) (c : ServerConnection) (ms : List Message) :
    ServerConnection :=
  (ms.filter (!·.isReply)).foldl (Message.hear doubles toDecimal) c

section Hearing

variable (doubles toDecimal) {c : ServerConnection} {m n : Message}

theorem hear_eq (hm : m.isReply = false) :
    ∃ events, m.hear doubles toDecimal c = { c with events := events } := by
  cases m with
  | event handle eventCode data => exact ⟨_, rfl⟩
  | groupContainer groupName containerName containerType handle =>
    simp only [Message.hear, Message.deliver]
    cases (c.addContainer handle.toNat containerType containerName).groupSinks groupName <;> exact ⟨_, rfl⟩
  | _ => cases hm

theorem deliver_hear (hm : m.isReply = false) (hgroups : m.InGroups c.groupSinks) :
    m.deliver doubles toDecimal true c = (m.hear doubles toDecimal c, none) := by
  cases m with
  | event handle eventCode data => rfl
  | groupContainer groupName containerName containerType handle =>
    obtain ⟨sink, hsink⟩ := Option.isSome_iff_exists.mp hgroups
    have hsame : (c.addContainer handle.toNat containerType containerName).groupSinks groupName = some sink := hsink
    simp only [Message.hear, Message.deliver, hsame]
  | _ => cases hm

theorem hear_with (queries : Bytes → Option (List PyFields)) (hm : m.isReply = false) :
    m.hear doubles toDecimal { c with runningQueries := queries } =
      { m.hear doubles toDecimal c with runningQueries := queries } := by
  cases m with
  | event handle eventCode data => rfl
  | groupContainer groupName containerName containerType handle =>
    have hsame : ({ c with runningQueries := queries }.addContainer handle.toNat containerType containerName).groupSinks
        groupName = (c.addContainer handle.toNat containerType containerName).groupSinks groupName := rfl
    simp only [Message.hear, Message.deliver, hsame]
    cases (c.addContainer handle.toNat containerType containerName).groupSinks groupName <;> rfl
  | _ => cases hm

theorem deliver_reply (hm : m.isReply = true) :
    ∃ (queries : (Bytes → Option (List PyFields)) → Bytes → Option (List PyFields))
      (left : (Bytes → Option (List PyFields)) → Option (Except PyError PyAnswer)),
      ∀ c, m.deliver doubles toDecimal true c =
        ({ c with runningQueries := queries c.runningQueries }, left c.runningQueries) := by
  cases m with
  | simpleOk => exact ⟨id, fun _ => some (.ok .none), fun c => rfl⟩
  | answer a => exact ⟨id, fun _ => some (answerResult doubles toDecimal a), fun c => rfl⟩
  | resultSetStart queryId =>
    exact ⟨fun q => Function.update q (digits queryId.toNat) (some []), fun _ => none, fun c => rfl⟩
  | resultSetItem queryId r =>
    refine ⟨fun q => ((q (digits queryId.toNat)).map fun items =>
        Function.update q (digits queryId.toNat) (some (items ++ [textFields doubles toDecimal r]))).getD q,
      fun q => if (q (digits queryId.toNat)).isSome then none else some (.error .key), fun c => ?_⟩
    simp only [Message.deliver, ServerConnection.addToQuery]
    cases hq : c.runningQueries (digits queryId.toNat) <;> simp
  | resultSetEnd queryId =>
    refine ⟨fun q => ((q (digits queryId.toNat)).map fun _ =>
        Function.update q (digits queryId.toNat) none).getD q,
      fun q => some (((q (digits queryId.toNat)).map fun items => .ok (.query items)).getD (.error .key)), fun c => ?_⟩
    simp only [Message.deliver, ServerConnection.finishQuery]
    cases hq : c.runningQueries (digits queryId.toNat) <;> simp
  | _ => cases hm

/-- The parts of replies are taken in the same way whatever is heard before them. -/
theorem deliver_after_hear (hm : m.isReply = true) (hn : n.isReply = false) :
    m.deliver doubles toDecimal true (n.hear doubles toDecimal c) =
      (n.hear doubles toDecimal (m.deliver doubles toDecimal true c).1, (m.deliver doubles toDecimal true c).2) := by
  obtain ⟨queries, left, hdeliver⟩ := deliver_reply doubles toDecimal hm
  obtain ⟨events, hhear⟩ := hear_eq doubles toDecimal (c := c) hn
  have hsame : (n.hear doubles toDecimal c).runningQueries = c.runningQueries := by rw [hhear]
  rw [hdeliver (n.hear doubles toDecimal c), hdeliver c, hsame, hear_with doubles toDecimal (queries c.runningQueries) hn]

end Hearing

/-! ## One reply -/

section OneReply

variable {c c' : ServerConnection} {m : Message} {ms : List Message} {r : Except PyError PyAnswer}

/-- A reply that is there without anything else. -/
def Alone (doubles : UInt64 → Bytes) (toDecimal : Bytes → Option Rat) (c : ServerConnection) (reply : List Message)
    (c' : ServerConnection) (r : Except PyError PyAnswer) : Prop :=
  receiveFrom doubles toDecimal true c reply = some ((c', r), []) ∧ ∀ m ∈ reply, m.isReply = true

theorem Alone.cons {reply : List Message} (h : Alone doubles toDecimal c (m :: reply) c' r) :
    (m.deliver doubles toDecimal true c = (c', some r) ∧ reply = []) ∨
      ∃ c₁, m.deliver doubles toDecimal true c = (c₁, none) ∧ Alone doubles toDecimal c₁ reply c' r := by
  obtain ⟨hreceive, hreply⟩ := h
  rw [receiveFrom] at hreceive
  cases hdeliver : m.deliver doubles toDecimal true c with
  | mk c₁ left =>
    rw [hdeliver] at hreceive
    cases left with
    | some left =>
      obtain ⟨heq, rfl⟩ := Prod.mk.inj (Option.some.inj hreceive)
      obtain ⟨rfl, rfl⟩ := Prod.mk.inj heq
      exact .inl ⟨rfl, rfl⟩
    | none => exact .inr ⟨c₁, rfl, hreceive, fun m' hm' => hreply m' (List.mem_cons_of_mem m hm')⟩

theorem Alone.of_deliver {reply : List Message} {c₁ : ServerConnection} (hm : m.isReply = true)
    (hdeliver : m.deliver doubles toDecimal true c = (c₁, none)) (h : Alone doubles toDecimal c₁ reply c' r) :
    Alone doubles toDecimal c (m :: reply) c' r := by
  refine ⟨?_, List.forall_mem_cons.mpr ⟨hm, h.2⟩⟩
  rw [receiveFrom, hdeliver]
  exact h.1

theorem alone_one (hm : m.isReply = true) (hdeliver : m.deliver doubles toDecimal true c = (c', some r)) :
    Alone doubles toDecimal c [m] c' r := by
  refine ⟨?_, by simp [hm]⟩
  rw [receiveFrom, hdeliver]

theorem Alone.hear {reply : List Message} (h : Alone doubles toDecimal c reply c' r) (hm : m.isReply = false) :
    Alone doubles toDecimal (m.hear doubles toDecimal c) reply (m.hear doubles toDecimal c') r := by
  induction reply generalizing c with
  | nil => cases h.1
  | cons n reply ih =>
    have hn := h.2 n List.mem_cons_self
    have hafter := deliver_after_hear doubles toDecimal (c := c) hn hm
    rcases h.cons with ⟨hdeliver, rfl⟩ | ⟨c₁, hdeliver, hrest⟩
    · rw [hdeliver] at hafter
      exact alone_one hn hafter
    · rw [hdeliver] at hafter
      exact .of_deliver hn hafter (ih hrest)

/-- A reply is received through everything that stands between its parts, and what stands before its end is heard. -/
theorem receive_reply {reply later : List Message} (h : Alone doubles toDecimal c reply c' r)
    (hms : ms.filter Message.isReply = reply ++ later) (hgroups : ∀ m ∈ ms, m.InGroups c.groupSinks) :
    ∃ taken rest, ms = taken ++ rest ∧ taken.filter Message.isReply = reply ∧ rest.filter Message.isReply = later ∧
      receiveFrom doubles toDecimal true c ms = some ((hearAll doubles toDecimal c' taken, r), rest) := by
  induction ms generalizing c c' reply with
  | nil =>
    obtain rfl := (List.append_eq_nil_iff.mp hms.symm).1
    cases h.1
  | cons m ms ih =>
    cases hm : m.isReply with
    | false =>
      obtain ⟨events, hhear⟩ := hear_eq doubles toDecimal (c := c) hm
      have hsinks : (m.hear doubles toDecimal c).groupSinks = c.groupSinks := by rw [hhear]
      rw [List.filter_cons_of_neg (by simp [hm])] at hms
      obtain ⟨taken, rest, rfl, htaken, hrest, hreceive⟩ := ih (h.hear hm) hms
        (fun n hn => hsinks ▸ hgroups n (List.mem_cons_of_mem m hn))
      refine ⟨m :: taken, rest, rfl, by rw [List.filter_cons_of_neg (by simp [hm]), htaken], hrest, ?_⟩
      rw [receiveFrom, deliver_hear doubles toDecimal hm (hgroups m List.mem_cons_self)]
      have hall : hearAll doubles toDecimal c' (m :: taken) =
          hearAll doubles toDecimal (m.hear doubles toDecimal c') taken := by
        rw [hearAll, List.filter_cons_of_pos (by simp [hm])]
        rfl
      rw [hall]
      exact hreceive
    | true =>
      rw [List.filter_cons_of_pos hm] at hms
      cases reply with
      | nil => cases h.1
      | cons n reply =>
        rw [List.cons_append] at hms
        obtain ⟨rfl, hlist⟩ := List.cons.inj hms
        have hall (c : ServerConnection) (taken : List Message) :
            hearAll doubles toDecimal c (m :: taken) = hearAll doubles toDecimal c taken := by
          rw [hearAll, List.filter_cons_of_neg (by simp [hm])]
          rfl
        rcases h.cons with ⟨hdeliver, rfl⟩ | ⟨c₁, hdeliver, hrest⟩
        · refine ⟨[m], ms, rfl, by simp [hm], hlist, ?_⟩
          rw [receiveFrom, hdeliver, hall]
          rfl
        · obtain ⟨queries, left, hqueries⟩ := deliver_reply doubles toDecimal hm
          have hsinks : c₁.groupSinks = c.groupSinks := by
            rw [hqueries] at hdeliver
            rw [← (Prod.mk.inj hdeliver).1]
          obtain ⟨taken, rest, rfl, htaken, hlater, hreceive⟩ := ih hrest hlist
            (fun n hn => hsinks ▸ hgroups n (List.mem_cons_of_mem m hn))
          refine ⟨m :: taken, rest, rfl, by rw [List.filter_cons_of_pos hm, htaken], hlater, ?_⟩
          rw [receiveFrom, hdeliver, hall]
          exact hreceive

theorem Reply.alone (doubles : UInt64 → Bytes) (toDecimal : Bytes → Option Rat) (reply : Reply) (hc : c.runningQueries = fun _ => none) :
    Alone doubles toDecimal c reply.messages c (reply.result doubles toDecimal) := by
  cases reply with
  | simpleOk => exact alone_one rfl rfl
  | answer a => exact alone_one rfl rfl
  | resultSet queryId records =>
    refine .of_deliver rfl rfl ?_
    suffices hitems : ∀ got, Alone doubles toDecimal
        { c with runningQueries := Function.update c.runningQueries (digits queryId.toNat) (some got) }
        (records.map (.resultSetItem queryId) ++ [.resultSetEnd queryId]) c
        (.ok (.query (got ++ records.map (textFields doubles toDecimal)))) from hitems []
    induction records with
    | nil =>
      intro got
      refine alone_one rfl ?_
      have hnone : Function.update (Function.update c.runningQueries (digits queryId.toNat) (some got))
          (digits queryId.toNat) none = c.runningQueries := by
        rw [Function.update_idem, hc]
        exact Function.update_eq_self _ _
      simp [Message.deliver, ServerConnection.finishQuery, hnone]
    | cons record records ih =>
      intro got
      have hrest := ih (got ++ [textFields doubles toDecimal record])
      rw [List.append_assoc] at hrest
      refine .of_deliver rfl ?_ hrest
      simp [Message.deliver, ServerConnection.addToQuery]

end OneReply

/-! ## What is heard -/

section Heard

variable (doubles toDecimal) {c c' : ServerConnection} {ms ns : List Message}

theorem hear_same {m : Message} (hm : m.isReply = false) (hevents : c'.events = c.events)
    (hsinks : c'.groupSinks = c.groupSinks) :
    m.hear doubles toDecimal c' = { c' with events := (m.hear doubles toDecimal c).events } := by
  cases m with
  | event handle eventCode data =>
    simp only [Message.hear, Message.deliver, ServerConnection.handleEvent, hevents]
  | groupContainer groupName containerName containerType handle =>
    simp only [Message.hear, Message.deliver, ServerConnection.addContainer, hevents, hsinks]
    cases c.groupSinks groupName <;> rfl
  | _ => cases hm

theorem hearAll_cons (c : ServerConnection) (m : Message) (ms : List Message) :
    hearAll doubles toDecimal c (m :: ms) =
      hearAll doubles toDecimal (if m.isReply then c else m.hear doubles toDecimal c) ms := by
  unfold hearAll
  cases hm : m.isReply <;> simp [hm]

theorem hearAll_append (c : ServerConnection) (ms ns : List Message) :
    hearAll doubles toDecimal c (ms ++ ns) = hearAll doubles toDecimal (hearAll doubles toDecimal c ms) ns := by
  unfold hearAll
  rw [List.filter_append, List.foldl_append]

theorem hearAll_same (hevents : c'.events = c.events) (hsinks : c'.groupSinks = c.groupSinks) (ms : List Message) :
    hearAll doubles toDecimal c' ms = { c' with events := (hearAll doubles toDecimal c ms).events } := by
  induction ms generalizing c c' with
  | nil =>
    change c' = { c' with events := c.events }
    rw [← hevents]
  | cons m ms ih =>
    rw [hearAll_cons, hearAll_cons]
    cases hm : m.isReply with
    | true => exact ih hevents hsinks
    | false =>
      have hsame := hear_same doubles toDecimal hm hevents hsinks
      have hself := hear_same doubles toDecimal hm (rfl : c.events = c.events) rfl
      have hevents' : (m.hear doubles toDecimal c').events = (m.hear doubles toDecimal c).events := by rw [hsame]
      have hsinks' : (m.hear doubles toDecimal c').groupSinks = (m.hear doubles toDecimal c).groupSinks := by
        rw [hsame, hself]
        exact hsinks
      have hrest := ih hevents' hsinks'
      simp only [Bool.false_eq_true, if_false]
      rw [hrest, hsame]

theorem hearAll_self (c : ServerConnection) (ms : List Message) :
    hearAll doubles toDecimal c ms = { c with events := (hearAll doubles toDecimal c ms).events } :=
  hearAll_same doubles toDecimal (rfl : c.events = c.events) rfl ms

end Heard

/-! ## The answers that are owed -/

/-- The messages that are left have the replies from this number on, and what was before them was heard. -/
structure Owes (doubles : UInt64 → Bytes) (toDecimal : Bytes → Option Rat) (start : ServerConnection)
    (replies : List Reply) (all : List Message) (answered : Nat) (c : ServerConnection) (ms : List Message) : Prop where
  replies : ms.filter Message.isReply = (replies.drop answered).flatMap Reply.messages
  heard : ∃ taken, all = taken ++ ms ∧ c.events = (hearAll doubles toDecimal start taken).events
  queries : c.runningQueries = fun _ => none
  sinks : c.groupSinks = start.groupSinks

section Owed

variable {start c : ServerConnection} {replies : List Reply} {all ms : List Message} {answered : Nat}

theorem Owes.after (h : Owes doubles toDecimal start replies all answered c (ms' ++ rest)) {c' : ServerConnection}
    {later : Nat} (hc' : c' = hearAll doubles toDecimal c ms')
    (hrest : rest.filter Message.isReply = (replies.drop later).flatMap Reply.messages) :
    Owes doubles toDecimal start replies all later c' rest ∧ c' = { c with events := c'.events } := by
  have hself := hearAll_self doubles toDecimal c ms'
  rw [← hc'] at hself
  obtain ⟨taken, hall, hevents⟩ := h.heard
  refine ⟨⟨hrest, ⟨taken ++ ms', by rw [hall, List.append_assoc], ?_⟩, ?_, ?_⟩, hself⟩
  · have hstart := hearAll_self doubles toDecimal start taken
    have hsinks : c.groupSinks = (hearAll doubles toDecimal start taken).groupSinks := by
      rw [hstart]
      exact h.sinks
    rw [hearAll_append doubles toDecimal, hc', hearAll_same doubles toDecimal hevents hsinks]
  · rw [hself]
    exact h.queries
  · rw [hself]
    exact h.sinks

theorem Owes.receive (h : Owes doubles toDecimal start replies all answered c ms) {reply : Reply}
    (hgroups : ∀ m ∈ all, m.InGroups start.groupSinks) (hreply : replies[answered]? = some reply) :
    ∃ c' ms', (c.receiveAnswer true).run (overMessages doubles toDecimal) ms =
        some ((c', reply.result doubles toDecimal), ms') ∧
      Owes doubles toDecimal start replies all (answered + 1) c' ms' ∧ c' = { c with events := c'.events } := by
  obtain ⟨hlt, hget⟩ := List.getElem?_eq_some_iff.mp hreply
  have hnext : ms.filter Message.isReply =
      reply.messages ++ (replies.drop (answered + 1)).flatMap Reply.messages := by
    rw [h.replies, List.drop_eq_getElem_cons hlt, List.flatMap_cons, hget]
  have hknown : ∀ m ∈ ms, m.InGroups c.groupSinks := by
    obtain ⟨taken, hall, -⟩ := h.heard
    intro m hm
    rw [h.sinks]
    exact hgroups m (by rw [hall]; exact List.mem_append_right taken hm)
  obtain ⟨taken, rest, rfl, -, hrest, hreceive⟩ := receive_reply (reply.alone doubles toDecimal h.queries) hnext hknown
  obtain ⟨howes, hsame⟩ := h.after rfl hrest
  exact ⟨_, rest, (Calling.run_ask _ _).trans hreceive, howes, hsame⟩

/-- An event comes before the next answer. -/
def eventFirst : List Message → Bool
  | .event _ _ _ :: _ => true
  | .groupContainer _ _ _ _ :: ms => eventFirst ms
  | _ => false

theorem receive_event (doubles : UInt64 → Bytes) (toDecimal : Bytes → Option Rat) (hms : eventFirst ms) (hgroups : ∀ m ∈ ms, m.InGroups c.groupSinks) :
    ∃ taken rest, ms = taken ++ rest ∧ taken.filter Message.isReply = [] ∧
      receiveFrom doubles toDecimal false c ms = some ((hearAll doubles toDecimal c taken, .ok .none), rest) := by
  induction ms generalizing c with
  | nil => cases hms
  | cons m ms ih =>
    cases m with
    | event handle eventCode data => exact ⟨[.event handle eventCode data], ms, rfl, rfl, rfl⟩
    | groupContainer groupName containerName containerType handle =>
      have hdeliver := deliver_hear doubles toDecimal (c := c) rfl
        (hgroups (.groupContainer groupName containerName containerType handle) List.mem_cons_self)
      have hself := hear_same doubles toDecimal (m := .groupContainer groupName containerName containerType handle) rfl
        (rfl : c.events = c.events) rfl
      obtain ⟨taken, rest, rfl, htaken, hreceive⟩ := ih
        (c := (Message.groupContainer groupName containerName containerType handle).hear doubles toDecimal c) hms
        (fun m hm => by rw [hself]; exact hgroups m (List.mem_cons_of_mem _ hm))
      refine ⟨.groupContainer groupName containerName containerType handle :: taken, rest, rfl, htaken, ?_⟩
      have hsame : (Message.groupContainer groupName containerName containerType handle).deliver doubles toDecimal
          false c = (Message.groupContainer groupName containerName containerType handle).deliver doubles toDecimal
          true c := rfl
      rw [receiveFrom, hsame, hdeliver, hearAll_cons doubles toDecimal]
      exact hreceive
    | _ => cases hms

end Owed

/-! ## Runs -/

namespace ClientAction

/-- How many commands the action sends at most. -/
def sends : ClientAction → Nat
  | .sendCommand _ => 1
  | .sendCommandAndForceAnswer _ => 1
  | _ => 0

/-- A call does not wait for its answer while another one is owed, and an event is waited for where one comes before
the next answer. -/
def Careful (s : Client × List Message) : ClientAction → Prop
  | .sendCommand _ => s.1.connection.waitForAnswers → s.1.connection.pendingAnswersCount = 0
  | .sendCommandAndForceAnswer _ => s.1.connection.waitForAnswers → s.1.connection.pendingAnswersCount = 0
  | .receiveEvent => eventFirst s.2
  | _ => True

instance (s : Client × List Message) : ∀ a : ClientAction, Decidable (a.Careful s)
  | .sendCommand _ => inferInstanceAs (Decidable (_ → _))
  | .sendCommandAndForceAnswer _ => inferInstanceAs (Decidable (_ → _))
  | .receivePendingAnswers => isTrue trivial
  | .receiveEvent => inferInstanceAs (Decidable (_ = _))
  | .waitForAnswers _ => isTrue trivial

end ClientAction

/-- The calls that returned have the replies to their own commands, and each has one. -/
structure Returned (doubles : UInt64 → Bytes) (toDecimal : Bytes → Option Rat) (replies : List Reply)
    (sent : List Bytes) (returned : List (Nat × Except PyError PyAnswer)) : Prop where
  own : ∀ entry ∈ returned, ∃ reply buffer, replies[entry.1]? = some reply ∧ sent[entry.1]? = some buffer ∧
    entry.2 = namingCommand buffer (reply.result doubles toDecimal)
  once : (returned.map Prod.fst).Pairwise (· < ·)

/-- The replies that are left are those to the commands that are pending. -/
structure Balanced (doubles : UInt64 → Bytes) (toDecimal : Bytes → Option Rat) (start : ServerConnection)
    (replies : List Reply) (all : List Message) (answered : Nat) (c : ServerConnection) (ms : List Message) : Prop where
  owes : Owes doubles toDecimal start replies all answered c ms
  count : answered + c.pendingAnswersCount = c.sent.length
  enough : c.sent.length ≤ replies.length

section Steps

variable {start c c' : ServerConnection} {replies : List Reply} {all ms : List Message} {answered : Nat}
  (hgroups : ∀ m ∈ all, m.InGroups start.groupSinks)

theorem Owes.of_same (h : Owes doubles toDecimal start replies all answered c ms) (hevents : c'.events = c.events)
    (hqueries : c'.runningQueries = c.runningQueries) (hsinks : c'.groupSinks = c.groupSinks) :
    Owes doubles toDecimal start replies all answered c' ms where
  replies := h.replies
  heard := by rw [hevents]; exact h.heard
  queries := hqueries.trans h.queries
  sinks := hsinks.trans h.sinks

include hgroups

theorem Balanced.sendAndWait (h : Balanced doubles toDecimal start replies all answered c ms)
    (hwait : c.waitForAnswers = true) (hnone : c.pendingAnswersCount = 0) (hlt : c.sent.length < replies.length)
    (command : Bytes) :
    ∃ c' ms' reply, (c.sendCommand command).run (overMessages doubles toDecimal) ms =
        some ((c', namingCommand (commandBuffer command) (reply.result doubles toDecimal)), ms') ∧
      replies[c.sent.length]? = some reply ∧ Balanced doubles toDecimal start replies all (answered + 1) c' ms' ∧
      c' = { c with events := c'.events, sent := c.sent ++ [commandBuffer command] } := by
  have hanswered : answered = c.sent.length := by have := h.count; omega
  obtain ⟨reply, hreply⟩ : ∃ reply, replies[c.sent.length]? = some reply := ⟨_, List.getElem?_eq_getElem hlt⟩
  have howes : Owes doubles toDecimal start replies all answered { c with sent := c.sent ++ [commandBuffer command] } ms :=
    h.owes.of_same rfl rfl rfl
  obtain ⟨c', ms', hrun, howes', hsame⟩ := howes.receive hgroups (hanswered ▸ hreply)
  refine ⟨c', ms', reply, ?_, hreply, ⟨howes', ?_, ?_⟩, hsame⟩
  · unfold ServerConnection.sendCommand
    dsimp only
    rw [if_neg (show ¬ (!c.waitForAnswers) = true by simp [hwait])]
    exact (Calling.run_bind_of hrun _).trans rfl
  · rw [hsame]
    simp [hanswered, hnone]
  · rw [hsame, List.length_append]
    exact hlt

theorem Balanced.receiveAnswers (n : Nat) (h : Balanced doubles toDecimal start replies all answered c ms)
    (hn : n ≤ c.pendingAnswersCount) :
    ∃ c' ms' r later, (ServerConnection.receiveAnswers n c).run (overMessages doubles toDecimal) ms =
        some ((c', r), ms') ∧
      Balanced doubles toDecimal start replies all later c' ms' ∧
      c' = { c with events := c'.events, pendingAnswersCount := c'.pendingAnswersCount } ∧
      (r = .ok () → c'.pendingAnswersCount = c.pendingAnswersCount - n) := by
  induction n generalizing c ms answered with
  | zero => exact ⟨c, ms, .ok (), answered, rfl, h, rfl, fun _ => rfl⟩
  | succ n ih =>
    have hcount := h.count
    have henough := h.enough
    obtain ⟨reply, hreply⟩ : ∃ reply, replies[answered]? = some reply :=
      ⟨_, List.getElem?_eq_getElem (show answered < replies.length by omega)⟩
    have howes : Owes doubles toDecimal start replies all answered
        { c with pendingAnswersCount := c.pendingAnswersCount - 1 } ms := h.owes.of_same rfl rfl rfl
    obtain ⟨c₁, ms₁, hrun, howes₁, hsame⟩ := howes.receive hgroups hreply
    have hbalanced : Balanced doubles toDecimal start replies all (answered + 1) c₁ ms₁ := by
      refine ⟨howes₁, ?_, ?_⟩
      · rw [hsame]
        change answered + 1 + (c.pendingAnswersCount - 1) = c.sent.length
        omega
      · rw [hsame]
        exact henough
    have hpending : c₁.pendingAnswersCount = c.pendingAnswersCount - 1 := by rw [hsame]
    unfold ServerConnection.receiveAnswers
    rw [Calling.run_bind_of hrun]
    cases hresult : reply.result doubles toDecimal with
    | error e => exact ⟨c₁, ms₁, .error e, answered + 1, rfl, hbalanced, by rw [hsame], nofun⟩
    | ok a =>
      obtain ⟨c', ms', r, later, hrest, hbalanced', hsame', hok⟩ := ih hbalanced (by omega)
      refine ⟨c', ms', r, later, hrest, hbalanced', ?_, fun h => ?_⟩
      · rw [hsame', hsame]
      · rw [hok h, hpending]
        omega

/-- A command whose answer is waited for when all the pending ones were received. It is not sent when one of these is an
error. -/
theorem Balanced.forceAnswer (h : Balanced doubles toDecimal start replies all answered c ms)
    (hwait : c.waitForAnswers = false) (hlt : c.sent.length < replies.length) (command : Bytes) :
    ∃ c' ms' r later, (c.sendCommandAndForceAnswer command).run (overMessages doubles toDecimal) ms =
        some ((c', r), ms') ∧
      Balanced doubles toDecimal start replies all later c' ms' ∧
      (c'.sent = c.sent ∨ c'.sent = c.sent ++ [commandBuffer command] ∧ ∃ reply, replies[c.sent.length]? = some reply ∧
        r = namingCommand (commandBuffer command) (reply.result doubles toDecimal)) := by
  obtain ⟨c₁, ms₁, r, later, hpending, hbalanced₁, hsame₁, hok⟩ :=
    h.receiveAnswers hgroups c.pendingAnswersCount (Nat.le_refl _)
  have hsent₁ : c₁.sent = c.sent := by rw [hsame₁]
  have hpending : c.receivePendingAnswers.run (overMessages doubles toDecimal) ms = some ((c₁, r), ms₁) := hpending
  unfold ServerConnection.sendCommandAndForceAnswer
  rw [if_neg (show ¬ c.waitForAnswers = true by simp [hwait]), Calling.run_bind_of hpending]
  cases r with
  | error e => exact ⟨c₁, ms₁, .error e, later, rfl, hbalanced₁, .inl hsent₁⟩
  | ok u =>
    have hnone : c₁.pendingAnswersCount = 0 := (hok rfl).trans (Nat.sub_self _)
    have hwaiting : Balanced doubles toDecimal start replies all later { c₁ with waitForAnswers := true } ms₁ :=
      ⟨hbalanced₁.owes.of_same rfl rfl rfl, hbalanced₁.count, hbalanced₁.enough⟩
    obtain ⟨c₂, ms₂, reply, hrun, hreply, hbalanced₂, hsame₂⟩ :=
      hwaiting.sendAndWait hgroups rfl hnone (hsent₁ ▸ hlt) command
    have hreply : replies[c.sent.length]? = some reply := hsent₁ ▸ hreply
    have hsent₂ : c₂.sent = c.sent ++ [commandBuffer command] := by
      rw [hsame₂]
      exact congrArg (· ++ _) hsent₁
    dsimp only
    rw [Calling.run_bind_of hrun]
    cases hresult : namingCommand (commandBuffer command) (reply.result doubles toDecimal) with
    | error e => exact ⟨c₂, ms₂, .error e, later + 1, rfl, hbalanced₂, .inr ⟨hsent₂, reply, hreply, hresult.symm⟩⟩
    | ok a =>
      exact ⟨{ c₂ with waitForAnswers := false }, ms₂, .ok a, later + 1, rfl,
        ⟨hbalanced₂.owes.of_same rfl rfl rfl, hbalanced₂.count, hbalanced₂.enough⟩,
        .inr ⟨hsent₂, reply, hreply, hresult.symm⟩⟩

end Steps

/-- After any number of actions. -/
structure Matched (doubles : UInt64 → Bytes) (toDecimal : Bytes → Option Rat) (start : ServerConnection)
    (replies : List Reply) (all : List Message) (client : Client) (ms : List Message) : Prop where
  balanced : ∃ answered, Balanced doubles toDecimal start replies all answered client.connection ms
  returned : Returned doubles toDecimal replies client.connection.sent client.returned

section Returned

variable {replies : List Reply} {sent : List Bytes} {returned : List (Nat × Except PyError PyAnswer)}

theorem Returned.append (h : Returned doubles toDecimal replies sent returned) (more : List Bytes) :
    Returned doubles toDecimal replies (sent ++ more) returned where
  own := by
    intro entry hentry
    obtain ⟨reply, buffer, hreply, hbuffer, hresult⟩ := h.own entry hentry
    have hlt := (List.getElem?_eq_some_iff.mp hbuffer).1
    exact ⟨reply, buffer, hreply, by rw [List.getElem?_append_left hlt, hbuffer], hresult⟩
  once := h.once

theorem Returned.record (h : Returned doubles toDecimal replies sent returned) {reply : Reply} (buffer : Bytes)
    (hreply : replies[sent.length]? = some reply) :
    Returned doubles toDecimal replies (sent ++ [buffer])
      (returned ++ [(sent.length, namingCommand buffer (reply.result doubles toDecimal))]) where
  own := by
    intro entry hentry
    rcases List.mem_append.mp hentry with hentry | hentry
    · exact (h.append [buffer]).own entry hentry
    · obtain rfl := List.mem_singleton.mp hentry
      exact ⟨reply, buffer, hreply, by simp, rfl⟩
  once := by
    rw [List.map_append, List.pairwise_append]
    refine ⟨h.once, List.pairwise_singleton _ _, fun n hn n' hn' => ?_⟩
    obtain ⟨entry, hentry, rfl⟩ := List.mem_map.mp hn
    obtain rfl : n' = sent.length := List.mem_singleton.mp hn'
    obtain ⟨reply, buffer, -, hbuffer, -⟩ := h.own entry hentry
    exact (List.getElem?_eq_some_iff.mp hbuffer).1

end Returned

section Actions

variable {start : ServerConnection} {replies : List Reply} {all ms : List Message} {client : Client}
  (hgroups : ∀ m ∈ all, m.InGroups start.groupSinks)

/-- What an action does to a client whose calls are matched. -/
def Acts (doubles : UInt64 → Bytes) (toDecimal : Bytes → Option Rat) (start : ServerConnection) (replies : List Reply)
    (all : List Message) (client : Client) (ms : List Message) (a : ClientAction) : Prop :=
  ∃ client' ms', (client.act a).run (overMessages doubles toDecimal) ms = some (client', ms') ∧
    Matched doubles toDecimal start replies all client' ms' ∧
    client'.connection.sent.length ≤ client.connection.sent.length + a.sends

theorem Matched.later {c : ServerConnection} (h : Matched doubles toDecimal start replies all client ms)
    {ms' : List Message} {answered : Nat} (hbalanced : Balanced doubles toDecimal start replies all answered c ms')
    (hsent : c.sent = client.connection.sent) :
    Matched doubles toDecimal start replies all { client with connection := c } ms' where
  balanced := ⟨answered, hbalanced⟩
  returned := by
    change Returned doubles toDecimal replies c.sent client.returned
    rw [hsent]
    exact h.returned

theorem Matched.sendAndGoOn (h : Matched doubles toDecimal start replies all client ms) (command : Bytes)
    (hwait : client.connection.waitForAnswers = false) (henough : client.connection.sent.length + 1 ≤ replies.length) :
    Acts doubles toDecimal start replies all client ms (.sendCommand command) := by
  obtain ⟨answered, hbalanced⟩ := h.balanced
  have hcount := hbalanced.count
  let c : ServerConnection :=
    { client.connection with
      sent := client.connection.sent ++ [commandBuffer command]
      pendingAnswersCount := client.connection.pendingAnswersCount + 1 }
  refine ⟨⟨c, client.returned⟩, ms, ?_, ⟨⟨answered, ?_⟩, h.returned.append _⟩, by simp [c, ClientAction.sends]⟩
  · have hrun : (client.connection.sendCommand command).run (overMessages doubles toDecimal) ms =
        some ((c, .ok .none), ms) := by
      unfold ServerConnection.sendCommand
      dsimp only
      rw [if_pos (show (!client.connection.waitForAnswers) = true by simp [hwait])]
      rfl
    have hrecord : client.record c false (.ok .none) = ⟨c, client.returned⟩ := by simp [Client.record]
    refine (Calling.run_bind_of hrun _).trans ?_
    dsimp only
    rw [hwait, hrecord]
    rfl
  · refine ⟨hbalanced.owes.of_same rfl rfl rfl, ?_, by simpa [c] using henough⟩
    simp only [c, List.length_append, List.length_singleton]
    omega

include hgroups

theorem Matched.sendAndWait (h : Matched doubles toDecimal start replies all client ms) (command : Bytes)
    (hwait : client.connection.waitForAnswers = true) (hnone : client.connection.pendingAnswersCount = 0)
    (henough : client.connection.sent.length + 1 ≤ replies.length) :
    Acts doubles toDecimal start replies all client ms (.sendCommand command) := by
  obtain ⟨answered, hbalanced⟩ := h.balanced
  obtain ⟨c, ms', reply, hrun, hreply, hbalanced', hsame⟩ :=
    hbalanced.sendAndWait hgroups hwait hnone henough command
  have hsent : c.sent = client.connection.sent ++ [commandBuffer command] := by rw [hsame]
  refine ⟨client.record c true _, ms', (Calling.run_bind_of hrun _).trans (by rw [hwait]; rfl), ?_, ?_⟩
  · refine ⟨⟨answered + 1, hbalanced'⟩, ?_⟩
    have hrecord := h.returned.record (commandBuffer command) hreply
    simpa [Client.record, hsent] using hrecord
  · simp [Client.record, hsent, ClientAction.sends]

theorem Matched.forceAnswer (h : Matched doubles toDecimal start replies all client ms) (command : Bytes)
    (hwait : client.connection.waitForAnswers = false) (henough : client.connection.sent.length + 1 ≤ replies.length) :
    Acts doubles toDecimal start replies all client ms (.sendCommandAndForceAnswer command) := by
  obtain ⟨answered, hbalanced⟩ := h.balanced
  obtain ⟨c, ms', r, later, hrun, hbalanced', hsent | ⟨hsent, reply, hreply, rfl⟩⟩ :=
    hbalanced.forceAnswer hgroups hwait henough command
  · have hrecord : client.record c true r = { client with connection := c } := by simp [Client.record, hsent]
    refine ⟨client.record c true r, ms', Calling.run_bind_of hrun _, ?_, by simp [Client.record, hsent]⟩
    rw [hrecord]
    exact h.later hbalanced' hsent
  · refine ⟨client.record c true _, ms', Calling.run_bind_of hrun _, ⟨⟨later, hbalanced'⟩, ?_⟩, ?_⟩
    · have hrecord := h.returned.record (commandBuffer command) hreply
      simpa [Client.record, hsent] using hrecord
    · simp [Client.record, hsent, ClientAction.sends]

theorem Matched.act (h : Matched doubles toDecimal start replies all client ms) {a : ClientAction}
    (ha : a.Careful (client, ms)) (henough : client.connection.sent.length + a.sends ≤ replies.length) :
    Acts doubles toDecimal start replies all client ms a := by
  obtain ⟨answered, hbalanced⟩ := h.balanced
  cases a with
  | sendCommand command =>
    cases hwait : client.connection.waitForAnswers with
    | true => exact h.sendAndWait hgroups command hwait (ha hwait) henough
    | false => exact h.sendAndGoOn command hwait henough
  | sendCommandAndForceAnswer command =>
    cases hwait : client.connection.waitForAnswers with
    | true =>
      -- it is the call without the force
      obtain ⟨client', ms', hrun, hmatched, hsent⟩ := h.sendAndWait hgroups command hwait (ha hwait) henough
      refine ⟨client', ms', ?_, hmatched, hsent⟩
      unfold Client.act ServerConnection.sendCommandAndForceAnswer
      unfold Client.act at hrun
      dsimp only at hrun ⊢
      rw [hwait] at hrun
      rw [if_pos hwait]
      exact hrun
    | false => exact h.forceAnswer hgroups command hwait henough
  | receivePendingAnswers =>
    obtain ⟨c, ms', r, later, hrun, hbalanced', hsame, -⟩ :=
      hbalanced.receiveAnswers hgroups client.connection.pendingAnswersCount (Nat.le_refl _)
    have hsent : c.sent = client.connection.sent := by rw [hsame]
    have hrun : client.connection.receivePendingAnswers.run (overMessages doubles toDecimal) ms =
      some ((c, r), ms') := hrun
    refine ⟨{ client with connection := c }, ms', Calling.run_bind_of hrun _, h.later hbalanced' hsent, ?_⟩
    exact Nat.le_of_eq (congrArg List.length hsent)
  | receiveEvent =>
    have hknown : ∀ m ∈ ms, m.InGroups client.connection.groupSinks := by
      obtain ⟨taken, hall, -⟩ := hbalanced.owes.heard
      intro m hm
      rw [hbalanced.owes.sinks]
      exact hgroups m (by rw [hall]; exact List.mem_append_right taken hm)
    obtain ⟨taken, rest, rfl, htaken, hreceive⟩ := receive_event doubles toDecimal ha hknown
    have hreplies : rest.filter Message.isReply = (replies.drop answered).flatMap Reply.messages := by
      have hall := hbalanced.owes.replies
      rwa [List.filter_append, htaken, List.nil_append] at hall
    obtain ⟨howes, hsame⟩ := hbalanced.owes.after rfl hreplies
    have hrun : (client.connection.receiveAnswer false).run (overMessages doubles toDecimal) (taken ++ rest) =
        some ((hearAll doubles toDecimal client.connection taken, .ok .none), rest) :=
      (Calling.run_ask _ _).trans hreceive
    have hsent : (hearAll doubles toDecimal client.connection taken).sent = client.connection.sent := by rw [hsame]
    refine ⟨_, rest, Calling.run_bind_of hrun _, h.later ⟨howes, ?_, ?_⟩ hsent, ?_⟩
    · rw [hsame]
      exact hbalanced.count
    · rw [hsent]
      exact hbalanced.enough
    · exact Nat.le_of_eq (congrArg List.length hsent)
  | waitForAnswers wait =>
    refine ⟨_, ms, rfl, ?_, Nat.le_refl _⟩
    have hbalanced' : Balanced doubles toDecimal start replies all answered
        { client.connection with waitForAnswers := wait } ms :=
      ⟨hbalanced.owes.of_same rfl rfl rfl, hbalanced.count, hbalanced.enough⟩
    exact h.later hbalanced' rfl

end Actions

/-! ## The events -/

/-- The events of a handle that wait, with their data. -/
def ServerConnection.waiting (c : ServerConnection) (handle : Int) : List (Bytes × PyFields) :=
  (c.events.pending handle).map fun e => (e.name, ⟨e.key, e.value, e.metadata⟩)

/-- What a message is to a handle. -/
def Message.heard (doubles : UInt64 → Bytes) (toDecimal : Bytes → Option Rat) (handle : Int) :
    Message → Option (Bytes × PyFields)
  | .event h eventCode data =>
    if h.toNat = handle then
      some (Text.eventCodeToEventName eventCode, if withoutData eventCode then {} else textFields doubles toDecimal data)
    else none
  | _ => none

theorem waiting_handleEvent (c : ServerConnection) (h : Int) (name : Bytes) (fields : PyFields) (handle : Int) :
    (c.handleEvent h name fields).waiting handle =
      c.waiting handle ++ if h = handle then [(name, fields)] else [] := by
  have hpending := EventConnection.pending_handleEvent c.events
    ⟨c.events.received, h, name, fields.key, fields.value, fields.metadata⟩ handle
  refine (congrArg (List.map _) hpending).trans ?_
  by_cases hh : h = handle
  · rw [if_pos hh, if_pos hh.symm]
    exact List.map_append
  · rw [if_neg hh, if_neg (Ne.symm hh), List.append_nil]
    rfl

theorem waiting_hear {c : ServerConnection} {m : Message} (hm : m.isReply = false) (handle : Int) :
    (m.hear doubles toDecimal c).waiting handle =
      c.waiting handle ++ (m.heard doubles toDecimal handle).toList := by
  cases m with
  | event h eventCode data =>
    refine (waiting_handleEvent c h.toNat _ _ handle).trans ?_
    rw [Message.heard]
    by_cases hh : (h.toNat : Int) = handle
    · rw [if_pos hh, if_pos hh]
      rfl
    · rw [if_neg hh, if_neg hh]
      rfl
  | groupContainer groupName containerName containerType h =>
    simp only [Message.hear, Message.deliver]
    rw [show (Message.groupContainer groupName containerName containerType h).heard doubles toDecimal handle = none
      from rfl, Option.toList_none, List.append_nil]
    cases (c.addContainer h.toNat containerType containerName).groupSinks groupName <;> rfl
  | _ => cases hm

theorem waiting_hearAll (c : ServerConnection) (ms : List Message) (handle : Int) :
    (hearAll doubles toDecimal c ms).waiting handle =
      c.waiting handle ++ ms.filterMap (Message.heard doubles toDecimal handle) := by
  induction ms generalizing c with
  | nil => exact (List.append_nil _).symm
  | cons m ms ih =>
    rw [hearAll_cons, ih]
    cases hm : m.isReply with
    | true =>
      have hnot : m.heard doubles toDecimal handle = none := by
        cases m <;> first | rfl | cases hm
      rw [List.filterMap_cons_none hnot]
      rfl
    | false =>
      simp only [Bool.false_eq_true, if_false]
      rw [waiting_hear hm, List.append_assoc]
      cases hheard : m.heard doubles toDecimal handle with
      | none => rw [List.filterMap_cons_none hheard]; rfl
      | some e => rw [List.filterMap_cons_some hheard]; rfl

/-! ## Every run -/

section Runs

variable {start : ServerConnection} {replies : List Reply} {all ms rest : List Message} {client : Client}
  {actions : List ClientAction} {w : Wire}

theorem Matched.run (hgroups : ∀ m ∈ all, m.InGroups start.groupSinks)
    (h : Matched doubles toDecimal start replies all client ms)
    (hcareful : Meets (Client.step (overMessages doubles toDecimal)) (fun s a => a.Careful s) (client, ms) actions)
    (henough : client.connection.sent.length + (actions.map ClientAction.sends).sum ≤ replies.length)
    (hcarries : Carries doubles toDecimal ms w) :
    ∃ client' ms' w', Lib.run (Client.step (overWire toDecimal)) (client, w) actions = some (client', w') ∧
      Matched doubles toDecimal start replies all client' ms' ∧ Carries doubles toDecimal ms' w' := by
  induction actions generalizing client ms w with
  | nil => exact ⟨client, ms, w, rfl, h, hcarries⟩
  | cons a as ih =>
    rw [List.map_cons, List.sum_cons] at henough
    obtain ⟨client₁, ms₁, hact, h₁, hsent⟩ := h.act hgroups hcareful.1 (by omega)
    obtain ⟨w₁, hwire, hcarries₁⟩ := Calling.Follows.run carries_follows hcarries hact
    obtain ⟨client', ms', w', hrun, hmatched, hcarries'⟩ := ih h₁ (hcareful.2 _ hact) (by omega) hcarries₁
    exact ⟨client', ms', w', Option.bind_eq_some_iff.mpr ⟨(client₁, w₁), hwire, hrun⟩, hmatched, hcarries'⟩

/-- The calls have their own answers, one each; what is left has the answers that are pending; and the events before it
wait for their sinks in the order in which they came. -/
structure Served (doubles : UInt64 → Bytes) (toDecimal : Bytes → Option Rat) (start : ServerConnection)
    (replies : List Reply) (all : List Message) (client : Client) (rest : List Message) : Prop where
  returned : Returned doubles toDecimal replies client.connection.sent client.returned
  pending : ∃ answered, answered + client.connection.pendingAnswersCount = client.connection.sent.length ∧
    rest.filter Message.isReply = (replies.drop answered).flatMap Reply.messages
  events : ∃ taken, all = taken ++ rest ∧ ∀ handle, client.connection.waiting handle =
    start.waiting handle ++ taken.filterMap (Message.heard doubles toDecimal handle)

theorem Matched.served (h : Matched doubles toDecimal start replies all client rest) :
    Served doubles toDecimal start replies all client rest := by
  obtain ⟨answered, hbalanced⟩ := h.balanced
  obtain ⟨taken, hall, hevents⟩ := hbalanced.owes.heard
  refine ⟨h.returned, ⟨answered, hbalanced.count, hbalanced.owes.replies⟩, taken, hall, fun handle => ?_⟩
  rw [← waiting_hearAll]
  unfold ServerConnection.waiting
  rw [hevents]

end Runs

/-! ## One run -/

def newConnection : ServerConnection where
  events := { sinks := fun _ => none, containers := fun _ => none }

def twoReplies : List Reply := [.answer (.ok (ascii "count 1")), .answer (.error (ascii "no"))]

/-- An event between the two answers. -/
def threeMessages : List Message :=
  [.answer (.ok (ascii "count 1")), .event 3 .pushBack { value := .int 5 }, .answer (.error (ascii "no"))]

/-- Their text in pieces. -/
def pieces : Wire where
  chunks :=
    [ascii "answer ok co", ascii "unt 1\r", ascii "\nevent 3 push_back value int 1\r\n5", ascii "\r\nanswer error no\r\n"]

/-- A command whose answer is left to come, an event that is waited for when the answer was taken, and a call. -/
def mixedActions : List ClientAction :=
  [.waitForAnswers false, .sendCommand (ascii "get_count 3"), .receivePendingAnswers, .receiveEvent,
    .waitForAnswers true, .sendCommand (ascii "clear 3")]

theorem carries_pieces : Carries (fun _ => []) (fun _ => none) threeMessages pieces where
  brings := ⟨by decide +kernel, by decide +kernel, by decide +kernel⟩
  readable := by decide +kernel

end Tiodb.Python
