import Tiodb.Client.PyMessages
import Tiodb.Lib.Machine

/-!
# Calls and their answers

The text protocol has no numbers: what answers a call of `tioclient.py` is the next answer
that comes. Events come in between, and with `wait_for_answers` off the answers are left
where they are. As long as no call waits while an older answer is still to come, each call
gets its own, however the text is cut into chunks.
-/

namespace Tiodb.Python

open Lib

/-! ## The calls -/

/-- A call of `ReceiveAnswer`. -/
structure ReceiveCall where
  waitUntilAnswer : Bool
  connection : ServerConnection

abbrev ReceiveCall.Answer (_ : ReceiveCall) : Type := ServerConnection × Except PyError PyAnswer

abbrev ClientM := Calling ReceiveCall.Answer

/-- `buffer.strip('\r\n ')` -/
def strip (buffer : Bytes) : Bytes :=
  let ends (c : UInt8) : Bool := c = 13 || c = 10 || c = 32
  (buffer.dropWhile ends).rdropWhile ends

/-- What `SendCommand` raises has the command in its text. -/
def namingCommand (buffer : Bytes) (r : Except PyError PyAnswer) : Except PyError PyAnswer :=
  r.mapError fun e => .ofCommand e (strip buffer)

def commandBuffer (command : Bytes) : Bytes :=
  if Text.lineEnd <:+ command then command else command ++ Text.lineEnd

namespace ServerConnection

def receiveAnswer (c : ServerConnection) (waitUntilAnswer : Bool) :
    ClientM (ServerConnection × Except PyError PyAnswer) :=
  Calling.ask (ReceiveCall.mk waitUntilAnswer c)

def sendCommand (c : ServerConnection) (command : Bytes) : ClientM (ServerConnection × Except PyError PyAnswer) := do
  let buffer := commandBuffer command
  let c := { c with sent := c.sent ++ [buffer] }
  if !c.waitForAnswers then pure ({ c with pendingAnswersCount := c.pendingAnswersCount + 1 }, .ok .none)
  else do
    let (c, r) ← c.receiveAnswer true
    pure (c, namingCommand buffer r)

/-- The loop of `ReceivePendingAnswers`. -/
def receiveAnswers : Nat → ServerConnection → ClientM (ServerConnection × Except PyError Unit)
  | 0, c => pure (c, .ok ())
  | n + 1, c => do
    match ← { c with pendingAnswersCount := c.pendingAnswersCount - 1 }.receiveAnswer true with
    | (c, .error e) => pure (c, .error e)
    | (c, .ok _) => receiveAnswers n c

def receivePendingAnswers (c : ServerConnection) : ClientM (ServerConnection × Except PyError Unit) :=
  receiveAnswers c.pendingAnswersCount c

/-- An exception of the command leaves `wait_for_answers` on. -/
def sendCommandAndForceAnswer (c : ServerConnection) (command : Bytes) :
    ClientM (ServerConnection × Except PyError PyAnswer) :=
  if c.waitForAnswers then c.sendCommand command
  else do
    match ← c.receivePendingAnswers with
    | (c, .error e) => pure (c, .error e)
    | (c, .ok ()) =>
      match ← { c with waitForAnswers := true }.sendCommand command with
      | (c, .error e) => pure (c, .error e)
      | (c, .ok a) => pure ({ c with waitForAnswers := false }, .ok a)

end ServerConnection

/-! ## Runs -/

/-- What the program does. `receiveEvent` is a turn of `RunLoop`, or `DispatchPendingEventAndReceiveNext`, after the
dispatch. -/
inductive ClientAction where
  | sendCommand (command : Bytes)
  | sendCommandAndForceAnswer (command : Bytes)
  | receivePendingAnswers
  | receiveEvent
  | waitForAnswers (wait : Bool)
  deriving DecidableEq

/-- `returned` is history: what the calls that waited for an answer returned or raised, with the numbers of their
commands. -/
structure Client where
  connection : ServerConnection
  returned : List (Nat × Except PyError PyAnswer) := []

namespace Client

/-- A call that sent its command and waited gave back the result. -/
def record (client : Client) (c : ServerConnection) (waited : Bool) (r : Except PyError PyAnswer) : Client where
  connection := c
  returned :=
    client.returned ++
      if waited && client.connection.sent.length < c.sent.length then [(client.connection.sent.length, r)] else []

def act (client : Client) : ClientAction → ClientM Client
  | .sendCommand command => do
    let (c, r) ← client.connection.sendCommand command
    pure (client.record c client.connection.waitForAnswers r)
  | .sendCommandAndForceAnswer command => do
    let (c, r) ← client.connection.sendCommandAndForceAnswer command
    pure (client.record c true r)
  | .receivePendingAnswers => do
    let (c, _) ← client.connection.receivePendingAnswers
    pure { client with connection := c }
  | .receiveEvent => do
    let (c, _) ← client.connection.receiveAnswer false
    pure { client with connection := c }
  | .waitForAnswers wait => pure { client with connection := { client.connection with waitForAnswers := wait } }

def step {σ : Type} (server : Responder ReceiveCall.Answer σ) (s : Client × σ) (a : ClientAction) :
    Option (Client × σ) :=
  (s.1.act a).run server s.2

end Client

/-- The socket. A line has two characters at least. -/
def overWire (toDecimal : Bytes → Option Rat) : Responder ReceiveCall.Answer Wire := fun call w =>
  (receiveAnswer toDecimal call.waitUntilAnswer (w.receiveBuffer ++ w.chunks.flatten).length call.connection).run
    wireServer w

/-! ## The messages behind the socket -/

section Messages

variable (doubles : UInt64 → Bytes) (toDecimal : Bytes → Option Rat)

def receiveFrom (waitUntilAnswer : Bool) (c : ServerConnection) :
    List Message → Option ((ServerConnection × Except PyError PyAnswer) × List Message)
  | [] => none
  | m :: ms =>
    match m.deliver doubles toDecimal waitUntilAnswer c with
    | (c, some r) => some ((c, r), ms)
    | (c, none) => receiveFrom waitUntilAnswer c ms

/-- The messages one after the other, and no text. -/
def overMessages : Responder ReceiveCall.Answer (List Message) := fun call ms =>
  receiveFrom doubles toDecimal call.waitUntilAnswer call.connection ms

variable {doubles toDecimal}

theorem text_ne_nil (doubles : UInt64 → Bytes) (m : Message) : m.text doubles ≠ [] := by
  cases m with
  | answer a => cases a <;> simp [Message.text, answerText, Text.makeAnswerStart, Text.makeDataAnswer,
      Text.lineEnd, ascii]
  | _ => simp [Message.text, Text.sendTextResultSetItem, Text.sendTextEvent, Text.lineEnd, ascii]

theorem length_le_text (doubles : UInt64 → Bytes) (ms : List Message) : ms.length ≤ (ms.flatMap (·.text doubles)).length := by
  induction ms with
  | nil => exact Nat.le_refl _
  | cons m ms ih =>
    have hm := List.length_pos_of_ne_nil (text_ne_nil doubles m)
    rw [List.flatMap_cons, List.length_append, List.length_cons]
    omega

theorem run_receiveAnswer {ms ms' : List Message} {waitUntilAnswer : Bool} {c : ServerConnection}
    {r : ServerConnection × Except PyError PyAnswer} (hreadable : ∀ m ∈ ms, m.Readable doubles toDecimal)
    (h : receiveFrom doubles toDecimal waitUntilAnswer c ms = some (r, ms')) {lines : Nat} (hlines : ms.length ≤ lines) :
    (receiveAnswer toDecimal waitUntilAnswer lines c).run textServer (ms.flatMap (·.text doubles)) =
        some (r, ms'.flatMap (·.text doubles)) ∧ ms' <:+ ms := by
  induction ms generalizing c lines with
  | nil => cases h
  | cons m ms ih =>
    obtain ⟨lines, rfl⟩ : ∃ n, lines = n + 1 := ⟨lines - 1, by simp only [List.length_cons] at hlines; omega⟩
    obtain ⟨line, after, hline, hturn⟩ := takenBy_message (hreadable m List.mem_cons_self) waitUntilAnswer c
      (ms.flatMap (·.text doubles))
    have hasked : (Calling.ask StreamCall.receiveLine : PyM Bytes).run textServer
        ((m :: ms).flatMap (·.text doubles)) = some (line, after) := (Calling.run_ask _ _).trans hline
    rw [receiveFrom] at h
    rw [receiveAnswer, Calling.run_bind_of hasked, Calling.run_bind_of hturn]
    cases hdelivered : m.deliver doubles toDecimal waitUntilAnswer c with
    | mk c' left =>
      rw [hdelivered] at h
      cases left with
      | some left =>
        obtain ⟨rfl, rfl⟩ := Prod.mk.inj (Option.some.inj h)
        exact ⟨rfl, List.suffix_cons m ms⟩
      | none =>
        obtain ⟨hrun, hsuffix⟩ := ih (fun m' hm' => hreadable m' (List.mem_cons_of_mem m hm')) h
          (show ms.length ≤ lines by simpa using hlines)
        exact ⟨hrun, hsuffix.trans (List.suffix_cons m ms)⟩

/-- The wire has these messages to come. -/
structure Carries (doubles : UInt64 → Bytes) (toDecimal : Bytes → Option Rat) (ms : List Message) (w : Wire) : Prop where
  brings : w.Brings (ms.flatMap (·.text doubles))
  readable : ∀ m ∈ ms, m.Readable doubles toDecimal

/-- Whatever is received from the messages is received from the wire. -/
theorem carries_follows :
    Calling.Follows (Carries doubles toDecimal) (overMessages doubles toDecimal) (overWire toDecimal) := by
  intro call ms w r ms' h hreceive
  have hlength := length_le_text doubles ms
  rw [← h.brings.text] at hlength
  obtain ⟨hrun, hsuffix⟩ := run_receiveAnswer h.readable hreceive hlength
  obtain ⟨w', hw', hbrings⟩ := Calling.Follows.run brings_follows h.brings hrun
  exact ⟨w', hw', hbrings, fun m hm => h.readable m (hsuffix.subset hm)⟩

end Messages

end Tiodb.Python
