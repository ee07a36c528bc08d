import Tiodb.Lib.Machine
import Tiodb.Protocol.Message

/-!
# Sending binary messages

`SendBinaryMessage`, `SendBinaryMessages`, `SendPendingBinaryData` and
`OnBinaryMessageSent` of `TioTcpSession.cpp`. Queued messages are copied one after
the other into a buffer of fixed size, and the buffer goes out in one write.
-/

namespace Tiodb

open Lib

/-- `writes`, `completed` and `queued` are history: what was handed to `async_write`, how many of these
writes are done, and the messages that were accepted. -/
structure Sender where
  valid : Bool
  binarySendInProgress : Bool
  pendingBinarySendData : List Pr1.Message
  debugSeqNum : UInt16
  pendingSendSize : Int32
  writes : List Bytes
  completed : Nat
  queued : List Pr1.Message
  deriving DecidableEq, Repr

namespace Sender

def init : Sender := ⟨true, false, [], 0, 0, [], 0, []⟩

def sendBufferSize : UInt32 := 10 * 1024 * 1024

/-- The loop that fills the buffer: what is in it, the last sequence number and what is still queued. `none` is a
copy that leaves the buffer. -/
def fillBuffer (used : Bytes) (debugSeqNum : UInt16) :
    List Pr1.Message → Option (Bytes × UInt16 × List Pr1.Message)
  | [] => some (used, debugSeqNum, [])
  | item :: rest =>
    (item.getBuffer (debugSeqNum + 1)).bind fun r =>
      let bufferSize := item.streamBuffer.spaceUsed
      if sendBufferSize < UInt32.ofNat used.length + bufferSize then some (used, debugSeqNum + 1, r.2 :: rest)
      else if sendBufferSize.toNat < used.length + r.1.length then none
      else fillBuffer (used ++ r.1) (debugSeqNum + 1) rest

def sendPendingBinaryData (s : Sender) : Option Sender :=
  if s.binarySendInProgress then some s
  else if !s.valid then some s
  else if s.pendingBinarySendData = [] then some s
  else
    (fillBuffer [] s.debugSeqNum s.pendingBinarySendData).map fun r =>
      { s with
        binarySendInProgress := true
        pendingBinarySendData := r.2.2
        debugSeqNum := r.2.1
        writes := s.writes ++ [r.1] }

def pushBack (s : Sender) (message : Pr1.Message) : Sender :=
  { s with
    pendingBinarySendData := s.pendingBinarySendData ++ [message]
    pendingSendSize := s.pendingSendSize + message.streamBuffer.spaceUsed.toInt32
    queued := s.queued ++ [message] }

def sendBinaryMessage (s : Sender) (message : Pr1.Message) : Option Sender :=
  if !s.valid then some s else (s.pushBack message).sendPendingBinaryData

def sendBinaryMessages (s : Sender) (messages : List Pr1.Message) : Option Sender :=
  if !s.valid then some s else (messages.foldl pushBack s).sendPendingBinaryData

/-- The write in flight, which is the last, has sent all of its bytes. -/
def onBinaryMessageSent (s : Sender) : Option Sender :=
  if s.binarySendInProgress then
    sendPendingBinaryData
      { s with
        pendingSendSize := s.pendingSendSize - Int32.ofNat (s.writes.getLast?.getD []).length
        binarySendInProgress := false
        completed := s.completed + 1 }
  else none

inductive Action where
  | sendBinaryMessage (message : Pr1.Message)
  | sendBinaryMessages (messages : List Pr1.Message)
  | onBinaryMessageSent

def step (s : Sender) : Action → Option Sender
  | .sendBinaryMessage message => s.sendBinaryMessage message
  | .sendBinaryMessages messages => s.sendBinaryMessages messages
  | .onBinaryMessageSent => s.onBinaryMessageSent

def Action.messages : Action → List Pr1.Message
  | .sendBinaryMessage message => [message]
  | .sendBinaryMessages messages => messages
  | .onBinaryMessageSent => []

/-- A message as the server builds it. -/
def create (fields : List (UInt16 × TioData)) : Option Pr1.Message :=
  Pr1.Message.new.bind fun m => Pr1.Side.server.addAll m fields

/-- The message was built of these fields, and there is room for it in an empty buffer. -/
def Fits (message : Pr1.Message) : Prop :=
  ∃ fields, create fields = some message ∧ Pr1.encodedSize fields ≤ sendBufferSize.toNat

def AllFit (_ : Sender) (a : Action) : Prop := ∀ message ∈ a.messages, Fits message

/-! ## Filling the buffer -/

/-- The bytes of these messages, each under its sequence number. -/
def coalesced (group : List (Pr1.Message × UInt16)) : Option Bytes :=
  (group.mapM fun x : Pr1.Message × UInt16 => (x.1.getBuffer x.2).map Prod.fst).map List.flatten

/-- The first is the second but for a header that was filled in meanwhile. -/
def SameFields (m m₀ : Pr1.Message) : Prop :=
  ∃ payload, m.Holding payload ∧ m₀.Holding payload ∧ m.fieldCount = m₀.fieldCount ∧
    8 + payload.length ≤ sendBufferSize.toNat

theorem Fits.sameFields {m : Pr1.Message} (h : Fits m) : SameFields m m := by
  obtain ⟨fields, hcreate, hsize⟩ := h
  obtain ⟨m₀, hnew, hm₀, -⟩ := Pr1.Message.new_holding
  have hlt : sendBufferSize.toNat < 2 ^ 31 - 4096 := by decide
  obtain ⟨m', hadd, hm', -⟩ := Pr1.Side.server.addAll_holding fields hm₀ (by
    rw [List.length_nil]
    omega)
  obtain rfl : m' = m := by
    rw [create, hnew, Option.bind_some, hadd] at hcreate
    exact Option.some.inj hcreate
  exact ⟨_, hm', hm', rfl, hsize⟩

theorem SameFields.getBuffer {m m₀ : Pr1.Message} (h : SameFields m m₀) (debugSeqNum : UInt16) :
    ∃ b m', m.getBuffer debugSeqNum = some (b, m') ∧ (m₀.getBuffer debugSeqNum).map Prod.fst = some b ∧
      b.length = m.streamBuffer.spaceUsed.toNat ∧ b.length ≤ sendBufferSize.toNat ∧ SameFields m' m₀ := by
  obtain ⟨payload, hm, hm₀, hcount, hsize⟩ := h
  have hlt : sendBufferSize.toNat < 2 ^ 31 := by decide
  obtain ⟨m', hget, hm', hcount'⟩ := Pr1.Message.getBuffer_holding hm debugSeqNum (by omega)
  obtain ⟨m₀', hget₀, -, -⟩ := Pr1.Message.getBuffer_holding hm₀ debugSeqNum (by omega)
  refine ⟨_, m', hget, ?_, ?_, ?_, payload, hm', hm₀, hcount'.trans hcount, hsize⟩
  · rw [hget₀, hcount]
    rfl
  · rw [StreamBuffer.spaceUsed, hm.current, UInt32.toNat_ofNat_of_lt' (show _ < 2 ^ 32 by omega),
      List.length_append, Pr1.Header.length_encode]
  · rw [List.length_append, Pr1.Header.length_encode]
    exact hsize

theorem coalesced_cons {x : Pr1.Message × UInt16} {group : List (Pr1.Message × UInt16)} {b b' : Bytes}
    (hx : (x.1.getBuffer x.2).map Prod.fst = some b) (hgroup : coalesced group = some b') :
    coalesced (x :: group) = some (b ++ b') := by
  obtain ⟨bs, hbs, rfl⟩ := Option.map_eq_some_iff.mp hgroup
  rw [coalesced, List.mapM_cons, hx, hbs]
  rfl

/-- The loop takes whole messages from the front of the queue, and at least one if the buffer is empty. -/
theorem fillBuffer_spec {pending queued : List Pr1.Message} (h : List.Forall₂ SameFields pending queued)
    (used : Bytes) (hused : used.length ≤ sendBufferSize.toNat) (debugSeqNum : UInt16) :
    ∃ b debugSeqNum' pending' group rest,
      fillBuffer used debugSeqNum pending = some (used ++ b, debugSeqNum', pending') ∧
      queued = group.map Prod.fst ++ rest ∧ coalesced group = some b ∧ List.Forall₂ SameFields pending' rest ∧
      (used = [] → pending ≠ [] → group ≠ []) := by
  induction h generalizing used debugSeqNum with
  | nil =>
    exact ⟨[], debugSeqNum, [], [], [], by rw [fillBuffer, List.append_nil], rfl, rfl, .nil, fun _ h => absurd rfl h⟩
  | @cons item m₀ pending queued hitem hrest ih =>
    obtain ⟨b, item', hget, hget₀, hlen, hsize, hitem'⟩ := hitem.getBuffer (debugSeqNum + 1)
    have hlt : sendBufferSize.toNat < 2 ^ 31 := by decide
    have hsum : (UInt32.ofNat used.length + item.streamBuffer.spaceUsed).toNat = used.length + b.length := by
      rw [UInt32.toNat_add, UInt32.toNat_ofNat_of_lt' (show _ < 2 ^ 32 by omega), ← hlen]
      exact Nat.mod_eq_of_lt (by omega)
    rw [fillBuffer, hget, Option.bind_some]
    dsimp only
    by_cases hfull : sendBufferSize < UInt32.ofNat used.length + item.streamBuffer.spaceUsed
    · -- the message stays, with its header filled in
      rw [if_pos hfull]
      rw [UInt32.lt_iff_toNat_lt, hsum] at hfull
      refine ⟨[], _, _, [], _, by rw [List.append_nil], rfl, rfl, .cons hitem' hrest, fun h _ => ?_⟩
      rw [h, List.length_nil] at hfull
      omega
    · rw [if_neg hfull]
      rw [UInt32.lt_iff_toNat_lt, hsum] at hfull
      rw [if_neg hfull]
      obtain ⟨b', seq, pending', group, rest, hfill, hqueued, hgroup, hpending, -⟩ :=
        ih (used ++ b) (by rw [List.length_append]; omega) (debugSeqNum + 1)
      refine ⟨b ++ b', seq, pending', (m₀, debugSeqNum + 1) :: group, rest, ?_, ?_, coalesced_cons hget₀ hgroup,
        hpending, fun _ _ => List.cons_ne_nil _ _⟩
      · rw [hfill, List.append_assoc]
      · rw [hqueued, List.map_cons, List.cons_append]

/-! ## Runs -/

/-- What was written and what is still queued are the messages that were accepted, in order and each whole; every
write has one at least. -/
def InOrder (s : Sender) : Prop :=
  ∃ (groups : List (List (Pr1.Message × UInt16))) (rest : List Pr1.Message),
    s.queued = groups.flatten.map Prod.fst ++ rest ∧
    s.writes.map some = groups.map coalesced ∧ (∀ group ∈ groups, group ≠ []) ∧
    List.Forall₂ SameFields s.pendingBinarySendData rest

structure Accounted (s : Sender) : Prop where
  valid : s.valid = true
  inOrder : InOrder s
  inFlight : s.writes.length = s.completed + if s.binarySendInProgress then 1 else 0

/-- Between two actions a message waits only for a write in flight. -/
structure Sending (s : Sender) : Prop extends Accounted s where
  waiting : s.binarySendInProgress = false → s.pendingBinarySendData = []

theorem init_sending : Sending init :=
  ⟨⟨rfl, ⟨[], [], rfl, rfl, by simp, .nil⟩, rfl⟩, fun _ => rfl⟩

theorem Accounted.sendPendingBinaryData {s : Sender} (h : Accounted s) :
    ∃ s', s.sendPendingBinaryData = some s' ∧ Sending s' ∧
      (s.binarySendInProgress = false → s.pendingBinarySendData ≠ [] →
        s'.pendingBinarySendData.length < s.pendingBinarySendData.length) := by
  unfold Sender.sendPendingBinaryData
  by_cases hp : s.binarySendInProgress = true
  · rw [if_pos hp]
    exact ⟨s, rfl, ⟨h, fun h' => by simp [hp] at h'⟩, fun h' => by simp [hp] at h'⟩
  rw [if_neg hp, h.valid]
  by_cases hempty : s.pendingBinarySendData = []
  · simp only [Bool.not_true, Bool.false_eq_true, if_false, if_pos hempty]
    exact ⟨s, rfl, ⟨h, fun _ => hempty⟩, fun _ h' => absurd hempty h'⟩
  simp only [Bool.not_true, Bool.false_eq_true, if_false, if_neg hempty]
  obtain ⟨groups, queued, hqueued, hwrites, hgroups, hpending⟩ := h.inOrder
  obtain ⟨b, seq, pending', group, rest, hfill, hsplit, hgroup, hpending', hne⟩ :=
    fillBuffer_spec hpending [] (Nat.zero_le _) s.debugSeqNum
  have hgroup_ne : group ≠ [] := hne rfl hempty
  rw [hfill, Option.map_some]
  refine ⟨_, rfl, ⟨⟨rfl, ⟨groups ++ [group], rest, ?_, ?_, ?_, hpending'⟩, ?_⟩, fun h' => by simp at h'⟩,
    fun _ _ => ?_⟩
  · simp [hqueued, hsplit]
  · simp [hwrites, hgroup]
  · intro g hg
    rcases List.mem_append.mp hg with hg | hg
    · exact hgroups g hg
    · rw [List.mem_singleton.mp hg]
      exact hgroup_ne
  · have hin := h.inFlight
    simp only [hp, Bool.false_eq_true, if_false] at hin
    simp [hin]
  · have hlen := congrArg List.length hsplit
    rw [List.length_append, List.length_map, ← hpending.length_eq, ← hpending'.length_eq] at hlen
    have := List.length_pos_iff.mpr hgroup_ne
    dsimp only
    omega

theorem Accounted.pushBack {s : Sender} (h : Accounted s) {m : Pr1.Message} (hm : Fits m) :
    Accounted (s.pushBack m) := by
  obtain ⟨groups, rest, hqueued, hwrites, hgroups, hpending⟩ := h.inOrder
  refine ⟨h.valid, ⟨groups, rest ++ [m], ?_, hwrites, hgroups, ?_⟩, h.inFlight⟩
  · rw [Sender.pushBack, hqueued, List.append_assoc]
  · exact List.rel_append hpending (.cons hm.sameFields .nil)

theorem Accounted.foldl_pushBack {messages : List Pr1.Message} {s : Sender} (h : Accounted s)
    (hm : ∀ m ∈ messages, Fits m) : Accounted (messages.foldl Sender.pushBack s) := by
  induction messages generalizing s with
  | nil => exact h
  | cons m messages ih => exact ih (h.pushBack (hm m (by simp))) fun m' hm' => hm m' (by simp [hm'])

theorem Sending.onBinaryMessageSent {s : Sender} (h : Sending s) (hp : s.binarySendInProgress = true) :
    ∃ s', s.onBinaryMessageSent = some s' ∧ Sending s' ∧
      (s.pendingBinarySendData ≠ [] → s'.pendingBinarySendData.length < s.pendingBinarySendData.length) := by
  have hin := h.inFlight
  simp only [hp, if_true] at hin
  rw [Sender.onBinaryMessageSent, if_pos hp]
  obtain ⟨s', hs, hs', hlt⟩ := Accounted.sendPendingBinaryData (s := { s with
    pendingSendSize := s.pendingSendSize - Int32.ofNat (s.writes.getLast?.getD []).length
    binarySendInProgress := false
    completed := s.completed + 1 }) ⟨h.valid, h.inOrder, by simp [hin]⟩
  exact ⟨s', hs, hs', hlt rfl⟩

theorem Sending.step {s : Sender} (h : Sending s) {a : Action} (ha : AllFit s a)
    (hsent : a = .onBinaryMessageSent → s.binarySendInProgress = true) :
    ∃ s', Sender.step s a = some s' ∧ Sending s' := by
  cases a with
  | sendBinaryMessage m =>
    obtain ⟨s', hs, hs', -⟩ := (h.toAccounted.pushBack (ha m (by simp [Action.messages]))).sendPendingBinaryData
    exact ⟨s', by simp [Sender.step, sendBinaryMessage, h.valid, hs], hs'⟩
  | sendBinaryMessages ms =>
    obtain ⟨s', hs, hs', -⟩ := (h.toAccounted.foldl_pushBack ha).sendPendingBinaryData
    refine ⟨s', ?_, hs'⟩
    rw [Action.messages] at hs
    simp [Sender.step, sendBinaryMessages, h.valid, hs]
  | onBinaryMessageSent =>
    obtain ⟨s', hs, hs', -⟩ := h.onBinaryMessageSent (hsent rfl)
    exact ⟨s', hs, hs'⟩

theorem Sending.run {s s' : Sender} {as : List Action} (h : Sending s) (hm : Meets Sender.step AllFit s as)
    (hr : Lib.run Sender.step s as = some s') : Sending s' := by
  refine run_keeps (fun s a s' hs ha hstep => ?_) h hm hr
  have hsent : a = .onBinaryMessageSent → s.binarySendInProgress = true := by
    rintro rfl
    by_contra hp
    simp [Sender.step, Sender.onBinaryMessageSent, hp] at hstep
  obtain ⟨t, ht, hs'⟩ := hs.step ha hsent
  obtain rfl : t = s' := Option.some.inj (ht.symm.trans hstep)
  exact hs'

theorem Sending.drain {s : Sender} (h : Sending s) :
    ∃ n s', Lib.run Sender.step s (List.replicate n .onBinaryMessageSent) = some s' ∧
      s'.pendingBinarySendData = [] := by
  induction hn : s.pendingBinarySendData.length using Nat.strong_induction_on generalizing s with
  | _ n ih =>
    by_cases hempty : s.pendingBinarySendData = []
    · exact ⟨0, s, rfl, hempty⟩
    · have hp : s.binarySendInProgress = true := by
        by_contra hp
        exact hempty (h.waiting (by simpa using hp))
      obtain ⟨t, ht, ht', hlt⟩ := h.onBinaryMessageSent hp
      obtain ⟨k, s', hr, hs'⟩ := ih _ (hn ▸ hlt hempty) ht' rfl
      exact ⟨k + 1, s', run_cons.mpr ⟨t, ht, hr⟩, hs'⟩

/-- On a valid session whose messages all fit into the send buffer, the writes are the accepted messages in order, at
most one write is in flight, none is without a message, completions drain the queue, and no action goes wrong. -/
theorem writes_whole_messages {s : Sender} {as : List Action} (hm : Meets step AllFit init as)
    (hr : run step init as = some s) :
    InOrder s ∧ (s.writes.length = s.completed + if s.binarySendInProgress then 1 else 0) ∧
      (∃ n s', run step s (List.replicate n .onBinaryMessageSent) = some s' ∧ s'.pendingBinarySendData = []) ∧
      ∀ a, AllFit s a → (a = .onBinaryMessageSent → s.binarySendInProgress = true) → ∃ s', step s a = some s' := by
  have h := init_sending.run hm hr
  refine ⟨h.inOrder, h.inFlight, h.drain, fun a ha hsent => ?_⟩
  obtain ⟨s', hs', -⟩ := h.step ha hsent
  exact ⟨s', hs'⟩

theorem writes_whole_messages_two_messages :
    ∃ m m' s, create [(1, .int 5)] = some m ∧ create [(2, .string (ascii "ab"))] = some m' ∧
      run step init [.sendBinaryMessage m, .sendBinaryMessage m', .onBinaryMessageSent] = some s ∧
      s.completed = 1 ∧ s.writes.map List.length = [20, 18] ∧ InOrder s ∧
      ∃ n s', run step s (List.replicate n .onBinaryMessageSent) = some s' ∧ s'.pendingBinarySendData = [] := by
  have hrun : ((create [(1, .int 5)]).bind fun m => (create [(2, .string (ascii "ab"))]).bind fun m' =>
      (run step init [.sendBinaryMessage m, .sendBinaryMessage m', .onBinaryMessageSent]).map fun s =>
        (s.completed, s.writes.map List.length)) = some (1, [20, 18]) := by decide +kernel
  obtain ⟨m, hm, hrun⟩ := Option.bind_eq_some_iff.mp hrun
  obtain ⟨m', hm', hrun⟩ := Option.bind_eq_some_iff.mp hrun
  obtain ⟨s, hr, hview⟩ := Option.map_eq_some_iff.mp hrun
  obtain ⟨hcompleted, hwrites⟩ := Prod.mk.inj hview
  have hfits : Fits m := ⟨_, hm, by decide⟩
  have hfits' : Fits m' := ⟨_, hm', by decide⟩
  have hmeets : Meets step AllFit init [.sendBinaryMessage m, .sendBinaryMessage m', .onBinaryMessageSent] :=
    ⟨List.forall_mem_singleton.mpr hfits, fun _ _ => ⟨List.forall_mem_singleton.mpr hfits', fun _ _ =>
      ⟨List.forall_mem_nil _, fun _ _ => trivial⟩⟩⟩
  obtain ⟨hin, -, hdrain, -⟩ := writes_whole_messages hmeets hr
  exact ⟨m, m', s, hm, hm', hr, hcompleted, hwrites, hin, hdrain⟩

/-! ## A message for which there is no room -/

def TooBig (m : Pr1.Message) : Prop :=
  ∃ payload, m.Holding payload ∧ sendBufferSize.toNat < 8 + payload.length ∧ payload.length < 2 ^ 31

theorem TooBig.sendPendingBinaryData {m : Pr1.Message} (h : TooBig m) {s : Sender} (hvalid : s.valid = true)
    (hp : s.binarySendInProgress = false) (hpending : s.pendingBinarySendData = [m]) :
    ∃ m', TooBig m' ∧ s.sendPendingBinaryData = some { s with
      binarySendInProgress := true
      pendingBinarySendData := [m']
      debugSeqNum := s.debugSeqNum + 1
      writes := s.writes ++ [[]] } := by
  obtain ⟨payload, hm, hbig, hsize⟩ := h
  obtain ⟨m', hget, hm', -⟩ := Pr1.Message.getBuffer_holding hm (s.debugSeqNum + 1) hsize
  have hused : m.streamBuffer.spaceUsed.toNat = 8 + payload.length := by
    rw [StreamBuffer.spaceUsed, hm.current, UInt32.toNat_ofNat_of_lt' (show _ < 2 ^ 32 by omega)]
  have hfull : sendBufferSize < UInt32.ofNat ([] : Bytes).length + m.streamBuffer.spaceUsed := by
    rw [List.length_nil, UInt32.lt_iff_toNat_lt]
    simpa [hused] using hbig
  refine ⟨m', ⟨payload, hm', hbig, hsize⟩, ?_⟩
  rw [Sender.sendPendingBinaryData, hp, hvalid, hpending, fillBuffer, hget, Option.bind_some]
  simp only [hfull, if_true, Bool.false_eq_true, if_false, Bool.not_true, List.cons_ne_self, Option.map_some]

/-- Every completion starts another write of no bytes, and the message stays. -/
theorem TooBig.completions {n : Nat} {m : Pr1.Message} (h : TooBig m) {s : Sender} (hvalid : s.valid = true)
    (hp : s.binarySendInProgress = true) (hpending : s.pendingBinarySendData = [m]) :
    ∃ s', run step s (List.replicate n .onBinaryMessageSent) = some s' ∧ s'.pendingBinarySendData ≠ [] ∧
      s'.writes = s.writes ++ List.replicate n [] := by
  induction n generalizing s m with
  | zero => exact ⟨s, rfl, by simp [hpending], by simp⟩
  | succ n ih =>
    obtain ⟨m', hm', hs⟩ := h.sendPendingBinaryData (s := { s with
      pendingSendSize := s.pendingSendSize - Int32.ofNat (s.writes.getLast?.getD []).length
      binarySendInProgress := false
      completed := s.completed + 1 }) hvalid rfl hpending
    have hstep : s.onBinaryMessageSent = _ := (if_pos hp).trans hs
    obtain ⟨s', hr, hne, hwrites⟩ := ih (s := { s with
      pendingSendSize := s.pendingSendSize - Int32.ofNat (s.writes.getLast?.getD []).length
      binarySendInProgress := true
      completed := s.completed + 1
      pendingBinarySendData := [m']
      debugSeqNum := s.debugSeqNum + 1
      writes := s.writes ++ [[]] }) hm' hvalid rfl rfl
    refine ⟨s', run_cons.mpr ⟨_, hstep, hr⟩, hne, ?_⟩
    rw [hwrites, List.append_assoc, List.replicate_succ]
    rfl

theorem big_message_stays :
    ∃ m, create [(5, .string (List.replicate 10485760 0))] = some m ∧
      ∀ n, ∃ s, run step init (.sendBinaryMessage m :: List.replicate n .onBinaryMessageSent) = some s ∧
        s.pendingBinarySendData ≠ [] ∧ s.writes = List.replicate (n + 1) [] := by
  obtain ⟨m₀, hnew, hm₀, -⟩ := Pr1.Message.new_holding
  have hlen : (([(5, .string (List.replicate 10485760 0))] : List (UInt16 × TioData)).flatMap Pr1.encodeField).length =
      10485768 := by
    rw [List.flatMap_cons, List.flatMap_nil, List.append_nil, Pr1.length_encodeField]
    simp only [Pr1.raw, List.length_replicate]
  obtain ⟨m, hadd, hm, -⟩ := Pr1.Side.server.addAll_holding [(5, .string (List.replicate 10485760 0))] hm₀ (by
    rw [Pr1.encodedSize, hlen]
    decide)
  refine ⟨m, by rw [create, hnew, Option.bind_some, hadd], fun n => ?_⟩
  have hbig : TooBig m := ⟨_, hm, by rw [List.nil_append, hlen]; decide, by rw [List.nil_append, hlen]; decide⟩
  obtain ⟨m', hm', hs⟩ := hbig.sendPendingBinaryData (s := init.pushBack m) rfl rfl rfl
  obtain ⟨s, hr, hne, hwrites⟩ := hm'.completions (n := n) (s := { init.pushBack m with
    binarySendInProgress := true
    pendingBinarySendData := [m']
    debugSeqNum := 1
    writes := [[]] }) rfl rfl rfl
  exact ⟨s, run_cons.mpr ⟨_, hs, hr⟩, hne, hwrites⟩

end Sender

end Tiodb
