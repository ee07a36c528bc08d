import Tiodb.Protocol.Message

/-!
# Messages over a socket

`socket_send` and `socket_receive` of `tioclient.c`, without a timeout, and the
functions that send and receive a message with them. A `send` may take, and a `recv`
may give, any number of bytes from one up to what is asked for. `socket_receive` asks
again for what is missing; `socket_send` does not.
-/

namespace Tiodb.Pr1

open Lib

def tioErrorNetwork : Int32 := -2

/-! ## Receiving -/

/-- The bytes that come on a socket, and how often there was a `recv`. -/
structure Incoming where
  stream : Bytes
  calls : Nat
  deriving DecidableEq, Repr

section Receive

/- How many bytes each `recv` is ready to give. -/
variable (chunks : Nat → Nat)

/-- `none` is a `recv` that waits for ever. -/
def recv (s : Incoming) (len : Int32) : Option (Bytes × Incoming) :=
  if s.stream = [] then none
  else
    let n := min len.toNatClampNeg (max 1 (chunks s.calls))
    some (s.stream.take n, ⟨s.stream.drop n, s.calls + 1⟩)

/-- The loop of `socket_receive`, with a bound on its turns. -/
def socketReceiveLoop (len : Int32) : Nat → Int32 → Bytes → Incoming → Option (Int32 × Bytes × Incoming)
  | 0, _, _, _ => none
  | turns + 1, received, buffer, s =>
    if received < len then
      match recv chunks s (len - received) with
      | none => none
      | some (b, s) =>
        let ret := Int32.ofNat b.length
        if ret ≤ 0 then some (tioErrorNetwork, buffer, s)
        else socketReceiveLoop len turns (received + ret) (buffer ++ b) s
    else some (received, buffer, s)

/-- Each turn receives a byte at least. -/
def socketReceive (s : Incoming) (len : Int32) : Option (Int32 × Bytes × Incoming) :=
  socketReceiveLoop chunks len (len.toNatClampNeg + 1) 0 [] s

/-- What `pr1_message_receive` returns, with the message and its field array. -/
structure Delivered where
  result : Int32
  message : Received
  fields : List Nat

/-- The end of `pr1_message_receive`, once the payload is in the buffer. -/
def parseReceived (m : Message) (result : Int32) : Option Delivered :=
  m.received.bind fun r => (parse r).map fun fields => ⟨result, r, fields⟩

/-- `pr1_message_receive` without timeouts. `none` is a wait for ever, or a write that leaves the allocation. -/
def messageReceive (s : Incoming) : Option (Except Int32 Delivered × Incoming) :=
  (socketReceive chunks s 8).bind fun (result, header, s) =>
    if result < 0 then some (.error result, s)
    else if result < 8 then some (.error tioErrorNetwork, s)
    else
      (Header.decode header).bind fun header =>
        (Message.newGetBufferForReceive header).bind fun (pointer, m) =>
          (socketReceive chunks s header.messageSize.toInt32).bind fun (result, payload, s) =>
            (m.streamBuffer.put pointer payload).bind fun sb =>
              if result.toUInt32 < header.messageSize then some (.error tioErrorNetwork, s)
              else if result < 0 then some (.error result, s)
              else (parseReceived { m with streamBuffer := sb } result).map fun d => (.ok d, s)

/-- What so many calls return, each with the bytes it leaves on the socket. -/
def receiveAll : Nat → Incoming → Option (List (Except Int32 Delivered × Bytes))
  | 0, _ => some []
  | calls + 1, s =>
    (messageReceive chunks s).bind fun (r, s) => (receiveAll calls s).map fun rest => (r, s.stream) :: rest

end Receive

/-! ## Segments -/

variable (chunks : Nat → Nat)

theorem recv_cases (s : Incoming) {len : Int32} (hlen : 0 < len.toInt) (hs : s.stream ≠ []) :
    ∃ n, 0 < n ∧ n ≤ len.toNatClampNeg ∧
      recv chunks s len = some (s.stream.take n, ⟨s.stream.drop n, s.calls + 1⟩) := by
  refine ⟨_, ?_, Nat.min_le_left _ _, if_neg hs⟩
  have hpos : 0 < len.toNatClampNeg := by
    rw [Int32.toNatClampNeg]
    omega
  exact lt_min hpos (lt_max_of_lt_left Nat.one_pos)

/-- However the bytes come, the loop ends with all that it asked for, and leaves the rest. -/
theorem socketReceiveLoop_spec {len : Int32} {turns : Nat} (received : Int32) (hlow : 0 ≤ received.toInt)
    (missing : Bytes) (hmissing : received.toInt + missing.length = len.toInt) (hturns : missing.length < turns)
    (buffer rest : Bytes) (calls : Nat) :
    ∃ calls', socketReceiveLoop chunks len turns received buffer ⟨missing ++ rest, calls⟩ =
      some (len, buffer ++ missing, ⟨rest, calls'⟩) := by
  induction turns generalizing received missing buffer calls with
  | zero => omega
  | succ turns ih =>
    have hlen := len.toInt_lt
    rw [socketReceiveLoop]
    by_cases hnil : missing = []
    · subst hnil
      have heq : received = len := Int32.toInt_inj.mp (by simpa using hmissing)
      rw [if_neg (by rw [heq, Int32.lt_iff_toInt_lt]; omega), heq]
      exact ⟨calls, by simp⟩
    have hpos : 0 < missing.length := List.length_pos_of_ne_nil hnil
    have hle : received ≤ len := Int32.le_iff_toInt_le.mpr (by omega)
    have hsub : (len - received).toInt = missing.length := by
      rw [Int32.toInt_sub_of_le _ _ (Int32.le_iff_toInt_le.mpr (by simpa using hlow)) hle]
      omega
    have hclamp : (len - received).toNatClampNeg = missing.length := by
      rw [Int32.toNatClampNeg, hsub, Int.toNat_natCast]
    obtain ⟨n, hn, hnle, hrecv⟩ := recv_cases chunks ⟨missing ++ rest, calls⟩
      (show 0 < (len - received).toInt by omega) (by simp [hnil])
    rw [hclamp] at hnle
    have hgot : (missing ++ rest).take n = missing.take n := List.take_append_of_le_length hnle
    have hleft : (missing ++ rest).drop n = missing.drop n ++ rest := List.drop_append_of_le_length hnle
    have hret : (Int32.ofNat (missing.take n).length).toInt = n := by
      rw [List.length_take, min_eq_left hnle]
      exact Int32.toInt_ofNat_of_lt (by omega)
    have hnext : (received + Int32.ofNat (missing.take n).length).toInt = received.toInt + n := by
      rw [Int32.toInt_add, hret, Int.bmod_eq_of_le] <;> omega
    rw [if_pos (Int32.lt_iff_toInt_lt.mpr (by omega)), hrecv]
    simp only [hgot, hleft]
    rw [if_neg (by rw [Int32.le_iff_toInt_le, hret]; simp; omega)]
    obtain ⟨calls', hih⟩ := ih (received + Int32.ofNat (missing.take n).length) (by omega)
      (missing.drop n) (by rw [List.length_drop]; omega) (by rw [List.length_drop]; omega)
      (buffer ++ missing.take n) (calls + 1)
    exact ⟨calls', by rw [hih, List.append_assoc, List.take_append_drop]⟩

theorem socketReceive_spec {len : Int32} {b : Bytes} (hb : len.toInt = b.length) (rest : Bytes) (calls : Nat) :
    ∃ calls', socketReceive chunks ⟨b ++ rest, calls⟩ len = some (len, b, ⟨rest, calls'⟩) := by
  have hturns : len.toNatClampNeg = b.length := by rw [Int32.toNatClampNeg, hb, Int.toNat_natCast]
  exact socketReceiveLoop_spec chunks 0 (by decide) b (by simpa using hb.symm) (by omega) [] rest calls

/-! ## Messages -/

/-- As many fields as the header says, as `pr1_message_add_field` writes them, and nothing else. -/
def Received.WellFormed (r : Received) : Prop :=
  ∃ fields : List (UInt16 × UInt16 × Bytes), fields.length = r.header.fieldCount.toNat ∧
    r.payload = fields.flatMap fun f => addField f.1 f.2.1 f.2.2

def Received.bytes (r : Received) : Bytes := r.header.encode ++ r.payload

theorem parseFrom_addFields (before : Bytes) (fields : List (UInt16 × UInt16 × Bytes))
    (hsize : (fields.flatMap fun f => addField f.1 f.2.1 f.2.2).length < 2 ^ 32) :
    ∃ offsets, parseFrom (before ++ fields.flatMap fun f => addField f.1 f.2.1 f.2.2) fields.length before.length =
      some offsets := by
  induction fields generalizing before with
  | nil => exact ⟨[], rfl⟩
  | cons f fields ih =>
    have hf := FieldHeader.length_encode ⟨f.1, f.2.1, UInt32.ofNat f.2.2.length⟩
    have hadd : (addField f.1 f.2.1 f.2.2).length = f.2.2.length + 8 := by
      rw [addField, List.length_append, hf, Nat.add_comm]
    rw [List.flatMap_cons, List.length_append, hadd] at hsize
    have hlen : (UInt32.ofNat f.2.2.length).toNat = f.2.2.length := UInt32.toNat_ofNat_of_lt' (show _ < 2 ^ 32 by omega)
    have hat : fieldAt (before ++ (f :: fields).flatMap fun f => addField f.1 f.2.1 f.2.2) before.length =
        some ⟨f.1, f.2.1, UInt32.ofNat f.2.2.length⟩ := by
      rw [fieldAt, List.drop_left, List.flatMap_cons, addField, List.append_assoc, FieldHeader.decode_encode]
    obtain ⟨offsets, hrest⟩ := ih (before ++ addField f.1 f.2.1 f.2.2) (by omega)
    rw [List.length_append, hadd, List.append_assoc] at hrest
    refine ⟨before.length :: offsets, ?_⟩
    rw [List.length_cons, parseFrom, hat, Option.bind_some, List.flatMap_cons]
    dsimp only
    rw [hlen, hrest, Option.map_some]

theorem Received.WellFormed.parses {r : Received} (h : r.WellFormed) : ∃ fields, parse r = some fields := by
  obtain ⟨fields, hcount, hpayload⟩ := h
  have hsize := r.header.messageSize.toNat_lt
  rw [← r.complete, hpayload] at hsize
  obtain ⟨offsets, hparse⟩ := parseFrom_addFields [] fields hsize
  exact ⟨offsets, by rw [parse, hpayload, ← hcount]; exact hparse⟩

theorem buffer_spec (r : Received) (hsize : r.payload.length < 2 ^ 30) :
    ∃ pointer m sb, Message.newGetBufferForReceive r.header = some (pointer, m) ∧
      m.streamBuffer.put pointer r.payload = some sb ∧ Message.received { m with streamBuffer := sb } = some r := by
  have hreceive := receive_encode r.header r.complete (by omega)
  have hdrop : (r.header.encode ++ r.payload).drop 8 = r.payload := by rw [← r.header.length_encode, List.drop_left]
  rw [receive, Header.decode_encode, Option.bind_some, hdrop] at hreceive
  obtain ⟨⟨pointer, m⟩, hnew, hput⟩ := Option.bind_eq_some_iff.mp hreceive
  obtain ⟨sb, hput, hr⟩ := Option.bind_eq_some_iff.mp hput
  exact ⟨pointer, m, sb, hnew, hput, hr⟩

theorem messageReceive_spec (r : Received) {fields : List Nat} (hsize : r.payload.length < 2 ^ 30)
    (hparse : parse r = some fields) (rest : Bytes) (calls : Nat) :
    ∃ calls', messageReceive chunks ⟨r.bytes ++ rest, calls⟩ =
      some (.ok ⟨Int32.ofNat r.payload.length, r, fields⟩, ⟨rest, calls'⟩) := by
  have hcomplete := r.complete
  have hheader : (8 : Int32).toInt = r.header.encode.length := by
    rw [r.header.length_encode]
    rfl
  obtain ⟨calls₁, hreceive₁⟩ := socketReceive_spec chunks hheader (r.payload ++ rest) calls
  have hlen : r.header.messageSize.toInt32 = Int32.ofNat r.payload.length := by
    rw [hcomplete, ← UInt32.toInt32_ofNat', UInt32.ofNat_toNat]
  have htoInt : (Int32.ofNat r.payload.length).toInt = r.payload.length := Int32.toInt_ofNat_of_lt (by omega)
  obtain ⟨calls₂, hreceive₂⟩ := socketReceive_spec chunks htoInt rest calls₁
  obtain ⟨pointer, m, sb, hnew, hput, hm⟩ := buffer_spec r hsize
  have hunsigned : ¬(Int32.ofNat r.payload.length).toUInt32 < r.header.messageSize := by
    rw [← hlen, UInt32.toUInt32_toInt32]
    exact UInt32.lt_irrefl _
  have hsigned : ¬Int32.ofNat r.payload.length < 0 := by
    rw [Int32.lt_iff_toInt_lt, htoInt]
    simp
  have hdecode : Header.decode r.header.encode = some r.header := by
    simpa using Header.decode_encode r.header []
  refine ⟨calls₂, ?_⟩
  rw [messageReceive, Received.bytes, List.append_assoc, hreceive₁, Option.bind_some]
  simp only []
  rw [if_neg (by decide), if_neg (by decide), hdecode, Option.bind_some, hnew, Option.bind_some]
  simp only []
  rw [hlen, hreceive₂, Option.bind_some]
  simp only []
  rw [hput, Option.bind_some, if_neg hunsigned, if_neg hsigned, parseReceived, hm, Option.bind_some, hparse]
  rfl

/-- The messages of a stream come whole and in order, each call leaving the bytes of those behind its own. -/
theorem receives_messages (messages : List Received)
    (hmessages : ∀ r ∈ messages, r.WellFormed ∧ r.payload.length < 2 ^ 30) (rest : Bytes) (calls : Nat) :
    ∃ ds, receiveAll chunks messages.length ⟨messages.flatMap Received.bytes ++ rest, calls⟩ = some ds ∧
      ds.length = messages.length ∧
      ∀ (i : Nat) r, messages[i]? = some r → ∃ fields, parse r = some fields ∧
        ds[i]? = some (.ok ⟨Int32.ofNat r.payload.length, r, fields⟩,
          (messages.drop (i + 1)).flatMap Received.bytes ++ rest) := by
  induction messages generalizing calls with
  | nil => exact ⟨[], rfl, rfl, by simp⟩
  | cons r messages ih =>
    obtain ⟨hformed, hsize⟩ := hmessages r (by simp)
    obtain ⟨fields, hparse⟩ := hformed.parses
    obtain ⟨calls', hreceive⟩ :=
      messageReceive_spec chunks r hsize hparse (messages.flatMap Received.bytes ++ rest) calls
    obtain ⟨ds, hall, hlen, hds⟩ := ih (fun r' hr' => hmessages r' (by simp [hr'])) calls'
    refine ⟨(.ok ⟨Int32.ofNat r.payload.length, r, fields⟩, messages.flatMap Received.bytes ++ rest) :: ds, ?_,
      by simp [hlen], ?_⟩
    · rw [List.flatMap_cons, List.append_assoc, List.length_cons, receiveAll, hreceive, Option.bind_some]
      simp only [hall, Option.map_some]
    · intro i r' hr'
      cases i with
      | zero =>
        obtain rfl : r = r' := by simpa using hr'
        exact ⟨fields, hparse, rfl⟩
      | succ i => exact hds i r' hr'

theorem receives_messages_byte_by_byte :
    ∃ messages : List Received, messages.map Received.payload = [[], addField 3 2 [97, 98]] ∧
      ∃ ds, receiveAll (fun _ => 1) 2 ⟨messages.flatMap Received.bytes ++ [255], 0⟩ = some ds ∧
        (ds[1]?).map Prod.snd = some [255] := by
  let first : Received := ⟨⟨0, 0, 5⟩, [], rfl⟩
  let second : Received := ⟨⟨10, 1, 6⟩, addField 3 2 [97, 98], by decide⟩
  have hformed : ∀ r ∈ [first, second], r.WellFormed ∧ r.payload.length < 2 ^ 30 := by
    rintro r (_ | ⟨_, _ | ⟨_, ⟨⟩⟩⟩)
    · exact ⟨⟨[], rfl, rfl⟩, by decide⟩
    · exact ⟨⟨[(3, 2, [97, 98])], rfl, by decide⟩, by decide⟩
  obtain ⟨ds, hall, -, hds⟩ := receives_messages (fun _ => 1) [first, second] hformed [255] 0
  obtain ⟨fields, -, hget⟩ := hds 1 second rfl
  exact ⟨[first, second], rfl, ds, hall, by rw [hget]; rfl⟩

/-! ## Sending -/

/-- The bytes that the socket has accepted, and how often there was a `send`. -/
structure Outgoing where
  accepted : Bytes
  calls : Nat
  deriving DecidableEq, Repr

section Send

/- How many bytes each `send` has room for. -/
variable (room : Nat → Nat)

def send (s : Outgoing) (b : Bytes) : Nat × Outgoing :=
  let n := min b.length (max 1 (room s.calls))
  (n, ⟨s.accepted ++ b.take n, s.calls + 1⟩)

/-- The result of `send` is kept in an `int`. -/
def socketSend (s : Outgoing) (b : Bytes) : Int32 × Outgoing :=
  let (n, s) := send room s b
  let ret := Int32.ofNat n
  (if ret ≤ 0 then tioErrorNetwork else ret, s)

/-- `pr1_message_send`, with the message as it leaves it. -/
def messageSend (s : Outgoing) (m : Message) (debugSeqNum : UInt16) : Option (Int32 × Message × Outgoing) :=
  (m.getBuffer debugSeqNum).map fun (b, m) =>
    let (result, s) := socketSend room s b
    (result, m, s)

/-- `pr1_message_send_and_delete` -/
def messageSendAndDelete (s : Outgoing) (m : Message) (debugSeqNum : UInt16) : Option (Int32 × Outgoing) :=
  (messageSend room s m debugSeqNum).map fun (result, _, s) => (result, s)

/-- A call of one of the two. -/
structure SendCall where
  message : Message
  debugSeqNum : UInt16
  deletes : Bool

/-- The encoded message. -/
def SendCall.bytes (c : SendCall) : Option Bytes := (c.message.getBuffer c.debugSeqNum).map Prod.fst

def SendCall.exec (s : Outgoing) (c : SendCall) : Option (Int32 × Outgoing) :=
  if c.deletes then messageSendAndDelete room s c.message c.debugSeqNum
  else (messageSend room s c.message c.debugSeqNum).map fun (result, _, s) => (result, s)

/-- The results of the calls, and the socket after them. -/
def sendAll (s : Outgoing) : List SendCall → Option (List Int32 × Outgoing)
  | [] => some ([], s)
  | c :: calls => (SendCall.exec room s c).bind fun (result, s) =>
    (sendAll s calls).map fun (results, s) => (result :: results, s)

/-- Each `send` has room for the whole message. -/
def TakesWhole (s : Outgoing) (calls : List SendCall) : Prop :=
  ∀ (i : Nat) c b, calls[i]? = some c → c.bytes = some b → b.length ≤ max 1 (room (s.calls + i))

end Send

variable (room : Nat → Nat)

theorem exec_run {s : Outgoing} {c : SendCall} {b : Bytes} (h : c.bytes = some b) :
    ∃ result, SendCall.exec room s c = some (result, ⟨s.accepted ++ b.take (max 1 (room s.calls)), s.calls + 1⟩) := by
  obtain ⟨⟨b', m⟩, hget, rfl⟩ := Option.map_eq_some_iff.mp h
  have htake : b'.take (min b'.length (max 1 (room s.calls))) = b'.take (max 1 (room s.calls)) := by
    rw [Nat.min_comm, ← List.take_eq_take_min]
  have hsend : messageSend room s c.message c.debugSeqNum =
      some ((socketSend room s b').1, m, ⟨s.accepted ++ b'.take (max 1 (room s.calls)), s.calls + 1⟩) := by
    rw [messageSend, hget, ← htake]
    rfl
  refine ⟨(socketSend room s b').1, ?_⟩
  unfold SendCall.exec messageSendAndDelete
  rw [hsend]
  cases c.deletes <;> rfl

theorem exec_some {s : Outgoing} {c : SendCall} {r : Int32 × Outgoing} (h : SendCall.exec room s c = some r) :
    ∃ b, c.bytes = some b := by
  cases hb : c.bytes with
  | some b => exact ⟨b, rfl⟩
  | none =>
    have hget : c.message.getBuffer c.debugSeqNum = none := Option.map_eq_none_iff.mp hb
    unfold SendCall.exec messageSendAndDelete messageSend at h
    rw [hget] at h
    cases hd : c.deletes <;> simp [hd] at h

theorem takesWhole_cons {s : Outgoing} {c : SendCall} {calls : List SendCall} {b : Bytes} (hb : c.bytes = some b)
    (accepted : Bytes) :
    TakesWhole room s (c :: calls) ↔
      b.length ≤ max 1 (room s.calls) ∧ TakesWhole room ⟨accepted, s.calls + 1⟩ calls := by
  constructor
  · intro h
    refine ⟨by simpa using h 0 c b rfl hb, fun i c' b' hc' hb' => ?_⟩
    have hnext := h (i + 1) c' b' hc' hb'
    rwa [Nat.add_comm i, ← Nat.add_assoc] at hnext
  · rintro ⟨hfirst, hrest⟩ i c' b' hc' hb'
    cases i with
    | zero =>
      obtain rfl : c = c' := by simpa using hc'
      obtain rfl : b = b' := Option.some.inj (hb.symm.trans hb')
      simpa using hfirst
    | succ i =>
      have hnext := hrest i c' b' hc' hb'
      rwa [Nat.add_assoc, Nat.add_comm 1] at hnext

theorem sendAll_spec {s s' : Outgoing} {calls : List SendCall} {results : List Int32}
    (h : sendAll room s calls = some (results, s')) :
    ∃ b, s'.accepted = s.accepted ++ b ∧ b.length ≤ (calls.flatMap fun c => c.bytes.getD []).length ∧
      (b = (calls.flatMap fun c => c.bytes.getD []) ↔ TakesWhole room s calls) := by
  induction calls generalizing s results with
  | nil =>
    obtain ⟨-, rfl⟩ := Prod.mk.inj (Option.some.inj h)
    refine ⟨[], by simp, by simp, iff_of_true rfl fun i c b hc => by simp at hc⟩
  | cons c calls ih =>
    obtain ⟨⟨result, s₁⟩, hexec, hrest⟩ := Option.bind_eq_some_iff.mp h
    obtain ⟨⟨rs, s₂⟩, hall, heq⟩ := Option.map_eq_some_iff.mp hrest
    obtain ⟨-, rfl⟩ := Prod.mk.inj heq
    obtain ⟨b, hb⟩ := exec_some room hexec
    obtain ⟨result', hrun⟩ := exec_run room (s := s) hb
    obtain ⟨-, rfl⟩ := Prod.mk.inj (Option.some.inj (hexec.symm.trans hrun))
    obtain ⟨rest, haccepted, hle, hiff⟩ := ih hall
    have htake : (b.take (max 1 (room s.calls))).length ≤ b.length := by simp
    refine ⟨b.take (max 1 (room s.calls)) ++ rest, by rw [haccepted, List.append_assoc], ?_, ?_⟩
    · rw [List.flatMap_cons, hb, Option.getD_some, List.length_append, List.length_append]
      omega
    rw [takesWhole_cons room hb (s.accepted ++ b.take (max 1 (room s.calls))), ← hiff, List.flatMap_cons, hb,
      Option.getD_some]
    constructor
    · intro hwhole
      -- neither part is longer than what it is a part of
      have hlen := congrArg List.length hwhole
      rw [List.length_append, List.length_append] at hlen
      have hfirst : (b.take (max 1 (room s.calls))).length = b.length := by omega
      rw [List.length_take] at hfirst
      refine ⟨by omega, ?_⟩
      rw [List.take_of_length_le (by omega)] at hwhole
      exact List.append_cancel_left hwhole
    · rintro ⟨hfirst, hrest⟩
      rw [List.take_of_length_le hfirst, hrest]

/-- Calls that all report success have sent the encoded messages exactly if each `send` took its whole message. -/
theorem sends_messages_iff {s s' : Outgoing} {calls : List SendCall} {results : List Int32}
    (h : sendAll room s calls = some (results, s')) :
    ((∀ r ∈ results, 0 ≤ r) → s'.accepted = s.accepted ++ calls.flatMap fun c => c.bytes.getD []) ↔
      ((∀ r ∈ results, 0 ≤ r) → TakesWhole room s calls) := by
  obtain ⟨b, haccepted, -, hiff⟩ := sendAll_spec room h
  rw [haccepted, List.append_cancel_left_eq, hiff]

theorem sends_messages_two_calls :
    ∃ m m' s', Message.new = some m ∧ (Message.new.bind fun m => Side.client.addAll m [(1, .int 5)]) = some m' ∧
      sendAll (fun _ => 20) ⟨[], 0⟩ [⟨m, 7, true⟩, ⟨m', 8, false⟩] = some ([8, 20], s') ∧
      s'.accepted = [] ++ [(⟨m, 7, true⟩ : SendCall), ⟨m', 8, false⟩].flatMap fun c => c.bytes.getD [] := by
  have hsend : (Message.new.bind fun m => (Message.new.bind fun m => Side.client.addAll m [(1, .int 5)]).bind fun m' =>
      (sendAll (fun _ => 20) ⟨[], 0⟩ [⟨m, 7, true⟩, ⟨m', 8, false⟩]).map fun r => (r.1,
        (SendCall.bytes ⟨m, 7, true⟩).map List.length, (SendCall.bytes ⟨m', 8, false⟩).map List.length)) =
      some ([8, 20], some 8, some 20) := by decide +kernel
  obtain ⟨m, hm, hsend⟩ := Option.bind_eq_some_iff.mp hsend
  obtain ⟨m', hm', hsend⟩ := Option.bind_eq_some_iff.mp hsend
  obtain ⟨⟨results, s'⟩, hall, hview⟩ := Option.map_eq_some_iff.mp hsend
  obtain ⟨rfl, hlen, hlen'⟩ := by simpa only [Prod.mk.injEq] using hview
  refine ⟨m, m', s', hm, hm', hall, (sends_messages_iff (fun _ => 20) hall).mpr (fun _ i c b hc hb => ?_) (by simp)⟩
  rcases i with _ | _ | i
  · obtain rfl := Option.some.inj hc
    rw [hb] at hlen
    exact (Option.some.inj hlen).trans_le (by decide)
  · obtain rfl := Option.some.inj hc
    rw [hb] at hlen'
    exact (Option.some.inj hlen').trans_le (by decide)
  · cases hc

/-- The socket takes five bytes of the eight, and the call reports success. -/
theorem short_write_is_success :
    (Message.new.bind fun m => sendAll (fun _ => 5) ⟨[], 0⟩ [⟨m, 7, false⟩]) =
        some ([5], ⟨[0, 0, 0, 0, 0], 1⟩) ∧
      (Message.new.bind fun m => SendCall.bytes ⟨m, 7, false⟩) = some [0, 0, 0, 0, 0, 0, 7, 0] := by
  decide +kernel

end Tiodb.Pr1
