import Tiodb.Server.Sending

/-!
# The size of what is pending

`pendingSendSize_` of a binary session: `SendBinaryMessage` and `SendBinaryMessages` add
what `pr1_message_get_data_size` says of a message, and `OnBinaryMessageSent` takes away
the bytes that went out. Both measure the same bytes of the message.
-/

namespace Tiodb

open Lib

/-! ## Messages of any size -/

namespace StreamBuffer

variable {sb sb' : StreamBuffer}

theorem ensureSpaceLeft_length {size : UInt32} (h : sb.ensureSpaceLeft size = some sb')
    (hlt : sb.buffer.length < 2 ^ 32) :
    sb'.current = sb.current ∧ sb.buffer.length ≤ sb'.buffer.length ∧ sb'.buffer.length < 2 ^ 32 := by
  have hsize : sb.bufferSize.toNat = sb.buffer.length := UInt32.toNat_ofNat_of_lt' hlt
  unfold ensureSpaceLeft at h
  by_cases hle : size ≤ sb.bufferSize - sb.spaceUsed
  · rw [if_pos hle] at h
    obtain rfl := Option.some.inj h
    exact ⟨rfl, le_rfl, hlt⟩
  · simp only [if_neg hle] at h
    split_ifs at h with hsmall
    obtain rfl := Option.some.inj h
    have hnew := (sb.bufferSize + size * 2).toNat_lt
    have hge : sb.bufferSize ≤ sb.bufferSize + size * 2 := UInt32.not_lt.mp hsmall
    have hsub := UInt32.toNat_sub_of_le _ _ hge
    have hge' := UInt32.le_iff_toNat_le.mp hge
    refine ⟨rfl, ?_, ?_⟩
    · simp
    · rw [List.length_append, List.length_replicate, hsub]
      omega

theorem length_of_put {offset : Nat} {b : Bytes} (h : sb.put offset b = some sb') :
    offset + b.length ≤ sb.buffer.length ∧ sb'.buffer.length = sb.buffer.length ∧ sb'.current = sb.current := by
  unfold put at h
  split_ifs at h with hle
  obtain rfl := Option.some.inj h
  refine ⟨hle, ?_, rfl⟩
  simp
  omega

end StreamBuffer

namespace Pr1.Message

/-- The header and the fields are in the allocation, whose size is an `unsigned int`. -/
structure Sized (m : Message) : Prop where
  header : 8 ≤ m.streamBuffer.current
  fits : m.streamBuffer.current ≤ m.streamBuffer.buffer.length
  size : m.streamBuffer.buffer.length < 2 ^ 32

variable {m m' : Message}

/-- As many bytes as the message has on the wire. -/
def encodedSize (m : Message) : Nat := ((m.getBuffer 0).map fun r => r.1.length).getD 0

theorem Sized.spaceUsed (h : m.Sized) : m.streamBuffer.spaceUsed.toNat = m.streamBuffer.current :=
  UInt32.toNat_ofNat_of_lt' (h.fits.trans_lt h.size)

theorem Sized.getBuffer (h : m.Sized) (debugSeqNum : UInt16) :
    ∃ b m', m.getBuffer debugSeqNum = some (b, m') ∧ b.length = m.streamBuffer.current ∧ m'.Sized ∧
      m'.streamBuffer.current = m.streamBuffer.current := by
  have hheader := Header.length_encode ⟨m.streamBuffer.spaceUsed - 8, m.fieldCount, debugSeqNum⟩
  obtain ⟨buffer, hput, hlen⟩ := StreamBuffer.put_length m.streamBuffer 0
    (Header.encode ⟨m.streamBuffer.spaceUsed - 8, m.fieldCount, debugSeqNum⟩)
    (by rw [hheader]; exact (Nat.zero_add 8).trans_le (h.header.trans h.fits))
  have hused : (StreamBuffer.mk buffer m.streamBuffer.current).spaceUsed.toNat = m.streamBuffer.current := h.spaceUsed
  refine ⟨buffer.take (StreamBuffer.mk buffer m.streamBuffer.current).spaceUsed.toNat,
    ⟨⟨buffer, m.streamBuffer.current⟩, m.fieldCount⟩, ?_, ?_,
    ⟨h.header, h.fits.trans_eq hlen.symm, hlen.trans_lt h.size⟩, rfl⟩
  · rw [Message.getBuffer, fillHeaderInfo, hput]
    rfl
  · rw [hused, List.length_take, hlen]
    exact Nat.min_eq_left h.fits

theorem Sized.encodedSize (h : m.Sized) : m.encodedSize = m.streamBuffer.current := by
  obtain ⟨b, m', hget, hlen, -⟩ := h.getBuffer 0
  rw [Message.encodedSize, hget, Option.map_some, Option.getD_some, hlen]

theorem addField_sized {fieldId dataType : UInt16} {b : Bytes} (h : m.Sized)
    (hm : m.addField fieldId dataType b = some m') : m'.Sized := by
  unfold addField at hm
  obtain ⟨r, hr, hm⟩ := Option.bind_eq_some_iff.mp hm
  obtain ⟨sb, hsb, rfl⟩ := Option.map_eq_some_iff.mp hr
  obtain ⟨sb₁, hput, hm⟩ := Option.bind_eq_some_iff.mp hm
  obtain ⟨sb₂, hwrite, rfl⟩ := Option.map_eq_some_iff.mp hm
  obtain ⟨sb₃, hens, hwrite⟩ := Option.bind_eq_some_iff.mp hwrite
  obtain ⟨sb₄, hput', rfl⟩ := Option.map_eq_some_iff.mp hwrite
  obtain ⟨hcur, hle, hlt⟩ := StreamBuffer.ensureSpaceLeft_length hsb h.size
  obtain ⟨hroom, hlen₁, hcur₁⟩ := StreamBuffer.length_of_put hput
  rw [← hlen₁] at hlt
  obtain ⟨hcur₃, hle₃, hlt₃⟩ := StreamBuffer.ensureSpaceLeft_length hens hlt
  obtain ⟨hroom', hlen₄, hcur₄⟩ := StreamBuffer.length_of_put hput'
  have hheader := h.header
  refine ⟨?_, ?_, ?_⟩
  · dsimp only at hcur₁ ⊢
    omega
  · dsimp only at hroom' ⊢
    omega
  · exact hlen₄.trans_lt hlt₃

theorem addAll_sized {fields : List (UInt16 × TioData)} (h : m.Sized)
    (hm : Side.server.addAll m fields = some m') : m'.Sized := by
  induction fields generalizing m with
  | nil => exact Option.some.inj hm ▸ h
  | cons f fields ih =>
    rw [Side.addAll, List.foldlM_cons] at hm
    obtain ⟨m₁, hm₁, hm⟩ := Option.bind_eq_some_iff.mp hm
    refine ih ?_ hm
    unfold Side.addData pr1MessageAddField at hm₁
    cases hdata : f.2 <;> exact addField_sized h (by simpa only [hdata] using hm₁)

theorem new_sized (h : new = some m) : m.Sized := by
  obtain ⟨m₀, hnew, hm₀, -, hlen⟩ := new_holding
  obtain rfl : m₀ = m := Option.some.inj (hnew.symm.trans h)
  exact ⟨by simp [hm₀.current], hm₀.tight.fits, by rw [hlen]; decide⟩

end Pr1.Message

namespace Sender

theorem create_sized {fields : List (UInt16 × TioData)} {m : Pr1.Message} (h : create fields = some m) : m.Sized := by
  obtain ⟨m₀, hnew, hadd⟩ := Option.bind_eq_some_iff.mp h
  exact Pr1.Message.addAll_sized (Pr1.Message.new_sized hnew) hadd

/-! ## What is outstanding -/

def sizes (messages : List Pr1.Message) : Nat := (messages.map Pr1.Message.encodedSize).sum

/-- The buffer of the write in flight. -/
def inFlight (s : Sender) : Bytes := if s.binarySendInProgress then s.writes.getLast?.getD [] else []

def outstanding (s : Sender) : Nat := sizes s.pendingBinarySendData + s.inFlight.length

/-- The messages are built by the server, and with them less than 2^31 bytes are outstanding. -/
def Outstanding (s : Sender) (a : Action) : Prop :=
  (∀ message ∈ a.messages, ∃ fields, create fields = some message) ∧ s.outstanding + sizes a.messages < 2 ^ 31

theorem sizes_cons (m : Pr1.Message) (ms : List Pr1.Message) : sizes (m :: ms) = m.encodedSize + sizes ms := rfl

theorem sizes_append (ms ms' : List Pr1.Message) : sizes (ms ++ ms') = sizes ms + sizes ms' := by
  rw [sizes, List.map_append, List.sum_append]
  rfl

theorem fillBuffer_sizes {pending : List Pr1.Message} (h : ∀ m ∈ pending, m.Sized) (hsum : sizes pending < 2 ^ 31)
    (used : Bytes) (hused : used.length ≤ sendBufferSize.toNat) (debugSeqNum : UInt16) :
    ∃ b debugSeqNum' pending', fillBuffer used debugSeqNum pending = some (used ++ b, debugSeqNum', pending') ∧
      b.length + sizes pending' = sizes pending ∧ ∀ m ∈ pending', m.Sized := by
  induction pending generalizing used debugSeqNum with
  | nil => exact ⟨[], debugSeqNum, [], by rw [fillBuffer, List.append_nil], rfl, h⟩
  | cons item rest ih =>
    have hitem := h item (by simp)
    have hrest : ∀ m ∈ rest, m.Sized := fun m hm => h m (by simp [hm])
    have hsize := hitem.encodedSize
    obtain ⟨b, item', hget, hlen, hitem', hcur⟩ := hitem.getBuffer (debugSeqNum + 1)
    rw [sizes_cons] at hsum
    have hlt : sendBufferSize.toNat < 2 ^ 30 := by decide
    have hadd : (UInt32.ofNat used.length + item.streamBuffer.spaceUsed).toNat = used.length + b.length := by
      rw [UInt32.toNat_add, UInt32.toNat_ofNat_of_lt' (show _ < 2 ^ 32 by omega), hitem.spaceUsed, hlen]
      exact Nat.mod_eq_of_lt (by omega)
    rw [fillBuffer, hget, Option.bind_some]
    dsimp only
    by_cases hfull : sendBufferSize < UInt32.ofNat used.length + item.streamBuffer.spaceUsed
    · -- the message that has no room was sealed, which leaves its size
      rw [if_pos hfull]
      refine ⟨[], debugSeqNum + 1, item' :: rest, by rw [List.append_nil], ?_, ?_⟩
      · rw [sizes_cons, sizes_cons, hitem'.encodedSize, hsize, hcur, List.length_nil, Nat.zero_add]
      · simpa using ⟨hitem', hrest⟩
    · rw [if_neg hfull]
      rw [UInt32.lt_iff_toNat_lt, hadd] at hfull
      rw [if_neg hfull]
      obtain ⟨b', seq, pending', hfill, hsizes, hpending'⟩ :=
        ih hrest (by omega) (used ++ b) (by rw [List.length_append]; omega) (debugSeqNum + 1)
      refine ⟨b ++ b', seq, pending', by rw [hfill, List.append_assoc], ?_, hpending'⟩
      rw [List.length_append, sizes_cons, hsize, ← hlen, ← hsizes]
      omega

/-! ## Runs -/

/-- The counter is the size of what is outstanding, and a write in flight leaves something outstanding. -/
structure Balanced (s : Sender) : Prop where
  valid : s.valid = true
  sized : ∀ m ∈ s.pendingBinarySendData, m.Sized
  size : s.pendingSendSize = Int32.ofNat s.outstanding
  small : s.outstanding < 2 ^ 31
  busy : s.binarySendInProgress = true → 0 < s.outstanding

/-- Between two actions a message waits only for a write in flight. -/
structure Settled (s : Sender) : Prop extends Balanced s where
  waiting : s.binarySendInProgress = false → s.pendingBinarySendData = []

theorem init_settled : Settled init :=
  ⟨⟨rfl, by simp [init], rfl, by decide, by simp [init]⟩, fun _ => rfl⟩

theorem Balanced.sendPendingBinaryData {s : Sender} (h : Balanced s) :
    ∃ s', s.sendPendingBinaryData = some s' ∧ Settled s' := by
  unfold Sender.sendPendingBinaryData
  by_cases hp : s.binarySendInProgress = true
  · rw [if_pos hp]
    exact ⟨s, rfl, h, fun h' => by simp [hp] at h'⟩
  have hnone : s.inFlight = [] := if_neg hp
  have hsize : s.outstanding = sizes s.pendingBinarySendData := by
    rw [outstanding, hnone, List.length_nil, Nat.add_zero]
  rw [if_neg hp, if_neg (by simp [h.valid])]
  by_cases hempty : s.pendingBinarySendData = []
  · rw [if_pos hempty]
    exact ⟨s, rfl, h, fun _ => hempty⟩
  rw [if_neg hempty]
  obtain ⟨b, seq, pending', hfill, hsizes, hpending'⟩ :=
    fillBuffer_sizes h.sized (hsize ▸ h.small) [] (Nat.zero_le _) s.debugSeqNum
  have hpos : 0 < s.outstanding := by
    obtain ⟨m, rest, hm⟩ := List.exists_cons_of_ne_nil hempty
    have hm' := h.sized m (by simp [hm])
    have hheader := hm'.header
    rw [hsize, hm, sizes_cons, hm'.encodedSize]
    omega
  rw [hfill, Option.map_some, List.nil_append]
  -- what leaves the queue is in the buffer that is in flight now
  have hout : outstanding { s with
      binarySendInProgress := true, pendingBinarySendData := pending', debugSeqNum := seq,
      writes := s.writes ++ [b] } = s.outstanding := by
    rw [hsize, ← hsizes]
    simp [outstanding, inFlight]
    omega
  exact ⟨_, rfl, ⟨⟨h.valid, hpending', h.size.trans (congrArg Int32.ofNat hout.symm), hout.trans_lt h.small,
    fun _ => hpos.trans_eq hout.symm⟩, nofun⟩⟩

theorem Balanced.pushBack {s : Sender} (h : Balanced s) {m : Pr1.Message} (hm : m.Sized)
    (hsmall : s.outstanding + m.encodedSize < 2 ^ 31) :
    Balanced (s.pushBack m) ∧ (s.pushBack m).outstanding = s.outstanding + m.encodedSize := by
  have hout : (s.pushBack m).outstanding = s.outstanding + m.encodedSize := by
    have hflight : (s.pushBack m).inFlight = s.inFlight := rfl
    have hqueue : sizes (s.pushBack m).pendingBinarySendData = sizes s.pendingBinarySendData + m.encodedSize := by
      rw [Sender.pushBack, sizes_append, sizes_cons]
      rfl
    rw [outstanding, hflight, hqueue, outstanding]
    omega
  refine ⟨⟨h.valid, ?_, ?_, hout ▸ hsmall, ?_⟩, hout⟩
  · intro m' hm'
    rcases List.mem_append.mp hm' with hm' | hm'
    · exact h.sized m' hm'
    · exact List.mem_singleton.mp hm' ▸ hm
  · rw [hout, Int32.ofNat_add, hm.encodedSize, ← h.size]
    rfl
  · rw [hout]
    exact fun hp => Nat.add_pos_left (h.busy hp) _

theorem Balanced.foldl_pushBack {messages : List Pr1.Message} {s : Sender} (h : Balanced s)
    (hm : ∀ m ∈ messages, m.Sized) (hsmall : s.outstanding + sizes messages < 2 ^ 31) :
    Balanced (messages.foldl Sender.pushBack s) := by
  induction messages generalizing s with
  | nil => exact h
  | cons m messages ih =>
    rw [sizes_cons] at hsmall
    obtain ⟨h', hout⟩ := h.pushBack (hm m (by simp)) (by omega)
    exact ih h' (fun m' hm' => hm m' (by simp [hm'])) (by omega)

theorem Balanced.sent {s : Sender} (h : Balanced s) (hp : s.binarySendInProgress = true) :
    s.pendingSendSize - Int32.ofNat (s.writes.getLast?.getD []).length =
      Int32.ofNat (sizes s.pendingBinarySendData) ∧ sizes s.pendingBinarySendData < 2 ^ 31 := by
  have hout : s.outstanding = sizes s.pendingBinarySendData + (s.writes.getLast?.getD []).length := by
    rw [outstanding, inFlight, if_pos hp]
  have hsmall := h.small
  constructor
  · rw [h.size, hout, Int32.ofNat_add, Int32.add_sub_cancel]
  · omega

/-- An action of messages that the server built, with which less than 2^31 bytes are outstanding, goes well. -/
theorem Settled.step {s : Sender} (h : Settled s) {a : Action} (ha : Outstanding s a)
    (hsent : a = .onBinaryMessageSent → s.binarySendInProgress = true) :
    ∃ s', Sender.step s a = some s' ∧ Settled s' := by
  obtain ⟨hbuilt, hsmall⟩ := ha
  have hsized : ∀ m ∈ a.messages, m.Sized := by
    intro m hm
    obtain ⟨fields, hcreate⟩ := hbuilt m hm
    exact create_sized hcreate
  cases a with
  | sendBinaryMessage m =>
    obtain ⟨hpush, -⟩ := h.pushBack (hsized m (by simp [Action.messages]))
      (by simpa [Action.messages, sizes] using hsmall)
    obtain ⟨s', hs, hs'⟩ := hpush.sendPendingBinaryData
    exact ⟨s', by simp [Sender.step, sendBinaryMessage, h.valid, hs], hs'⟩
  | sendBinaryMessages ms =>
    obtain ⟨s', hs, hs'⟩ := (h.foldl_pushBack hsized hsmall).sendPendingBinaryData
    rw [Action.messages] at hs
    exact ⟨s', by simp [Sender.step, sendBinaryMessages, h.valid, hs], hs'⟩
  | onBinaryMessageSent =>
    have hp := hsent rfl
    obtain ⟨hsize, hlt⟩ := h.sent hp
    have hbalanced : Balanced { s with
        pendingSendSize := s.pendingSendSize - Int32.ofNat (s.writes.getLast?.getD []).length
        binarySendInProgress := false
        completed := s.completed + 1 } :=
      ⟨h.valid, h.sized, hsize, hlt, by simp⟩
    obtain ⟨s', hs, hs'⟩ := hbalanced.sendPendingBinaryData
    exact ⟨s', (if_pos hp).trans hs, hs'⟩

theorem Settled.run {s s' : Sender} {as : List Action} (h : Settled s) (hm : Meets Sender.step Outstanding s as)
    (hr : Lib.run Sender.step s as = some s') : Settled s' := by
  refine run_keeps (fun s a s' hs ha hstep => ?_) h hm hr
  have hsent : a = .onBinaryMessageSent → s.binarySendInProgress = true := by
    rintro rfl
    by_contra hp
    simp [Sender.step, Sender.onBinaryMessageSent, hp] at hstep
  obtain ⟨t, ht, hs'⟩ := hs.step ha hsent
  obtain rfl : t = s' := Option.some.inj (ht.symm.trans hstep)
  exact hs'

/-- In every run, with less than 2^31 bytes outstanding, the counter is the size of the messages in the queue and of
the write in flight. So it is not negative, also when the bytes of that write were taken away, it is zero exactly
when nothing is pending, and no action goes wrong. -/
theorem size_is_outstanding {s : Sender} {as : List Action} (hm : Meets step Outstanding init as)
    (hr : run step init as = some s) :
    s.pendingSendSize.toInt = sizes s.pendingBinarySendData + s.inFlight.length ∧
      (s.pendingSendSize = 0 ↔ s.pendingBinarySendData = [] ∧ s.binarySendInProgress = false) ∧
      (s.binarySendInProgress = true → 0 ≤ (s.pendingSendSize - Int32.ofNat s.inFlight.length).toInt) ∧
      ∀ a, Outstanding s a → (a = .onBinaryMessageSent → s.binarySendInProgress = true) → ∃ s', step s a = some s' := by
  have h := init_settled.run hm hr
  have hsize : s.pendingSendSize.toInt = s.outstanding := by
    rw [h.size, Int32.toInt_ofNat_of_lt h.small]
  refine ⟨by rw [hsize, outstanding, Nat.cast_add], ⟨fun hzero => ?_, fun hnothing => ?_⟩, fun hp => ?_, ?_⟩
  · rw [hzero, Int32.toInt_zero] at hsize
    have hidle : s.binarySendInProgress = false := by
      by_contra hp
      have hpos := h.busy (by simpa using hp)
      omega
    exact ⟨h.waiting hidle, hidle⟩
  · rw [h.size, outstanding, inFlight, hnothing.1, hnothing.2]
    rfl
  · obtain ⟨hleft, hlt⟩ := h.sent hp
    rw [inFlight, if_pos hp, hleft, Int32.toInt_ofNat_of_lt hlt]
    exact Int.natCast_nonneg _
  · intro a ha hsent
    obtain ⟨s', hs, -⟩ := h.step ha hsent
    exact ⟨s', hs⟩

theorem size_is_outstanding_two_messages :
    ∃ m m' s, create [(1, .int 5)] = some m ∧ create [(2, .string (ascii "ab"))] = some m' ∧
      run step init [.sendBinaryMessage m, .sendBinaryMessage m', .onBinaryMessageSent] = some s ∧
      s.completed = 1 ∧ s.pendingSendSize.toInt = 18 ∧
      s.pendingSendSize.toInt = sizes s.pendingBinarySendData + s.inFlight.length := by
  have hrun : ((create [(1, .int 5)]).bind fun m => (create [(2, .string (ascii "ab"))]).bind fun m' =>
      (step init (.sendBinaryMessage m)).bind fun s₁ => (step s₁ (.sendBinaryMessage m')).bind fun s₂ =>
        (step s₂ .onBinaryMessageSent).map fun s => (sizes [m], s₁.outstanding + sizes [m'], s₂.outstanding,
          s.completed, s.pendingSendSize.toInt)) = some (20, 38, 38, 1, 18) := by decide +kernel
  obtain ⟨m, hm, hrun⟩ := Option.bind_eq_some_iff.mp hrun
  obtain ⟨m', hm', hrun⟩ := Option.bind_eq_some_iff.mp hrun
  obtain ⟨s₁, hs₁, hrun⟩ := Option.bind_eq_some_iff.mp hrun
  obtain ⟨s₂, hs₂, hrun⟩ := Option.bind_eq_some_iff.mp hrun
  obtain ⟨s, hs, hview⟩ := Option.map_eq_some_iff.mp hrun
  obtain ⟨hfirst, hsecond, hsent, hcompleted, hsize⟩ := by simpa only [Prod.mk.injEq] using hview
  have hr : run step init [.sendBinaryMessage m, .sendBinaryMessage m', .onBinaryMessageSent] = some s :=
    run_cons.mpr ⟨s₁, hs₁, run_cons.mpr ⟨s₂, hs₂, run_cons.mpr ⟨s, hs, rfl⟩⟩⟩
  have hmeets : Meets step Outstanding init
      [.sendBinaryMessage m, .sendBinaryMessage m', .onBinaryMessageSent] := by
    refine ⟨⟨List.forall_mem_singleton.mpr ⟨_, hm⟩, ?_⟩, fun t ht => ?_⟩
    · rw [Action.messages, hfirst]
      decide
    obtain rfl := Option.some.inj (hs₁.symm.trans ht)
    refine ⟨⟨List.forall_mem_singleton.mpr ⟨_, hm'⟩, ?_⟩, fun t ht => ?_⟩
    · rw [Action.messages, hsecond]
      decide
    obtain rfl := Option.some.inj (hs₂.symm.trans ht)
    refine ⟨⟨List.forall_mem_nil _, ?_⟩, fun _ _ => trivial⟩
    rw [hsent]
    decide
  exact ⟨m, m', s, hm, hm', hr, hcompleted, hsize, (size_is_outstanding hmeets hr).1⟩

end Sender

end Tiodb
