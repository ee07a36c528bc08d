import Tiodb.Protocol.Message

/-!
# Room in a stream buffer

When `stream_buffer_ensure_space_left` of `tioclient.c` leaves the room that was asked
for. The new size is a 32-bit sum, and the size asked for comes from the header of a
received message.
-/

namespace Tiodb

namespace StreamBuffer

/-- `buffer_size` is 32 bits, and the used space is in the allocation. -/
structure Sound (sb : StreamBuffer) : Prop where
  size : sb.buffer.length < 2 ^ 32
  used : sb.current ≤ sb.buffer.length

/-- The buffer is sound, and has all that was written before. -/
structure Follows (sb sb' : StreamBuffer) : Prop where
  sound : sb'.Sound
  written : sb'.buffer.take sb.current = sb.content

/-- There is room, or the new size does not wrap, or it wraps once and is still enough. -/
def Room (sb : StreamBuffer) (size : Nat) : Prop :=
  sb.current + size ≤ sb.buffer.length ∨
  sb.buffer.length + 2 * size < 2 ^ 32 ∨
  (sb.current + 2 ^ 32 ≤ sb.buffer.length + size ∧ sb.buffer.length + 2 * size < 2 ^ 33)

instance (sb : StreamBuffer) (size : Nat) : Decidable (sb.Room size) :=
  inferInstanceAs (Decidable (_ ∨ _ ∨ _))

variable {sb : StreamBuffer}

/-- Whatever the size, the buffer is left alone, or grows at its end, or the old bytes do not fit the new one. -/
theorem ensureSpaceLeft_cases (h : sb.Sound) (size : UInt32) :
    (sb.current + size.toNat ≤ sb.buffer.length ∧ sb.ensureSpaceLeft size = some sb) ∨
    (sb.buffer.length < sb.current + size.toNat ∧
      ((sb.buffer.length + 2 * size.toNat) % 2 ^ 32 < sb.buffer.length ∧ sb.ensureSpaceLeft size = none ∨
        ∃ fill, (sb.buffer ++ fill).length = (sb.buffer.length + 2 * size.toNat) % 2 ^ 32 ∧
          sb.ensureSpaceLeft size = some { sb with buffer := sb.buffer ++ fill })) := by
  have hlen := h.size
  have hused := h.used
  have hsize : sb.bufferSize.toNat = sb.buffer.length := UInt32.toNat_ofNat_of_lt' hlen
  have hcur : sb.spaceUsed.toNat = sb.current := UInt32.toNat_ofNat_of_lt' (show _ < 2 ^ 32 by omega)
  have hleft : (sb.bufferSize - sb.spaceUsed).toNat = sb.buffer.length - sb.current := by
    rw [UInt32.toNat_sub_of_le _ _ (UInt32.le_iff_toNat_le.mpr (by omega)), hsize, hcur]
  have hnew : (sb.bufferSize + size * 2).toNat = (sb.buffer.length + 2 * size.toNat) % 2 ^ 32 := by
    rw [UInt32.toNat_add, UInt32.toNat_mul, hsize, show (2 : UInt32).toNat = 2 from rfl]
    omega
  unfold ensureSpaceLeft
  by_cases hroom : size ≤ sb.bufferSize - sb.spaceUsed
  · left
    rw [if_pos hroom]
    rw [UInt32.le_iff_toNat_le, hleft] at hroom
    exact ⟨by omega, rfl⟩
  · right
    rw [if_neg hroom]
    rw [UInt32.le_iff_toNat_le, hleft] at hroom
    refine ⟨by omega, ?_⟩
    by_cases hwrap : sb.bufferSize + size * 2 < sb.bufferSize
    · left
      rw [if_pos hwrap]
      rw [UInt32.lt_iff_toNat_lt, hnew, hsize] at hwrap
      exact ⟨hwrap, rfl⟩
    · right
      refine ⟨_, ?_, if_neg hwrap⟩
      rw [UInt32.lt_iff_toNat_lt, hnew, hsize] at hwrap
      rw [List.length_append, List.length_replicate,
        UInt32.toNat_sub_of_le _ _ (UInt32.le_iff_toNat_le.mpr (by omega)), hnew, hsize]
      omega

theorem room_iff (h : sb.Sound) (size : UInt32) :
    sb.Room size.toNat ↔
      ∃ fill, sb.ensureSpaceLeft size = some { sb with buffer := sb.buffer ++ fill } ∧
        sb.current + size.toNat ≤ (sb.buffer ++ fill).length ∧ (sb.buffer ++ fill).length < 2 ^ 32 := by
  have hlen := h.size
  have hused := h.used
  have hlt := size.toNat_lt
  unfold Room
  obtain ⟨hroom, hens⟩ | ⟨hroom, ⟨hwrap, hens⟩ | ⟨fill, hfill, hens⟩⟩ := ensureSpaceLeft_cases h size
  · rw [hens]
    simp only [hroom, true_or, true_iff]
    exact ⟨[], by simp, by simpa using hroom, by simpa using hlen⟩
  · rw [hens]
    simp only [reduceCtorEq, false_and, exists_false, iff_false]
    omega
  · rw [hens]
    constructor
    · intro hr
      refine ⟨fill, rfl, ?_, ?_⟩ <;> omega
    · rintro ⟨fill', heq, hle, -⟩
      obtain rfl : fill = fill' := by simpa using heq
      omega

theorem ensureSpaceLeft_grows (h : sb.Sound) {size : UInt32} {sb' : StreamBuffer}
    (hs : sb.ensureSpaceLeft size = some sb') : ∃ fill, sb' = { sb with buffer := sb.buffer ++ fill } := by
  obtain ⟨-, hens⟩ | ⟨-, ⟨-, hens⟩ | ⟨fill, -, hens⟩⟩ := ensureSpaceLeft_cases h size
  · exact ⟨[], by simpa using (Option.some.inj (hens.symm.trans hs)).symm⟩
  · cases hens.symm.trans hs
  · exact ⟨fill, (Option.some.inj (hens.symm.trans hs)).symm⟩

theorem take_current_append (h : sb.Sound) (fill : Bytes) : (sb.buffer ++ fill).take sb.current = sb.content :=
  List.take_append_of_le_length h.used

theorem getWritePointer_follows_iff (h : sb.Sound) (size : UInt32) :
    (∃ p sb', sb.getWritePointer size = some (p, sb') ∧ sb.Follows sb') ↔ sb.Room size.toNat := by
  rw [room_iff h]
  unfold getWritePointer
  constructor
  · rintro ⟨p, sb', heq, hf⟩
    obtain ⟨sb₁, hens, heq⟩ := Option.map_eq_some_iff.mp heq
    obtain ⟨rfl, rfl⟩ := Prod.mk.inj heq
    obtain ⟨fill, rfl⟩ := ensureSpaceLeft_grows h hens
    exact ⟨fill, hens, hf.sound.used, hf.sound.size⟩
  · rintro ⟨fill, hens, hle, hlen⟩
    exact ⟨_, _, by rw [hens]; rfl, ⟨hlen, hle⟩, take_current_append h fill⟩

theorem put_inside (sb : StreamBuffer) {offset : Nat} {b : Bytes} (h : offset + b.length ≤ sb.buffer.length) :
    ∃ buffer, sb.put offset b = some { sb with buffer := buffer } ∧ buffer.length = sb.buffer.length ∧
      buffer.take offset = sb.buffer.take offset := by
  refine ⟨_, if_pos h, by simp; omega, ?_⟩
  rw [List.take_append_of_le_length (by simp; omega), List.take_take, Nat.min_self]

theorem write_follows_iff (h : sb.Sound) {b : Bytes} (hb : b.length < 2 ^ 32) :
    (∃ sb', sb.write b = some sb' ∧ sb.Follows sb') ↔ sb.Room b.length := by
  have hsize : (UInt32.ofNat b.length).toNat = b.length := UInt32.toNat_ofNat_of_lt' hb
  have hroom := room_iff h (UInt32.ofNat b.length)
  rw [hsize] at hroom
  rw [hroom]
  unfold write
  constructor
  · rintro ⟨sb', heq, hf⟩
    obtain ⟨sb₁, hens, heq⟩ := Option.bind_eq_some_iff.mp heq
    obtain ⟨sb₂, hput, rfl⟩ := Option.map_eq_some_iff.mp heq
    obtain ⟨fill, rfl⟩ := ensureSpaceLeft_grows h hens
    have hlen : sb₂.buffer.length = (sb.buffer ++ fill).length := by
      unfold put at hput
      split_ifs at hput with hin
      obtain rfl := Option.some.inj hput
      simp at hin ⊢
      omega
    have hin : sb.current + b.length ≤ (sb.buffer ++ fill).length := by
      unfold put at hput
      split_ifs at hput with hin
      exact hin
    exact ⟨fill, hens, hin, hlen ▸ hf.sound.size⟩
  · rintro ⟨fill, hens, hle, hlen⟩
    obtain ⟨buffer, hput, hlen', htake⟩ := put_inside { sb with buffer := sb.buffer ++ fill } hle
    refine ⟨⟨buffer, sb.current + b.length⟩, by rw [hens, Option.bind_some, hput]; rfl, ⟨?_, ?_⟩, ?_⟩
    · exact hlen'.trans_lt hlen
    · exact hle.trans hlen'.ge
    · exact htake.trans (take_current_append h fill)

end StreamBuffer

namespace Pr1

/-- Once the header is in the buffer, there is room for a payload of this size. -/
def PayloadFits (messageSize : Nat) : Prop :=
  messageSize < 2 ^ 31 - 2048 ∨ 2 ^ 32 - 4088 ≤ messageSize ∧ messageSize < 2 ^ 32 - 2048

instance (messageSize : Nat) : Decidable (PayloadFits messageSize) := inferInstanceAs (Decidable (_ ∨ _))

theorem header_written (header : Header) :
    ∃ m sb, Message.new = some m ∧ (m.streamBuffer.seek 0).write header.encode = some sb ∧
      sb.current = 8 ∧ sb.buffer.length = 4096 ∧ sb.content = header.encode := by
  obtain ⟨m, hnew, -, -, hm⟩ := Message.new_holding
  have hseek : m.streamBuffer.seek 0 = ⟨m.streamBuffer.buffer, 0⟩ := by
    rw [StreamBuffer.seek, StreamBuffer.bufferSize, hm, if_neg (by decide)]
    rfl
  have hh := header.length_encode
  have hens : StreamBuffer.ensureSpaceLeft ⟨m.streamBuffer.buffer, 0⟩ (UInt32.ofNat header.encode.length) =
      some ⟨m.streamBuffer.buffer, 0⟩ := by
    simp only [StreamBuffer.ensureSpaceLeft, StreamBuffer.bufferSize, StreamBuffer.spaceUsed, hm, hh]
    rfl
  refine ⟨m, ⟨header.encode ++ m.streamBuffer.buffer.drop 8, 8⟩, hnew, ?_, rfl, by simp [hh, hm], ?_⟩
  · rw [hseek, StreamBuffer.write, hens, Option.bind_some, StreamBuffer.put, if_pos (by simp [hh, hm])]
    simp [hh]
  · simp [StreamBuffer.content, hh]

theorem newGetBufferForReceive_iff (header : Header) :
    (∃ p m, Message.newGetBufferForReceive header = some (p, m) ∧ m.streamBuffer.Sound ∧
        m.streamBuffer.buffer.take 8 = header.encode) ↔
      PayloadFits header.messageSize.toNat := by
  obtain ⟨m, sb, hnew, hwrite, hcur, hlen, hcont⟩ := header_written header
  have hsound : sb.Sound := ⟨by omega, by omega⟩
  have hlt := header.messageSize.toNat_lt
  have hroom : sb.Room header.messageSize.toNat ↔ PayloadFits header.messageSize.toNat := by
    unfold StreamBuffer.Room PayloadFits
    omega
  rw [← hroom, ← StreamBuffer.getWritePointer_follows_iff hsound, Message.newGetBufferForReceive, hnew,
    Option.bind_some, hwrite, Option.bind_some]
  constructor
  · rintro ⟨p, m', heq, hs, htake⟩
    obtain ⟨⟨q, sb'⟩, hget, heq⟩ := Option.map_eq_some_iff.mp heq
    obtain ⟨rfl, rfl⟩ := Prod.mk.inj heq
    exact ⟨q, sb', hget, hs, by rw [hcur, hcont]; exact htake⟩
  · rintro ⟨q, sb', hget, hf⟩
    refine ⟨q, ⟨sb', m.fieldCount⟩, by rw [hget]; rfl, hf.sound, ?_⟩
    rw [← hcont, ← hf.written, hcur]

end Pr1

namespace StreamBuffer

/-- For every buffer and every size: after the reservation, or the write, the used space is in the allocation and what
was written before is unchanged exactly if there is room; and for every header that a peer can send, exactly if its
payload fits. -/
theorem stays_inside_iff {sb : StreamBuffer} (h : sb.Sound) (size : UInt32) {b : Bytes} (hb : b.length < 2 ^ 32)
    (header : Pr1.Header) :
    ((∃ p sb', sb.getWritePointer size = some (p, sb') ∧ sb.Follows sb') ↔ sb.Room size.toNat) ∧
    ((∃ sb', sb.write b = some sb' ∧ sb.Follows sb') ↔ sb.Room b.length) ∧
    ((∃ p m, Pr1.Message.newGetBufferForReceive header = some (p, m) ∧ m.streamBuffer.Sound ∧
      m.streamBuffer.buffer.take 8 = header.encode) ↔ Pr1.PayloadFits header.messageSize.toNat) :=
  ⟨getWritePointer_follows_iff h size, write_follows_iff h hb, Pr1.newGetBufferForReceive_iff header⟩

theorem stays_inside_new :
    ∃ p sb', new.getWritePointer 5000 = some (p, sb') ∧ new.Follows sb' := by
  have hlen := length_new
  have hsound : new.Sound := ⟨by omega, Nat.zero_le _⟩
  refine (stays_inside_iff hsound 5000 (b := []) (by decide) ⟨0, 0, 0⟩).1.mpr (.inr (.inl ?_))
  rw [hlen]
  decide

/-- The new size wraps to the old one: the payload is read into 4088 bytes. -/
theorem payload_of_two_gigabytes :
    ∃ header : Pr1.Header, header.messageSize = 0x80000000 ∧
      ¬ ∃ p m, Pr1.Message.newGetBufferForReceive header = some (p, m) ∧ m.streamBuffer.Sound ∧
        m.streamBuffer.buffer.take 8 = header.encode := by
  refine ⟨⟨0x80000000, 0, 0⟩, rfl, ?_⟩
  rw [Pr1.newGetBufferForReceive_iff]
  decide

end StreamBuffer

end Tiodb
