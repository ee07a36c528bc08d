import Mathlib.Data.List.Forall2
import Tiodb.Protocol.Pr1

/-!
# Building a message

`STREAM_BUFFER` of `tioclient.c`, and the functions that build a message in one, take
its bytes and make room for a received one. `none` is a write that leaves the
allocation.
-/

namespace Tiodb

open Lib

/-- The allocation, and `current` as an offset into it. -/
structure StreamBuffer where
  buffer : Bytes
  current : Nat
  deriving DecidableEq, Repr

namespace StreamBuffer

/-- `stream_buffer_new` -/
def new : StreamBuffer := ⟨List.replicate 4096 0xFF, 0⟩

/-- `buffer_size` -/
def bufferSize (sb : StreamBuffer) : UInt32 := UInt32.ofNat sb.buffer.length

/-- `stream_buffer_space_used` -/
def spaceUsed (sb : StreamBuffer) : UInt32 := UInt32.ofNat sb.current

/-- `stream_buffer_ensure_space_left` -/
def ensureSpaceLeft (sb : StreamBuffer) (size : UInt32) : Option StreamBuffer :=
  if size ≤ sb.bufferSize - sb.spaceUsed then some sb
  else
    let newSize := sb.bufferSize + size * 2
    -- the old bytes are copied whatever the new size
    if newSize < sb.bufferSize then none
    else some { sb with buffer := sb.buffer ++ List.replicate (newSize - sb.bufferSize).toNat 0xFF }

/-- `stream_buffer_seek` -/
def seek (sb : StreamBuffer) (position : UInt32) : StreamBuffer :=
  if sb.bufferSize ≤ position then { sb with current := (sb.bufferSize - 1).toNat }
  else { sb with current := position.toNat }

/-- Bytes written through a pointer into the allocation. -/
def put (sb : StreamBuffer) (offset : Nat) (b : Bytes) : Option StreamBuffer :=
  if offset + b.length ≤ sb.buffer.length then
    some { sb with buffer := sb.buffer.take offset ++ (b ++ sb.buffer.drop (offset + b.length)) }
  else none

/-- The pointer, and the buffer with the space reserved. -/
def getWritePointer (sb : StreamBuffer) (size : UInt32) : Option (Nat × StreamBuffer) :=
  (sb.ensureSpaceLeft size).map fun sb => (sb.current, { sb with current := sb.current + size.toNat })

/-- `stream_buffer_write` -/
def write (sb : StreamBuffer) (b : Bytes) : Option StreamBuffer :=
  (sb.ensureSpaceLeft (UInt32.ofNat b.length)).bind fun sb =>
    (sb.put sb.current b).map fun sb => { sb with current := sb.current + b.length }

end StreamBuffer

namespace Pr1

def Header.encode (h : Header) : Bytes :=
  toLE 4 h.messageSize.toNat ++ toLE 2 h.fieldCount.toNat ++ toLE 2 h.debugSessionSeqNum.toNat

def Header.decode : Bytes → Option Header
  | s0 :: s1 :: s2 :: s3 :: c0 :: c1 :: d0 :: d1 :: _ =>
    some ⟨UInt32.ofNat (ofLE [s0, s1, s2, s3]), UInt16.ofNat (ofLE [c0, c1]), UInt16.ofNat (ofLE [d0, d1])⟩
  | _ => none

/-- `PR1_MESSAGE`, less the field array that only a parsed one has. -/
structure Message where
  streamBuffer : StreamBuffer
  fieldCount : UInt16
  deriving DecidableEq, Repr

namespace Message

/-- The size is marked as invalid, and the field count is left as `malloc` and `memset` gave it. -/
def new : Option Message :=
  (StreamBuffer.new.getWritePointer 8).bind fun r =>
    (r.2.put r.1 (toLE 4 0xFFFFFFFF)).bind fun sb => (sb.put (r.1 + 6) (toLE 2 0)).map fun sb => ⟨sb, 0⟩

/-- `pr1_message_add_field` -/
def addField (m : Message) (fieldId dataType : UInt16) (buffer : Bytes) : Option Message :=
  (m.streamBuffer.getWritePointer 8).bind fun r =>
    (r.2.put r.1 (FieldHeader.encode ⟨fieldId, dataType, UInt32.ofNat buffer.length⟩)).bind fun sb =>
      (sb.write buffer).map fun sb => ⟨sb, m.fieldCount + 1⟩

/-- `pr1_message_fill_header_info`: the size is that of the payload. -/
def fillHeaderInfo (m : Message) (debugSeqNum : UInt16) : Option Message :=
  (m.streamBuffer.put 0 (Header.encode ⟨m.streamBuffer.spaceUsed - 8, m.fieldCount, debugSeqNum⟩)).map
    fun sb => { m with streamBuffer := sb }

/-- The bytes of the message, which stays as it is but for its header. -/
def getBuffer (m : Message) (debugSeqNum : UInt16) : Option (Bytes × Message) :=
  (m.fillHeaderInfo debugSeqNum).map fun m =>
    (m.streamBuffer.buffer.take m.streamBuffer.spaceUsed.toNat, m)

/-- `pr1_message_new_get_buffer_for_receive`: where the payload is to be read to. -/
def newGetBufferForReceive (header : Header) : Option (Nat × Message) :=
  new.bind fun m =>
    ((m.streamBuffer.seek 0).write header.encode).bind fun sb =>
      (sb.getWritePointer header.messageSize).map fun r => (r.1, ⟨r.2, m.fieldCount⟩)

/-- What `pr1_message_parse` finds in the buffer. -/
def received (m : Message) : Option Received :=
  (Header.decode m.streamBuffer.buffer).bind fun header =>
    if h : ((m.streamBuffer.buffer.drop 8).take header.messageSize.toNat).length = header.messageSize.toNat then
      some ⟨header, _, h⟩
    else none

end Message

/-- The header is read first, and the payload into the buffer that was made for it. -/
def receive (b : Bytes) : Option Received :=
  (Header.decode b).bind fun header =>
    (Message.newGetBufferForReceive header).bind fun r =>
      (r.2.streamBuffer.put r.1 (b.drop 8)).bind fun sb => Message.received { r.2 with streamBuffer := sb }

/-! ## Data in fields -/

/-- A `size_t` size passed as an `unsigned int` keeps its low bits, and so many bytes. -/
def sized (b : Bytes) : Bytes := b.take (UInt32.ofNat b.length).toNat

/-- `tio_data_add_to_pr1_message` of the client. -/
def tioDataAddToPr1Message (m : Message) (fieldId : UInt16) : TioData → Option Message
  | .none => m.addField fieldId fieldTypeNone []
  | .string b => m.addField fieldId fieldTypeString (sized b)
  | .int i => m.addField fieldId fieldTypeInt (toLE 4 i.toUInt32.toNat)
  | .double d => m.addField fieldId fieldTypeDouble (toLE 8 d.toNat)

/-- `Pr1MessageAddField` of the server, which asks the data for its size. -/
def pr1MessageAddField (m : Message) (fieldId : UInt16) (tiodata : TioData) : Option Message :=
  match tiodata with
  | .string b => m.addField fieldId fieldTypeString (sized b)
  | .int i => m.addField fieldId fieldTypeInt (toLE 4 i.toUInt32.toNat)
  | .double d => m.addField fieldId fieldTypeDouble (toLE 8 d.toNat)
  | .none => m.addField fieldId fieldTypeNone []

/-- `pr1_message_field_to_tio_data` of the client. -/
def fieldToTioData (payload : Bytes) (field : Nat) : Option TioData :=
  (fieldAt payload field).bind fun f =>
    if f.dataType = fieldTypeNone then some .none
    else if f.dataType = fieldTypeString then (read payload (field + 8) f.dataSize.toNat).map .string
    else if f.dataType = fieldTypeInt then (getInt payload field).map .int
    else if f.dataType = fieldTypeDouble then (getDouble payload field).map .double
    else some .none

/-- Who builds the message. -/
inductive Side where
  | client
  | server
  deriving DecidableEq, Repr

/-- How either side puts a datum into a message. -/
def Side.addData : Side → Message → UInt16 → TioData → Option Message
  | .client => tioDataAddToPr1Message
  | .server => pr1MessageAddField

def Side.addAll (side : Side) (m : Message) (fields : List (UInt16 × TioData)) : Option Message :=
  fields.foldlM (fun m f => side.addData m f.1 f.2) m

end Pr1

/-! ## The buffer as what was written -/

namespace StreamBuffer

/-- What was written. -/
def content (sb : StreamBuffer) : Bytes := sb.buffer.take sb.current

/-- The growth rule gives away at most twice what was asked for, so a small content keeps the size in range. -/
structure Tight (sb : StreamBuffer) : Prop where
  fits : sb.current ≤ sb.buffer.length
  tight : sb.buffer.length ≤ 4096 + 2 * sb.current

variable {sb : StreamBuffer}

theorem ensureSpaceLeft_spec (h : Tight sb) (size : UInt32) (hs : sb.current + size.toNat < 2 ^ 31 - 4096) :
    ∃ fill, sb.ensureSpaceLeft size = some { sb with buffer := sb.buffer ++ fill } ∧
      sb.current + size.toNat ≤ (sb.buffer ++ fill).length ∧
      (sb.buffer ++ fill).length ≤ 4096 + 2 * (sb.current + size.toNat) := by
  have hfits := h.fits
  have htight := h.tight
  have hsize : sb.bufferSize.toNat = sb.buffer.length := UInt32.toNat_ofNat_of_lt' (show _ < 2 ^ 32 by omega)
  have hused : sb.spaceUsed.toNat = sb.current := UInt32.toNat_ofNat_of_lt' (show _ < 2 ^ 32 by omega)
  have hsub : (sb.bufferSize - sb.spaceUsed).toNat = sb.buffer.length - sb.current := by
    rw [UInt32.toNat_sub_of_le _ _ (UInt32.le_iff_toNat_le.mpr (by omega)), hsize, hused]
  unfold ensureSpaceLeft
  by_cases hle : size ≤ sb.bufferSize - sb.spaceUsed
  · rw [if_pos hle]
    rw [UInt32.le_iff_toNat_le, hsub] at hle
    exact ⟨[], by simp, by simp; omega, by simp; omega⟩
  · rw [if_neg hle]
    rw [UInt32.le_iff_toNat_le, hsub] at hle
    have hnew : (sb.bufferSize + size * 2).toNat = sb.buffer.length + size.toNat * 2 := by
      rw [UInt32.toNat_add, UInt32.toNat_mul, hsize, show (2 : UInt32).toNat = 2 from rfl]
      omega
    have hge : ¬ sb.bufferSize + size * 2 < sb.bufferSize := by
      rw [UInt32.lt_iff_toNat_lt]
      omega
    have hfill : (sb.bufferSize + size * 2 - sb.bufferSize).toNat = size.toNat * 2 := by
      rw [UInt32.toNat_sub_of_le _ _ (UInt32.le_iff_toNat_le.mpr (by omega)), hnew, hsize]
      omega
    rw [if_neg hge]
    refine ⟨_, rfl, ?_, ?_⟩
    · rw [List.length_append, List.length_replicate, hfill]
      omega
    · rw [List.length_append, List.length_replicate, hfill]
      omega

theorem length_new : new.buffer.length = 4096 := by
  rw [new, List.length_replicate]

theorem put_length (sb : StreamBuffer) (offset : Nat) (b : Bytes) (h : offset + b.length ≤ sb.buffer.length) :
    ∃ buffer, sb.put offset b = some { sb with buffer := buffer } ∧ buffer.length = sb.buffer.length :=
  ⟨_, if_pos h, by simp; omega⟩

theorem put_spec (sb₁ : StreamBuffer) {fill b : Bytes} (h : Tight sb)
    (hsb : sb₁.buffer = sb.buffer ++ fill) (hle : sb.current + b.length ≤ sb₁.buffer.length)
    (htight : sb₁.buffer.length ≤ 4096 + 2 * (sb.current + b.length)) :
    ∃ buffer, sb₁.put sb.current b = some { sb₁ with buffer := buffer } ∧
      Tight ⟨buffer, sb.current + b.length⟩ ∧ content ⟨buffer, sb.current + b.length⟩ = sb.content ++ b := by
  have hfits := h.fits
  have hlen : (sb₁.buffer.take sb.current).length = sb.current := by simp; omega
  refine ⟨_, if_pos hle, ⟨?_, ?_⟩, ?_⟩
  · simp
    omega
  · simp
    omega
  · simp only [content]
    rw [← List.append_assoc, List.take_left' (by simp; omega), hsb, List.take_append_of_le_length hfits]

theorem reserve_spec (h : Tight sb) (b : Bytes) {size : UInt32} (hb : b.length = size.toNat)
    (hs : sb.current + b.length < 2 ^ 31 - 4096) :
    ∃ sb₁ sb', sb.getWritePointer size = some (sb.current, sb₁) ∧ sb₁.put sb.current b = some sb' ∧ Tight sb' ∧
      sb'.content = sb.content ++ b ∧ sb'.current = sb.current + b.length := by
  obtain ⟨fill, hens, hle, htight⟩ := ensureSpaceLeft_spec h size (by rwa [← hb])
  rw [← hb] at hle htight
  obtain ⟨buffer, hput, htight', hcont⟩ :=
    put_spec ⟨sb.buffer ++ fill, sb.current + b.length⟩ h rfl hle htight
  refine ⟨_, _, ?_, hput, htight', hcont, rfl⟩
  rw [getWritePointer, hens, Option.map_some, hb]

theorem write_spec (h : Tight sb) (b : Bytes) (hs : sb.current + b.length < 2 ^ 31 - 4096) :
    ∃ sb', sb.write b = some sb' ∧ Tight sb' ∧ sb'.content = sb.content ++ b ∧
      sb'.current = sb.current + b.length := by
  have hb : (UInt32.ofNat b.length).toNat = b.length := UInt32.toNat_ofNat_of_lt' (show _ < 2 ^ 32 by omega)
  obtain ⟨fill, hens, hle, htight⟩ := ensureSpaceLeft_spec h (UInt32.ofNat b.length) (by rwa [hb])
  rw [hb] at hle htight
  obtain ⟨buffer, hput, htight', hcont⟩ :=
    put_spec { sb with buffer := sb.buffer ++ fill } h rfl hle htight
  refine ⟨_, ?_, htight', hcont, rfl⟩
  rw [write, hens, Option.bind_some, hput, Option.map_some]

end StreamBuffer

namespace Pr1

theorem Header.length_encode (h : Header) : h.encode.length = 8 := by
  simp [Header.encode]

theorem Header.decode_encode (h : Header) (rest : Bytes) : Header.decode (h.encode ++ rest) = some h := by
  have hsize : ofLE (toLE 4 h.messageSize.toNat) = h.messageSize.toNat := ofLE_toLE h.messageSize.toNat_lt
  have hcount : ofLE (toLE 2 h.fieldCount.toNat) = h.fieldCount.toNat := ofLE_toLE h.fieldCount.toNat_lt
  have hseq : ofLE (toLE 2 h.debugSessionSeqNum.toNat) = h.debugSessionSeqNum.toNat :=
    ofLE_toLE h.debugSessionSeqNum.toNat_lt
  simp only [toLE] at hsize hcount hseq
  simp only [Header.encode, toLE, List.cons_append, List.nil_append, Header.decode, hsize, hcount, hseq,
    UInt16.ofNat_toNat, UInt32.ofNat_toNat]

namespace Message

/-- The fields of the message are these bytes, behind the room for its header. -/
structure Holding (m : Message) (payload : Bytes) : Prop where
  tight : m.streamBuffer.Tight
  content : ∃ header : Bytes, header.length = 8 ∧ m.streamBuffer.content = header ++ payload
  current : m.streamBuffer.current = 8 + payload.length

variable {m : Message} {payload : Bytes}

theorem new_holding :
    ∃ m, new = some m ∧ m.Holding [] ∧ m.fieldCount = 0 ∧ m.streamBuffer.buffer.length = 4096 := by
  have hroom : StreamBuffer.new.getWritePointer 8 = some (0, { StreamBuffer.new with current := 8 }) := by
    rw [StreamBuffer.getWritePointer, StreamBuffer.ensureSpaceLeft, if_pos]
    · rfl
    · rw [StreamBuffer.bufferSize, StreamBuffer.length_new]
      decide
  obtain ⟨b₁, hput₁, hlen₁⟩ := StreamBuffer.put_length { StreamBuffer.new with current := 8 } 0 (toLE 4 0xFFFFFFFF)
    (by rw [StreamBuffer.length_new]; decide)
  obtain ⟨b₂, hput₂, hlen₂⟩ := StreamBuffer.put_length ⟨b₁, 8⟩ 6 (toLE 2 0)
    (by rw [hlen₁, StreamBuffer.length_new]; decide)
  have hlen : b₂.length = 4096 := by rw [hlen₂, hlen₁, StreamBuffer.length_new]
  refine ⟨⟨⟨b₂, 8⟩, 0⟩, ?_, ⟨⟨?_, ?_⟩, ⟨b₂.take 8, ?_, ?_⟩, rfl⟩, rfl, hlen⟩
  · rw [new, hroom, Option.bind_some, hput₁, Option.bind_some]
    exact congrArg (Option.map _) hput₂
  · simp [hlen]
  · simp [hlen]
  · simp [hlen]
  · simp [StreamBuffer.content]

theorem addField_holding (h : m.Holding payload) (fieldId dataType : UInt16) {b : Bytes}
    (hs : 16 + payload.length + b.length < 2 ^ 31 - 4096) :
    ∃ m', m.addField fieldId dataType b = some m' ∧ m'.Holding (payload ++ Pr1.addField fieldId dataType b) ∧
      m'.fieldCount = m.fieldCount + 1 := by
  obtain ⟨header, hlen, hcont⟩ := h.content
  have hcur := h.current
  have hf := FieldHeader.length_encode ⟨fieldId, dataType, UInt32.ofNat b.length⟩
  obtain ⟨sb₁, sb₂, hget, hput, htight, hcont₂, hcur₂⟩ :=
    StreamBuffer.reserve_spec h.tight (FieldHeader.encode ⟨fieldId, dataType, UInt32.ofNat b.length⟩)
      (show _ = (8 : UInt32).toNat from hf) (by omega)
  obtain ⟨sb', hwrite, htight', hcont', hcur'⟩ := StreamBuffer.write_spec htight b (by omega)
  refine ⟨⟨sb', m.fieldCount + 1⟩, ?_, ⟨htight', ⟨header, hlen, ?_⟩, ?_⟩, rfl⟩
  · rw [addField, hget, Option.bind_some, hput, Option.bind_some, hwrite, Option.map_some]
  · rw [hcont', hcont₂, hcont, Pr1.addField]
    simp only [List.append_assoc]
  · rw [hcur', hcur₂, hf, hcur, Pr1.addField]
    simp only [List.length_append, hf]
    omega

theorem getBuffer_holding (h : m.Holding payload) (debugSeqNum : UInt16) (hs : payload.length < 2 ^ 31) :
    ∃ m', m.getBuffer debugSeqNum =
        some (Header.encode ⟨UInt32.ofNat payload.length, m.fieldCount, debugSeqNum⟩ ++ payload, m') ∧
      m'.Holding payload ∧ m'.fieldCount = m.fieldCount := by
  obtain ⟨header, hlen, hcont⟩ := h.content
  have hcur := h.current
  have hfits := h.tight.fits
  have hused (buffer : Bytes) :
      (StreamBuffer.mk buffer m.streamBuffer.current).spaceUsed.toNat = 8 + payload.length := by
    rw [StreamBuffer.spaceUsed, hcur]
    exact UInt32.toNat_ofNat_of_lt' (show _ < 2 ^ 32 by omega)
  have hsize : m.streamBuffer.spaceUsed - 8 = UInt32.ofNat payload.length := by
    apply UInt32.toNat_inj.mp
    have hm := hused m.streamBuffer.buffer
    rw [UInt32.toNat_sub_of_le _ _ (UInt32.le_iff_toNat_le.mpr (by rw [hm]; exact Nat.le_add_right 8 _)), hm,
      UInt32.toNat_ofNat_of_lt' (show _ < 2 ^ 32 by omega)]
    exact Nat.add_sub_cancel_left 8 _
  have hbuf : m.streamBuffer.buffer.drop 8 = payload ++ m.streamBuffer.buffer.drop (8 + payload.length) := by
    have hsplit := List.take_append_drop m.streamBuffer.current m.streamBuffer.buffer
    rw [← StreamBuffer.content, hcont, hcur, List.append_assoc] at hsplit
    nth_rewrite 1 [← hsplit]
    rw [← hlen, List.drop_left]
  have hh := Header.length_encode ⟨m.streamBuffer.spaceUsed - 8, m.fieldCount, debugSeqNum⟩
  rw [getBuffer, fillHeaderInfo, StreamBuffer.put, if_pos (by omega), Option.map_some, Option.map_some]
  dsimp only
  rw [hused, hh, List.take_zero, List.nil_append, Nat.zero_add, hbuf, ← List.append_assoc]
  refine ⟨_, congrArg some (Prod.ext ?_ rfl), ⟨⟨?_, ?_⟩, ⟨_, hh, ?_⟩, hcur⟩, rfl⟩
  · dsimp only
    rw [List.take_left' (by simp [hh]), hsize]
  · simp [hh]
    omega
  · have htight := h.tight.tight
    simp [hh]
    omega
  · rw [StreamBuffer.content, hcur, List.take_left' (by simp [hh])]

theorem received_holding {header : Header} (hlen : payload.length = header.messageSize.toNat)
    (hcont : m.streamBuffer.content = header.encode ++ payload) :
    m.received = some ⟨header, payload, hlen⟩ := by
  have hbuf : m.streamBuffer.buffer = header.encode ++ (payload ++ m.streamBuffer.buffer.drop m.streamBuffer.current) := by
    have hsplit := List.take_append_drop m.streamBuffer.current m.streamBuffer.buffer
    rw [← StreamBuffer.content, hcont, List.append_assoc] at hsplit
    exact hsplit.symm
  have hpay : (m.streamBuffer.buffer.drop 8).take header.messageSize.toNat = payload := by
    rw [hbuf, ← header.length_encode, List.drop_left, ← hlen, List.take_left]
  have hdec : Header.decode m.streamBuffer.buffer = some header := by rw [hbuf, Header.decode_encode]
  rw [received, hdec, Option.bind_some, dif_pos (by rw [hpay, hlen])]
  simp only [hpay]

end Message

theorem receive_encode (header : Header) {payload : Bytes} (hlen : payload.length = header.messageSize.toNat)
    (hs : 8 + payload.length < 2 ^ 31 - 4096) :
    receive (header.encode ++ payload) = some ⟨header, payload, hlen⟩ := by
  obtain ⟨m, hnew, -, -, hm⟩ := Message.new_holding
  have hseek : m.streamBuffer.seek 0 = { m.streamBuffer with current := 0 } := by
    rw [StreamBuffer.seek, StreamBuffer.bufferSize, hm, if_neg (by decide)]
    rfl
  have hh := header.length_encode
  have htight : StreamBuffer.Tight { m.streamBuffer with current := 0 } := ⟨by simp, by simp [hm]⟩
  obtain ⟨sb₁, hwrite, htight₁, hcont₁, hcur₁⟩ :=
    StreamBuffer.write_spec htight header.encode (by simp only [hh]; omega)
  have hcur : sb₁.current = 8 := by rw [hcur₁, hh]
  obtain ⟨sb₂, sb₃, hget, hput, -, hcont, -⟩ := StreamBuffer.reserve_spec htight₁ payload hlen (by omega)
  have hdrop : (header.encode ++ payload).drop 8 = payload := by rw [← hh, List.drop_left]
  rw [receive, Header.decode_encode, Option.bind_some, Message.newGetBufferForReceive, hnew, Option.bind_some, hseek,
    hwrite, Option.bind_some, hget, Option.map_some, Option.bind_some, hdrop, hput, Option.bind_some]
  refine Message.received_holding hlen ?_
  rw [hcont, hcont₁]
  simp [StreamBuffer.content]

/-! ## Fields and what is read of them -/

/-- The type of the field that a datum makes. -/
def fieldType : TioData → UInt16
  | .none => fieldTypeNone
  | .string _ => fieldTypeString
  | .int _ => fieldTypeInt
  | .double _ => fieldTypeDouble

/-- The bytes of the field that a datum makes. -/
def raw : TioData → Bytes
  | .none => []
  | .string b => b
  | .int i => toLE 4 i.toUInt32.toNat
  | .double d => toLE 8 d.toNat

def encodeField (f : UInt16 × TioData) : Bytes := addField f.1 (fieldType f.2) (raw f.2)

/-- The size of the whole message. -/
def encodedSize (fields : List (UInt16 × TioData)) : Nat := 8 + (fields.flatMap encodeField).length

theorem length_encodeField (f : UInt16 × TioData) : (encodeField f).length = 8 + (raw f.2).length := by
  rw [encodeField, addField, List.length_append, FieldHeader.length_encode]

theorem Side.addData_eq (side : Side) (m : Message) (fieldId : UInt16) (d : TioData) (h : (raw d).length < 2 ^ 32) :
    side.addData m fieldId d = m.addField fieldId (fieldType d) (raw d) := by
  cases d with
  | string b =>
    have hlen : (UInt32.ofNat b.length).toNat = b.length := UInt32.toNat_ofNat_of_lt' h
    have hsized : sized b = b := by rw [sized, hlen, List.take_length]
    cases side <;> simp only [Side.addData, tioDataAddToPr1Message, pr1MessageAddField, fieldType, raw, hsized]
  | none => cases side <;> rfl
  | int i => cases side <;> rfl
  | double d => cases side <;> rfl

theorem Side.addAll_holding (side : Side) {m : Message} {payload : Bytes} (fields : List (UInt16 × TioData))
    (h : m.Holding payload) (hs : encodedSize fields + payload.length < 2 ^ 31 - 4096) :
    ∃ m', side.addAll m fields = some m' ∧ m'.Holding (payload ++ fields.flatMap encodeField) ∧
      m'.fieldCount = m.fieldCount + UInt16.ofNat fields.length := by
  induction fields generalizing m payload with
  | nil => exact ⟨m, rfl, by simpa using h, by simp⟩
  | cons f fields ih =>
    have hf := length_encodeField f
    simp only [encodedSize, List.flatMap_cons, List.length_append] at hs
    obtain ⟨m₁, hadd, hm₁, hcount₁⟩ := Message.addField_holding h f.1 (fieldType f.2) (b := raw f.2) (by omega)
    obtain ⟨m', hall, hm', hcount⟩ := ih hm₁ (by
      rw [encodedSize, List.length_append]
      rw [encodeField] at hs
      omega)
    refine ⟨m', ?_, ?_, ?_⟩
    · rw [Side.addAll, List.foldlM_cons, side.addData_eq m f.1 f.2 (by omega), hadd]
      exact hall
    · rw [List.flatMap_cons, ← List.append_assoc]
      exact hm'
    · rw [hcount, hcount₁, List.length_cons, UInt16.ofNat_add, UInt16.add_assoc, UInt16.add_comm 1]
      rfl

/-- The field stands at this offset. -/
def FieldAt (payload : Bytes) (offset : Nat) (f : UInt16 × TioData) : Prop :=
  (raw f.2).length < 2 ^ 32 ∧ ∃ rest, payload.drop offset = encodeField f ++ rest

variable {payload : Bytes} {offset : Nat} {fieldId : UInt16} {f : UInt16 × TioData}

theorem FieldAt.fieldAt (h : FieldAt payload offset f) :
    Pr1.fieldAt payload offset = some ⟨f.1, fieldType f.2, UInt32.ofNat (raw f.2).length⟩ := by
  obtain ⟨-, rest, hrest⟩ := h
  rw [Pr1.fieldAt, hrest, encodeField, addField, List.append_assoc, FieldHeader.decode_encode]

theorem FieldAt.read (h : FieldAt payload offset f) :
    Pr1.read payload (offset + 8) (raw f.2).length = some (raw f.2) := by
  obtain ⟨-, rest, hrest⟩ := h
  rw [encodeField, addField, List.append_assoc] at hrest
  have hdata : payload.drop (offset + 8) = raw f.2 ++ rest := by simpa using drop_field (n := 0) hrest
  have hlen := congrArg List.length hdata
  rw [List.length_drop, List.length_append] at hlen
  rw [Pr1.read, hdata, List.take_left]
  have hle : offset + 8 ≤ payload.length := by
    have hlen' := congrArg List.length hrest
    rw [List.length_drop, List.length_append, FieldHeader.length_encode] at hlen'
    omega
  exact if_pos (by omega)

theorem ofNat_toUInt32_toNat (i : Int32) : Int32.ofNat i.toUInt32.toNat = i := by
  apply Int32.toBitVec_inj.mp
  simp [Int32.toBitVec_ofNat']

theorem FieldAt.getInt {i : Int32} (h : FieldAt payload offset (fieldId, .int i)) :
    Pr1.getInt payload offset = some i := by
  have hread := h.read
  simp only [raw, length_toLE] at hread
  rw [Pr1.getInt, hread, Option.map_some, ofLE_toLE i.toUInt32.toNat_lt, ofNat_toUInt32_toNat]

theorem FieldAt.getDouble {d : UInt64} (h : FieldAt payload offset (fieldId, .double d)) :
    Pr1.getDouble payload offset = some d := by
  have hread := h.read
  simp only [raw, length_toLE] at hread
  rw [Pr1.getDouble, hread, Option.map_some, ofLE_toLE d.toNat_lt, UInt64.ofNat_toNat]

theorem FieldAt.toCppTioData (h : FieldAt payload offset f) : Pr1.toCppTioData payload offset = some f.2 := by
  rw [Pr1.toCppTioData, h.fieldAt, Option.bind_some]
  obtain ⟨fieldId, d⟩ := f
  cases d with
  | none => rfl
  | string b =>
    have hlen : (UInt32.ofNat b.length).toNat = b.length := UInt32.toNat_ofNat_of_lt' h.1
    have hread := h.read
    simp only [raw] at hread
    simp only [fieldType, if_true, raw, hlen, hread, Option.map_some]
  | int i => exact congrArg (Option.map _) h.getInt
  | double d => exact congrArg (Option.map _) h.getDouble

theorem fieldToTioData_eq (payload : Bytes) (field : Nat) : fieldToTioData payload field = toCppTioData payload field := by
  unfold fieldToTioData toCppTioData
  congr 1
  funext f
  by_cases h : f.dataType = fieldTypeNone
  · rw [if_pos h, h]
    rfl
  · rw [if_neg h]

/-! ## Whole messages -/

theorem parseFrom_fields (before : Bytes) (fields : List (UInt16 × TioData))
    (hs : ∀ f ∈ fields, (raw f.2).length < 2 ^ 32) :
    ∃ offsets, parseFrom (before ++ fields.flatMap encodeField) fields.length before.length = some offsets ∧
      List.Forall₂ (FieldAt (before ++ fields.flatMap encodeField)) offsets fields := by
  induction fields generalizing before with
  | nil => exact ⟨[], rfl, .nil⟩
  | cons f fields ih =>
    have hf : FieldAt (before ++ (f :: fields).flatMap encodeField) before.length f :=
      ⟨hs f (by simp), fields.flatMap encodeField, by rw [List.drop_left, List.flatMap_cons]⟩
    have hsize : (UInt32.ofNat (raw f.2).length).toNat = (raw f.2).length := UInt32.toNat_ofNat_of_lt' hf.1
    obtain ⟨offsets, hparse, hall⟩ := ih (before ++ encodeField f) fun f' hf' => hs f' (by simp [hf'])
    have hnext : (before ++ encodeField f).length = before.length + ((raw f.2).length + 8) := by
      rw [List.length_append, length_encodeField, Nat.add_comm 8]
    rw [hnext] at hparse
    rw [List.append_assoc, ← List.flatMap_cons] at hparse hall
    refine ⟨before.length :: offsets, ?_, .cons hf hall⟩
    rw [List.length_cons, parseFrom, hf.fieldAt, Option.bind_some]
    dsimp only
    rw [hsize, hparse, Option.map_some]

theorem findById_fields {offsets : List Nat} {fields : List (UInt16 × TioData)}
    (h : List.Forall₂ (FieldAt payload) offsets fields) (fieldId : UInt32) :
    findById payload fieldId offsets =
      some (((offsets.zip fields).find? fun x => x.2.1.toUInt32 = fieldId).map Prod.fst) := by
  induction h with
  | nil => rfl
  | cons hf _ ih =>
    rw [findById, hf.fieldAt, Option.bind_some, List.zip_cons_cons, List.find?_cons]
    dsimp only
    split_ifs with hid
    · simp [hid]
    · simp [hid, ih]

/-- A message built by either side, taken as bytes and received, has the same fields in the same order, each is found
under its id, and both sides read the data that was put in. -/
theorem message_round_trip (side : Side) (fields : List (UInt16 × TioData)) (debugSeqNum : UInt16)
    (hcount : fields.length ≤ 65535) (hsize : encodedSize fields < 2 ^ 31 - 4096) :
    ∃ m₀ m b m' r offsets, Message.new = some m₀ ∧ side.addAll m₀ fields = some m ∧
      m.getBuffer debugSeqNum = some (b, m') ∧ receive b = some r ∧ parse r = some offsets ∧
      List.Forall₂ (fun offset f => (∃ h, fieldAt r.payload offset = some h ∧ h.fieldId = f.1) ∧
        fieldToTioData r.payload offset = some f.2 ∧ toCppTioData r.payload offset = some f.2) offsets fields ∧
      ∀ fieldId, findById r.payload fieldId offsets =
        some (((offsets.zip fields).find? fun x => x.2.1.toUInt32 = fieldId).map Prod.fst) := by
  obtain ⟨m₀, hnew, hm₀, hcount₀, -⟩ := Message.new_holding
  obtain ⟨m, hadd, hm, hfields⟩ := side.addAll_holding fields hm₀ (by simpa using hsize)
  rw [List.nil_append] at hm
  rw [encodedSize] at hsize
  obtain ⟨m', hbuffer, -⟩ := Message.getBuffer_holding hm debugSeqNum (by omega)
  have hlen : (fields.flatMap encodeField).length =
      (UInt32.ofNat (fields.flatMap encodeField).length).toNat :=
    (UInt32.toNat_ofNat_of_lt' (show _ < 2 ^ 32 by omega)).symm
  have hreceive := receive_encode ⟨_, m.fieldCount, debugSeqNum⟩ hlen (by omega)
  have hraw : ∀ f ∈ fields, (raw f.2).length < 2 ^ 32 := by
    intro f hf
    obtain ⟨before, after, rfl⟩ := List.append_of_mem hf
    have hf := length_encodeField f
    simp only [List.flatMap_append, List.flatMap_cons, List.length_append] at hsize
    omega
  obtain ⟨offsets, hparse, hall⟩ := parseFrom_fields [] fields hraw
  rw [List.nil_append] at hparse hall
  refine ⟨m₀, m, _, m', _, offsets, hnew, hadd, hbuffer, hreceive, ?_, ?_, findById_fields hall⟩
  · have hn : m.fieldCount.toNat = fields.length := by
      rw [hfields, hcount₀, UInt16.zero_add]
      exact UInt16.toNat_ofNat_of_lt' (show _ < 2 ^ 16 by omega)
    rw [parse, hn]
    exact hparse
  · exact hall.imp fun offset f hf =>
      ⟨⟨_, hf.fieldAt, rfl⟩, (fieldToTioData_eq _ _).trans hf.toCppTioData, hf.toCppTioData⟩

theorem message_round_trip_three_fields :
    ∃ m₀ m b m' r offsets, Message.new = some m₀ ∧
      Side.server.addAll m₀ [(3, .string (ascii "a\r\n")), (4, .int (-1)), (3, .none)] = some m ∧
      m.getBuffer 7 = some (b, m') ∧ receive b = some r ∧ parse r = some offsets ∧
      offsets.map (toCppTioData r.payload) = [some (.string (ascii "a\r\n")), some (.int (-1)), some .none] := by
  obtain ⟨m₀, m, b, m', r, offsets, hnew, hadd, hbuffer, hreceive, hparse, hall, -⟩ :=
    message_round_trip .server [(3, .string (ascii "a\r\n")), (4, .int (-1)), (3, .none)] 7 (by decide) (by decide)
  refine ⟨m₀, m, b, m', r, offsets, hnew, hadd, hbuffer, hreceive, hparse, ?_⟩
  obtain _ | ⟨h₁, _ | ⟨h₂, _ | ⟨h₃, _ | _⟩⟩⟩ := hall
  simp only [List.map_cons, List.map_nil, h₁.2.2, h₂.2.2, h₃.2.2]

end Pr1

end Tiodb
