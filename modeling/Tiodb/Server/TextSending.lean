import Mathlib.Data.List.Flatten
import Tiodb.Data
import Tiodb.Lib.Machine

/-!
# Sending text

`SendString`, `SendStringNow`, `OnWrite` and `InvalidateConnection` of
`TioTcpSession.cpp`. A string goes out at once if nothing is in flight, as
`pendingSendSize_` has it, and else waits in a queue that each completed write takes
one string from.
-/

namespace Tiodb

open Lib

/-- `inFlight` has the buffers of the writes that are not completed. `written` and `accepted` are history: the bytes
of the completed writes, and the strings that `SendString` took. `clientFailed` is a posted `RemoveClient`. -/
structure TextSender where
  valid : Bool
  pendingSendSize : Int32
  maxPendingSendingSize : Int32
  sentBytes : Int32
  pendingSendData : List Bytes
  inFlight : List Bytes
  clientFailed : Bool
  written : Bytes
  accepted : List Bytes
  deriving DecidableEq, Repr

namespace TextSender

def init : TextSender := ⟨true, 0, 0, 0, [], [], false, [], []⟩

def pendingLimit : Int32 := 100 * 1024 * 1024

def increasePendingSendSize (s : TextSender) (size : Int32) : TextSender :=
  { s with
    pendingSendSize := s.pendingSendSize + size
    maxPendingSendingSize := max s.maxPendingSendingSize (s.pendingSendSize + size) }

def sendStringNow (s : TextSender) (str : Bytes) : TextSender :=
  if !s.valid then s
  else { s.increasePendingSendSize (Int32.ofNat str.length) with inFlight := s.inFlight ++ [str] }

def sendString (s : TextSender) (str : Bytes) : TextSender :=
  if !s.valid then s
  else if s.pendingSendSize ≠ 0 then
    if pendingLimit < s.pendingSendSize then { s with clientFailed := true }
    else { s with pendingSendData := s.pendingSendData ++ [str], accepted := s.accepted ++ [str] }
  else { s.sendStringNow str with accepted := s.accepted ++ [str] }

def invalidateConnection (s : TextSender) : TextSender :=
  if !s.valid then s else { s with valid := false, pendingSendData := [], clientFailed := true }

/-- The front of the queue is copied before it is popped. -/
def sendNext (s : TextSender) : TextSender :=
  match s.pendingSendData with
  | [] => s
  | front :: rest => { s.sendStringNow front with pendingSendData := rest }

/-- The write of a buffer is completed: without an error it has sent all the bytes. -/
def onWrite (s : TextSender) (i : Nat) (err : Bool) (sent : Nat) : Option TextSender :=
  match s.inFlight[i]? with
  | none => none
  | some buffer =>
    if if err then sent ≤ buffer.length else sent = buffer.length then
      let s := { s with
        inFlight := s.inFlight.eraseIdx i
        written := s.written ++ buffer.take sent
        pendingSendSize := s.pendingSendSize - Int32.ofNat buffer.length
        sentBytes := s.sentBytes + Int32.ofNat sent }
      some (if err then s.invalidateConnection else s.sendNext)
    else none

inductive Action where
  | sendString (str : Bytes)
  | onWrite (i : Nat) (err : Bool) (sent : Nat)
  deriving DecidableEq, Repr

def step (s : TextSender) : Action → Option TextSender
  | .sendString str => some (s.sendString str)
  | .onWrite i err sent => s.onWrite i err sent

def strings (as : List Action) : List Bytes :=
  as.filterMap fun a => match a with
    | .sendString str => some str
    | .onWrite .. => none

/-- Bytes that went out or are in flight, and then those that wait. -/
def content (s : TextSender) : Bytes := s.written ++ s.inFlight.flatten ++ s.pendingSendData.flatten

/-! ## In the order of the calls -/

theorem counted {n : Nat} (hpos : 0 < n) (hlt : n < 100 * 1024 * 1024) :
    Int32.ofNat n ≠ 0 ∧ ¬ pendingLimit < Int32.ofNat n := by
  have hn : (Int32.ofNat n).toInt = n := Int32.toInt_ofNat_of_lt (by omega)
  constructor
  · intro h
    have h0 := congrArg Int32.toInt h
    rw [hn, Int32.toInt_zero] at h0
    omega
  · rw [Int32.lt_iff_toInt_lt, hn]
    simp [pendingLimit]
    omega

/-- One string is in flight and is what `pendingSendSize_` counts, or none is and none waits. -/
structure Ordered (s : TextSender) : Prop where
  valid : s.valid = true
  inFlight : s.inFlight = [] ∧ s.pendingSendData = [] ∧ s.pendingSendSize = 0 ∨
    ∃ str, s.inFlight = [str] ∧ str ≠ [] ∧ s.pendingSendSize = Int32.ofNat str.length
  waiting : ∀ str ∈ s.pendingSendData, str ≠ []

theorem init_ordered : Ordered init := ⟨rfl, .inl ⟨rfl, rfl, rfl⟩, by simp [init]⟩

theorem Ordered.sendString {s : TextSender} (h : Ordered s) {str : Bytes} (hstr : str ≠ [])
    (hlt : s.content.length < 100 * 1024 * 1024) :
    Ordered (s.sendString str) ∧ (s.sendString str).content = s.content ++ str := by
  unfold TextSender.sendString
  simp only [h.valid, Bool.not_true, Bool.false_eq_true, if_false]
  rcases h.inFlight with ⟨hnone, hempty, hzero⟩ | ⟨front, hone, hfront, hsize⟩
  · rw [if_neg (not_not.mpr hzero)]
    simp only [sendStringNow, h.valid, Bool.not_true, Bool.false_eq_true, if_false, increasePendingSendSize]
    refine ⟨⟨rfl, .inr ⟨str, by simp [hnone], hstr, by simp [hzero]⟩, h.waiting⟩, ?_⟩
    simp [content, hnone, hempty]
  · have hlen : front.length ≤ s.content.length := by
      simp [content, hone]
      omega
    obtain ⟨hne, hnot⟩ := counted (List.length_pos_iff.mpr hfront) (hlen.trans_lt hlt)
    rw [if_pos (hsize ▸ hne), if_neg (hsize ▸ hnot)]
    refine ⟨⟨rfl, .inr ⟨front, hone, hfront, hsize⟩, ?_⟩, by simp [content]⟩
    intro x hx
    rcases List.mem_append.mp hx with hx | hx
    · exact h.waiting x hx
    · exact List.mem_singleton.mp hx ▸ hstr

theorem Ordered.onWrite {s s' : TextSender} (h : Ordered s) {i sent : Nat}
    (hs : s.onWrite i false sent = some s') : Ordered s' ∧ s'.content = s.content := by
  unfold TextSender.onWrite at hs
  rcases h.inFlight with ⟨hnone, -, -⟩ | ⟨str, hone, hstr, hsize⟩
  · simp [hnone] at hs
  cases i with
  | succ i => simp [hone] at hs
  | zero =>
    simp only [hone, List.getElem?_cons_zero, Bool.false_eq_true, if_false, List.eraseIdx_cons_zero] at hs
    split_ifs at hs with hsent
    obtain rfl := Option.some.inj hs
    unfold sendNext
    cases hqueue : s.pendingSendData with
    | nil =>
      refine ⟨⟨h.valid, .inl ⟨rfl, rfl, by simp [hsize]⟩, by simp⟩, ?_⟩
      simp [content, hone, hqueue, hsent]
    | cons front rest =>
      simp only [sendStringNow, h.valid, Bool.not_true, Bool.false_eq_true, if_false, increasePendingSendSize]
      refine ⟨⟨rfl, .inr ⟨front, rfl, h.waiting front (by simp [hqueue]), by simp [hsize]⟩, ?_⟩, ?_⟩
      · exact fun x hx => h.waiting x (by simp [hqueue, hx])
      · simp [content, hone, hqueue, hsent]

/-- Strings that are not empty and writes without error. -/
def Plain : Action → Prop
  | .sendString str => str ≠ []
  | .onWrite _ err _ => err = false

theorem Ordered.run {s s' : TextSender} {as : List Action} (h : Ordered s) (hplain : ∀ a ∈ as, Plain a)
    (hlt : (s.content ++ (strings as).flatten).length < 100 * 1024 * 1024) (hr : Lib.run step s as = some s') :
    Ordered s' ∧ s'.content = s.content ++ (strings as).flatten := by
  induction as generalizing s with
  | nil =>
    obtain rfl : s = s' := by simpa [Lib.run] using hr
    exact ⟨h, by simp [strings]⟩
  | cons a as ih =>
    obtain ⟨t, ht, hrest⟩ := run_cons.mp hr
    have ha := hplain a (by simp)
    have has : ∀ b ∈ as, Plain b := fun b hb => hplain b (by simp [hb])
    cases a with
    | sendString str =>
      obtain rfl := Option.some.inj ht
      have hstrings : (strings (.sendString str :: as)).flatten = str ++ (strings as).flatten := by simp [strings]
      rw [hstrings, ← List.append_assoc] at hlt ⊢
      obtain ⟨h', hcontent⟩ := h.sendString ha (by rw [List.length_append, List.length_append] at hlt; omega)
      rw [← hcontent] at hlt ⊢
      exact ih h' has hlt hrest
    | onWrite i err sent =>
      obtain rfl : err = false := ha
      have hstrings : strings (.onWrite i false sent :: as) = strings as := by simp [strings]
      obtain ⟨h', hcontent⟩ := h.onWrite ht
      rw [hstrings, ← hcontent] at hlt ⊢
      exact ih h' has hlt hrest

/-- Whatever order the strings, below 100 MB in all and none of them empty, and the completed writes come in: at
most one write is in flight, and what went out, what is in flight and what waits are the strings in their order. -/
theorem sends_in_order {s : TextSender} {as : List Action} (hplain : ∀ a ∈ as, Plain a)
    (hlt : (strings as).flatten.length < 100 * 1024 * 1024) (hr : run step init as = some s) :
    s.inFlight.length ≤ 1 ∧ s.written ++ s.inFlight.flatten ++ s.pendingSendData.flatten = (strings as).flatten ∧
      (s.inFlight = [] → s.pendingSendData = []) := by
  obtain ⟨h, hcontent⟩ := init_ordered.run hplain hlt hr
  refine ⟨?_, hcontent, fun hnone => ?_⟩
  · rcases h.inFlight with ⟨hnone, -, -⟩ | ⟨str, hone, -, -⟩
    · simp [hnone]
    · simp [hone]
  · rcases h.inFlight with ⟨-, hempty, -⟩ | ⟨str, hone, -, -⟩
    · exact hempty
    · simp [hone] at hnone

theorem sends_in_order_two : ∃ s, run step init
      [.sendString (ascii "answer ok"), .sendString (ascii "event"), .onWrite 0 false 9] = some s ∧
    s.written ++ s.inFlight.flatten ++ s.pendingSendData.flatten = ascii "answer okevent" := by
  have hplain : ∀ a ∈ [.sendString (ascii "answer ok"), .sendString (ascii "event"), .onWrite 0 false 9],
      Plain a := by
    simp only [List.forall_mem_cons, Plain]
    exact ⟨by decide +kernel, by decide +kernel, trivial, by simp⟩
  exact ⟨_, rfl, (sends_in_order hplain (by decide +kernel) rfl).2.1⟩

/-! ## The limit -/

def bytesInFlight (s : TextSender) : Nat := s.inFlight.flatten.length

def bytesQueued (s : TextSender) : Nat := s.pendingSendData.flatten.length

/-- Bytes that were accepted and are not written. -/
def pendingBytes (s : TextSender) : Nat := s.bytesInFlight + s.bytesQueued

/-- No string is sent to a valid session while at most 100 MB are in flight and the queue brings them over 100 MB, nor
while so much is in flight that the `int` that counts it wraps to one that is not over 100 MB. -/
def InSight (s : TextSender) : Action → Prop
  | .sendString _ => s.valid = true →
      (s.bytesInFlight ≤ 100 * 1024 * 1024 → s.bytesInFlight + s.bytesQueued ≤ 100 * 1024 * 1024) ∧
      (2 ^ 31 ≤ s.bytesInFlight → pendingLimit < Int32.ofNat s.bytesInFlight)
  | .onWrite .. => True

/-- Whether `SendString` takes a string. -/
def Takes (s : TextSender) : Prop :=
  s.valid = true ∧ (s.pendingSendSize = 0 ∨ ¬ pendingLimit < s.pendingSendSize)

/-- `pendingSendSize_` has the bytes in flight, and nothing of the queue. -/
def Counts (s : TextSender) : Prop := s.pendingSendSize = Int32.ofNat s.bytesInFlight

/-- While the session is valid, the last string that was accepted is all that can be past the limit. -/
def Bounded (s : TextSender) : Prop :=
  s.valid = true → s.pendingBytes ≤ 100 * 1024 * 1024 + (s.accepted.getLast?.getD []).length

theorem init_counts : Counts init := rfl

theorem Counts.sendStringNow {s : TextSender} (h : Counts s) (str : Bytes) : Counts (s.sendStringNow str) := by
  unfold Counts bytesInFlight TextSender.sendStringNow increasePendingSendSize at *
  split_ifs
  · exact h
  · simp [h, Int32.ofNat_add]

theorem Counts.sendString {s : TextSender} (h : Counts s) (str : Bytes) : Counts (s.sendString str) := by
  unfold TextSender.sendString
  split_ifs
  · exact h
  · exact h
  · exact h
  · exact h.sendStringNow str

theorem Counts.sendNext {s : TextSender} (h : Counts s) : Counts s.sendNext := by
  unfold TextSender.sendNext
  cases s.pendingSendData with
  | nil => exact h
  | cons front rest => exact h.sendStringNow front

theorem Counts.invalidateConnection {s : TextSender} (h : Counts s) : Counts s.invalidateConnection := by
  unfold TextSender.invalidateConnection
  split_ifs <;> exact h

theorem Counts.onWrite {s s' : TextSender} (h : Counts s) {i sent : Nat} {err : Bool}
    (hs : s.onWrite i err sent = some s') : Counts s' := by
  unfold TextSender.onWrite at hs
  cases hbuffer : s.inFlight[i]? with
  | none => simp [hbuffer] at hs
  | some buffer =>
    have hsum : s.bytesInFlight = (s.inFlight.eraseIdx i).flatten.length + buffer.length := by
      obtain ⟨hi, rfl⟩ := List.getElem?_eq_some_iff.mp hbuffer
      have hsplit : s.inFlight = s.inFlight.take i ++ s.inFlight[i] :: s.inFlight.drop (i + 1) := by
        rw [← List.drop_eq_getElem_cons hi, List.take_append_drop]
      have hflat := congrArg (fun l : List Bytes => l.flatten.length) hsplit
      simp only [List.flatten_append, List.flatten_cons, List.length_append] at hflat
      rw [bytesInFlight, List.eraseIdx_eq_take_drop_succ, List.flatten_append, List.length_append, hflat]
      omega
    have hless : s.pendingSendSize - Int32.ofNat buffer.length =
        Int32.ofNat (s.inFlight.eraseIdx i).flatten.length := by
      rw [h, hsum, Int32.ofNat_add, Int32.add_sub_cancel]
    simp only [hbuffer] at hs
    split_ifs at hs
    · obtain rfl := Option.some.inj hs
      exact Counts.invalidateConnection hless
    · obtain rfl := Option.some.inj hs
      exact Counts.sendNext hless

theorem Counts.step {s s' : TextSender} (h : Counts s) {a : Action} (hs : step s a = some s') : Counts s' := by
  cases a with
  | sendString str =>
    obtain rfl := Option.some.inj hs
    exact h.sendString str
  | onWrite i err sent => exact h.onWrite hs

/-- A session is cut off while more than 100 MB are in flight, unless the count wraps. -/
theorem takes_iff {s : TextSender} (h : Counts s) : s.Takes ↔ s.valid = true ∧
    (s.bytesInFlight ≤ 100 * 1024 * 1024 ∨
      2 ^ 31 ≤ s.bytesInFlight ∧ ¬ pendingLimit < Int32.ofNat s.bytesInFlight) := by
  rw [Takes, h]
  refine and_congr_right fun _ => ?_
  by_cases hlt : s.bytesInFlight < 2 ^ 31
  · have hn : (Int32.ofNat s.bytesInFlight).toInt = s.bytesInFlight := Int32.toInt_ofNat_of_lt hlt
    have hlimit : pendingLimit < Int32.ofNat s.bytesInFlight ↔ 100 * 1024 * 1024 < s.bytesInFlight := by
      have hpending : pendingLimit.toInt = 104857600 := rfl
      rw [Int32.lt_iff_toInt_lt, hn, hpending]
      omega
    have hzero : Int32.ofNat s.bytesInFlight = 0 ↔ s.bytesInFlight = 0 := by
      rw [← Int32.toInt_inj, hn, Int32.toInt_zero]
      omega
    rw [hzero, hlimit]
    omega
  · have hle : ¬ s.bytesInFlight ≤ 100 * 1024 * 1024 := by omega
    have hge : 2 ^ 31 ≤ s.bytesInFlight := by omega
    simp only [hle, hge, false_or, true_and, or_iff_right_iff_imp]
    intro hzero
    rw [hzero]
    decide

theorem sendString_takes {s : TextSender} (h : s.Takes) (str : Bytes) :
    (s.sendString str).valid = true ∧ (s.sendString str).accepted = s.accepted ++ [str] ∧
      (s.sendString str).pendingBytes = s.pendingBytes + str.length := by
  obtain ⟨hvalid, htakes⟩ := h
  unfold sendString pendingBytes bytesInFlight bytesQueued
  simp only [hvalid, Bool.not_true, Bool.false_eq_true, if_false]
  by_cases hzero : s.pendingSendSize = 0
  · simp [hzero, sendStringNow, hvalid, increasePendingSendSize]
    omega
  · simp [hzero, htakes.resolve_left hzero]
    omega

theorem sendString_refuses {s : TextSender} (h : ¬ s.Takes) (str : Bytes) :
    (s.sendString str).valid = s.valid ∧ (s.sendString str).accepted = s.accepted ∧
      (s.sendString str).pendingBytes = s.pendingBytes := by
  unfold sendString
  by_cases hvalid : s.valid = true
  · have hfull : ¬ s.pendingSendSize = 0 ∧ pendingLimit < s.pendingSendSize := by
      simpa [Takes, hvalid, not_or] using h
    simp [hvalid, hfull, pendingBytes, bytesInFlight, bytesQueued]
  · simp [hvalid]

theorem sendNext_valid (s : TextSender) : s.sendNext.valid = s.valid := by
  unfold sendNext sendStringNow increasePendingSendSize
  split
  · rfl
  · split_ifs <;> rfl

theorem sendNext_bytes {s : TextSender} (hvalid : s.valid = true) :
    s.sendNext.accepted = s.accepted ∧ s.sendNext.pendingBytes = s.pendingBytes := by
  unfold sendNext
  cases hqueue : s.pendingSendData with
  | nil => exact ⟨rfl, rfl⟩
  | cons front rest =>
    simp [sendStringNow, hvalid, increasePendingSendSize, pendingBytes, bytesInFlight, bytesQueued, hqueue]
    omega

theorem invalidateConnection_valid (s : TextSender) : s.invalidateConnection.valid = false := by
  unfold invalidateConnection
  split_ifs with h
  · simpa using h
  · rfl

theorem onWrite_bounded {s s' : TextSender} {i sent : Nat} {err : Bool} (h : Bounded s)
    (hs : s.onWrite i err sent = some s') : Bounded s' := by
  unfold onWrite at hs
  cases hbuffer : s.inFlight[i]? with
  | none => simp [hbuffer] at hs
  | some buffer =>
    simp only [hbuffer] at hs
    split_ifs at hs
    · obtain rfl := Option.some.inj hs
      exact fun hvalid => by simp [invalidateConnection_valid] at hvalid
    · obtain rfl := Option.some.inj hs
      intro hvalid
      rw [sendNext_valid] at hvalid
      obtain ⟨haccepted, hbytes⟩ := sendNext_bytes hvalid
      rw [haccepted, hbytes]
      have hless : (s.inFlight.eraseIdx i).flatten.length ≤ s.inFlight.flatten.length :=
        (List.eraseIdx_sublist ..).flatten.length_le
      exact le_trans (Nat.add_le_add_right hless _) (h hvalid)

theorem step_bounded_iff {s s' : TextSender} {a : Action} (hcounts : Counts s) (h : Bounded s)
    (hs : step s a = some s') : Bounded s' ↔ InSight s a := by
  cases a with
  | onWrite i err sent => exact iff_of_true (onWrite_bounded h hs) trivial
  | sendString str =>
    obtain rfl := Option.some.inj hs
    by_cases htakes : s.Takes
    · obtain ⟨hvalid, haccepted, hbytes⟩ := sendString_takes htakes str
      obtain ⟨hv, hcases⟩ := (takes_iff hcounts).mp htakes
      have hlimit : Bounded (s.sendString str) ↔ s.bytesInFlight + s.bytesQueued ≤ 100 * 1024 * 1024 := by
        rw [Bounded, hvalid, haccepted, hbytes, pendingBytes, List.getLast?_concat]
        simp
      rw [hlimit]
      simp only [InSight, hv, forall_const]
      rcases hcases with hfew | ⟨hmany, hwraps⟩
      · have hnot : ¬ 2 ^ 31 ≤ s.bytesInFlight := by omega
        exact ⟨fun hle => ⟨fun _ => hle, fun hmany => absurd hmany hnot⟩, fun hin => hin.1 hfew⟩
      · refine iff_of_false ?_ (fun hin => hwraps (hin.2 hmany))
        omega
    · obtain ⟨hvalid, haccepted, hbytes⟩ := sendString_refuses htakes str
      refine iff_of_true ?_ fun hv => ?_
      · rw [Bounded, hvalid, haccepted, hbytes]
        exact h
      · have hcases := fun hcases => htakes ((takes_iff hcounts).mpr ⟨hv, hcases⟩)
        exact ⟨fun hfew => absurd (.inl hfew) hcases,
          fun hmany => not_not.mp fun hwraps => hcases (.inr ⟨hmany, hwraps⟩)⟩

/-- What is accepted and not written stays under the limit and one string, in every state of the run, exactly if no
string is sent where the bytes in flight alone hide that the limit is passed. -/
theorem pending_bounded_iff (as : List Action) :
    (∀ bs s, bs <+: as → run step init bs = some s → Bounded s) ↔ Meets step InSight init as := by
  have hany : ∀ a ∈ as, (fun _ : Action => True) a := fun _ _ => trivial
  refine forall_prefix_iff_meets_of (I := fun s => Counts s ∧ Bounded s) (fun s h => h.2)
    (fun s a s' h _ hok hs => ⟨h.1.step hs, (step_bounded_iff h.1 h.2 hs).mpr hok⟩)
    (fun s a h _ hall => ?_) hany ⟨init_counts, fun _ => Nat.zero_le _⟩
  cases hs : step s a with
  | some s' => exact (step_bounded_iff h.1 h.2 hs).mp (hall s' hs)
  | none =>
    cases a with
    | sendString str => simp [step] at hs
    | onWrite i err sent => trivial

theorem run_queues {s : TextSender} (hvalid : s.valid = true) (hsize : s.pendingSendSize ≠ 0)
    (hlimit : ¬ pendingLimit < s.pendingSendSize) (strs : List Bytes) :
    run step s (strs.map .sendString) = some { s with
      pendingSendData := s.pendingSendData ++ strs, accepted := s.accepted ++ strs } := by
  induction strs generalizing s with
  | nil => simp
  | cons str strs ih =>
    have hs : s.sendString str = { s with
        pendingSendData := s.pendingSendData ++ [str], accepted := s.accepted ++ [str] } := by
      simp [sendString, hvalid, hsize, hlimit]
    rw [List.map_cons]
    refine run_cons.mpr ⟨_, congrArg some hs, ?_⟩
    refine (ih (by exact hvalid) (by exact hsize) (by exact hlimit)).trans ?_
    simp

/-- One byte was sent, and the client does not read it. -/
def oneInFlight : TextSender :=
  { init with pendingSendSize := 1, maxPendingSendingSize := 1, inFlight := [[0]], accepted := [[0]] }

theorem run_three (str : Bytes) : ∃ s, run step init (.sendString [0] :: List.replicate 3 (.sendString str)) = some s ∧
    s.valid = true ∧ s.accepted = [0] :: List.replicate 3 str ∧ s.pendingBytes = 1 + 3 * str.length := by
  have hone : step init (.sendString [0]) = some oneInFlight := by decide +kernel
  have hrest := run_queues (show oneInFlight.valid = true from rfl) (by decide) (by decide) (List.replicate 3 str)
  rw [List.map_replicate] at hrest
  refine ⟨_, run_cons.mpr ⟨_, hone, hrest⟩, rfl, rfl, ?_⟩
  simp [pendingBytes, bytesInFlight, bytesQueued, oneInFlight, init]
  omega

theorem slow_client_stays : ∃ s, run step init
      (.sendString [0] :: List.replicate 3 (.sendString (List.replicate (60 * 1024 * 1024) 0))) = some s ∧
    s.valid = true ∧ ∀ str ∈ s.accepted, 100 * 1024 * 1024 + str.length < s.pendingBytes := by
  obtain ⟨s, hr, hvalid, haccepted, hbytes⟩ := run_three (List.replicate (60 * 1024 * 1024) 0)
  refine ⟨s, hr, hvalid, fun str hstr => ?_⟩
  rw [haccepted] at hstr
  rw [hbytes, List.length_replicate]
  rcases List.mem_cons.mp hstr with rfl | hstr
  · rw [List.length_singleton]
    omega
  · rw [List.eq_of_mem_replicate hstr, List.length_replicate]
    omega

end TextSender

end Tiodb
