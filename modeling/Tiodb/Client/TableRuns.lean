import Tiodb.Client.Containers

/-!
# What the container table keeps

Over whole runs of a client and its session: no entry is freed, the callback of a
container is the one that its handle leads to, and no event finds an empty entry.
-/

namespace Tiodb.Client.Table

open Lib

/-! ## The connection -/

namespace Connection

/-- The container under a handle. -/
def entry (s : Connection) (handle : Int32) : Option Nat :=
  if 0 ≤ handle then s.containers[handle.toNatClampNeg]?.join else none

structure Tidy (s : Connection) : Prop where
  fault : s.fault = none
  quiet : s.pendingEvents = []
  eager : s.maxPendingEventCount = 0
  sized : 0 < s.containers.length ∧ s.containers.length < 2 ^ 31
  entries : ∀ handle i, s.entry handle = some i → ∃ c, s.heap i = some c ∧ c.handle = handle
  indexed : ∀ i c, s.heap i = some c → 0 ≤ c.handle ∧ c.handle.toNatClampNeg < s.containers.length
  numbered : ∀ i c, s.heap i = some c → i < s.mallocs

theorem tioConnect_entry (handle : Int32) : tioConnect.entry handle = none := by
  unfold entry tioConnect
  split
  · rw [List.getElem?_replicate]
    split <;> rfl
  · rfl

theorem tioConnect_tidy : Tidy tioConnect where
  fault := rfl
  quiet := rfl
  eager := rfl
  sized := by simp [tioConnect]
  entries := by
    intro handle i h
    rw [tioConnect_entry] at h
    cases h
  indexed := by
    intro i c h
    cases h
  numbered := by
    intro i c h
    cases h

theorem index_inj {h h' : Int32} (hh : 0 ≤ h) (hh' : 0 ≤ h') (he : h.toNatClampNeg = h'.toNatClampNeg) : h = h' := by
  rw [Int32.le_iff_toInt_le] at hh hh'
  simp only [Int32.toInt_zero] at hh hh'
  simp only [Int32.toNatClampNeg] at he
  rw [← Int32.toInt_inj]
  omega

theorem exists_handle {n : Nat} (h : n < 2 ^ 31) : ∃ handle : Int32, 0 ≤ handle ∧ handle.toNatClampNeg = n := by
  have hint : (Int32.ofNat n).toInt = n := Int32.toInt_ofNat_of_lt h
  refine ⟨Int32.ofNat n, ?_, ?_⟩
  · rw [Int32.le_iff_toInt_le, hint]
    simp
  · simp [Int32.toNatClampNeg, hint]

theorem entry_set {s : Connection} {handle handle' : Int32} {e : Option Nat} (hh : 0 ≤ handle)
    (hlt : handle.toNatClampNeg < s.containers.length) :
    { s with containers := s.containers.set handle.toNatClampNeg e }.entry handle' =
      if handle' = handle then e else s.entry handle' := by
  unfold entry
  dsimp only
  rw [List.getElem?_set]
  by_cases he : handle' = handle
  · subst he
    simp [hh, hlt]
  · by_cases hh' : 0 ≤ handle'
    · have hne : handle.toNatClampNeg ≠ handle'.toNatClampNeg := fun h => he (index_inj hh hh' h).symm
      simp [he, hne]
    · simp [he, hh']

theorem entry_append (s : Connection) (n : Nat) (handle : Int32) :
    { s with containers := s.containers ++ List.replicate n none }.entry handle = s.entry handle := by
  unfold entry
  dsimp only
  rw [List.getElem?_append, List.getElem?_replicate]
  split
  · split
    · rfl
    · rename_i hge
      rw [List.getElem?_eq_none (not_lt.mp hge)]
      split <;> rfl
  · rfl

theorem lookup_of_entry {s : Connection} {handle : Int32} {i : Nat} {c : Container} (he : s.entry handle = some i)
    (hc : s.heap i = some c) : s.lookup handle = .ok (i, c) := by
  unfold entry at he
  split at he
  · rename_i hh
    rw [Option.join_eq_some_iff] at he
    simp only [lookup, if_pos hh, he, hc]
  · cases he

theorem setEntry_eq {s : Connection} {handle : Int32} (e : Option Nat) (hh : 0 ≤ handle)
    (hlt : handle.toNatClampNeg < s.containers.length) :
    s.setEntry handle e = { s with containers := s.containers.set handle.toNatClampNeg e } :=
  if_pos ⟨hh, hlt⟩

/-- The handles for which the size of the table can be computed. -/
def InRange (handle : Int32) : Prop := 0 ≤ handle ∧ handle.toInt * 2 < 2 ^ 31

instance : DecidablePred InRange := fun _ => inferInstanceAs (Decidable (_ ∧ _))

/-- The size of the table is not to be computed, or can be. -/
def Fits (length : Nat) (handle : Int32) : Prop := handle.toInt < length ∨ handle.toInt * 2 < 2 ^ 31

/-- The length of the table after `registerContainer`. -/
def grownLength (length : Nat) (handle : Int32) : Nat :=
  if handle.toInt < length then length else handle.toNatClampNeg * 2

theorem index_eq {handle : Int32} (hh : 0 ≤ handle) : (handle.toNatClampNeg : Int) = handle.toInt := by
  rw [Int32.le_iff_toInt_le] at hh
  exact Int.toNat_of_nonneg hh

theorem lt_grownLength {length : Nat} {handle : Int32} (hlength : 0 < length) (hh : 0 ≤ handle) :
    handle.toNatClampNeg < grownLength length handle := by
  have := index_eq hh
  unfold grownLength
  split <;> omega

theorem grownLength_lt {length : Nat} {handle : Int32} (hlength : length < 2 ^ 31) (hh : InRange handle) :
    grownLength length handle < 2 ^ 31 := by
  have := index_eq hh.1
  have := hh.2
  unfold grownLength
  split <;> omega

theorem growContainers_eq {s : Connection} {handle : Int32} (hh : 0 ≤ handle)
    (hfits : Fits s.containers.length handle) :
    ∃ n, s.growContainers handle = { s with containers := s.containers ++ List.replicate n none } ∧
      s.containers.length + n = grownLength s.containers.length handle := by
  have hidx := index_eq hh
  unfold Fits at hfits
  unfold growContainers grownLength
  split
  · exact ⟨0, by simp, by omega⟩
  · rw [if_neg (by omega)]
    exact ⟨_, rfl, by omega⟩

theorem registerContainer_eq {s : Connection} {handle : Int32} (hfault : s.fault = none)
    (hsized : 0 < s.containers.length) (hh : 0 ≤ handle)
    (hfits : Fits s.containers.length handle) (name : Bytes) (groupName : Option Bytes) :
    ∃ n, s.registerContainer (some handle) name groupName = { s with
        heap := Function.update s.heap s.mallocs (some { handle, groupName, name })
        mallocs := s.mallocs + 1
        containers := (s.containers ++ List.replicate n none).set handle.toNatClampNeg (some s.mallocs) } ∧
      s.containers.length + n = grownLength s.containers.length handle := by
  let t : Connection :=
    { s with
      heap := Function.update s.heap s.mallocs (some { handle, groupName, name })
      mallocs := s.mallocs + 1 }
  obtain ⟨n, hgrow, hlength⟩ := growContainers_eq (s := t) hh hfits
  refine ⟨n, ?_, hlength⟩
  have hlt : handle.toNatClampNeg < (s.containers ++ List.replicate n none).length := by
    rw [List.length_append, List.length_replicate, hlength]
    exact lt_grownLength hsized hh
  change (if (t.growContainers handle).fault.isSome then t.growContainers handle
    else (t.growContainers handle).setEntry handle (some ((t.growContainers handle).mallocs - 1))) = _
  rw [hgrow, if_neg (by simp [t, hfault])]
  exact setEntry_eq (some s.mallocs) hh hlt

theorem entry_registered {s : Connection} {handle : Int32} {n : Nat} (hh : 0 ≤ handle)
    (hlt : handle.toNatClampNeg < s.containers.length + n) (i : Nat) (h : Int32) :
    { s with containers := (s.containers ++ List.replicate n none).set handle.toNatClampNeg (some i) }.entry h =
      if h = handle then some i else s.entry h := by
  let u : Connection := { s with containers := s.containers ++ List.replicate n none }
  have hlt' : handle.toNatClampNeg < u.containers.length := by
    simpa only [u, List.length_append, List.length_replicate] using hlt
  exact (entry_set (s := u) hh hlt').trans (by rw [entry_append])

theorem Tidy.registerContainer {s : Connection} (hs : s.Tidy) {handle : Int32} (hh : InRange handle) (name : Bytes)
    (groupName : Option Bytes) :
    let s' := s.registerContainer (some handle) name groupName
    s'.Tidy ∧ s'.heap = Function.update s.heap s.mallocs (some { handle, groupName, name }) ∧
      ∀ h, s'.entry h = if h = handle then some s.mallocs else s.entry h := by
  intro s'
  obtain ⟨n, hs', hlength⟩ := registerContainer_eq hs.fault hs.sized.1 hh.1 (.inr hh.2) name groupName
  change s' = _ at hs'
  have hlt : handle.toNatClampNeg < s.containers.length + n := hlength ▸ lt_grownLength hs.sized.1 hh.1
  have hlen' : s'.containers.length = s.containers.length + n := by
    rw [hs', List.length_set, List.length_append, List.length_replicate]
  have hentry (h : Int32) : s'.entry h = if h = handle then some s.mallocs else s.entry h := by
    rw [hs']
    exact entry_registered hh.1 hlt s.mallocs h
  have hheap : s'.heap = Function.update s.heap s.mallocs (some { handle, groupName, name }) := by rw [hs']
  have hlen : s.containers.length ≤ s'.containers.length := by omega
  refine ⟨⟨?_, ?_, ?_, ?_, ?_, ?_, ?_⟩, hheap, hentry⟩
  · rw [hs']
    exact hs.fault
  · rw [hs']
    exact hs.quiet
  · rw [hs']
    exact hs.eager
  · refine ⟨hs.sized.1.trans_le hlen, ?_⟩
    rw [hlen', hlength]
    exact grownLength_lt hs.sized.2 hh
  · intro h i hi
    rw [hentry] at hi
    rw [hheap]
    split at hi
    · obtain rfl := Option.some.inj hi
      rename_i he
      exact ⟨_, Function.update_self .., he.symm⟩
    · obtain ⟨c, hc, hch⟩ := hs.entries h i hi
      rw [Function.update_of_ne (hs.numbered i c hc).ne]
      exact ⟨c, hc, hch⟩
  · intro i c hc
    rw [hheap] at hc
    by_cases hi : i = s.mallocs
    · subst hi
      rw [Function.update_self] at hc
      obtain rfl := Option.some.inj hc
      exact ⟨hh.1, hlen' ▸ hlt⟩
    · rw [Function.update_of_ne hi] at hc
      exact ⟨(hs.indexed i c hc).1, (hs.indexed i c hc).2.trans_le hlen⟩
  · intro i c hc
    have hm : s'.mallocs = s.mallocs + 1 := by rw [hs']
    rw [hheap] at hc
    by_cases hi : i = s.mallocs
    · omega
    · rw [Function.update_of_ne hi] at hc
      have := hs.numbered i c hc
      omega

@[simp] theorem modifyContainer_heap (s : Connection) (i : Nat) (f : Container → Container) :
    (s.modifyContainer i f).heap = Function.update s.heap i ((s.heap i).map f) := rfl

@[simp] theorem modifyContainer_entry (s : Connection) (i : Nat) (f : Container → Container) :
    (s.modifyContainer i f).entry = s.entry := rfl

@[simp] theorem free_heap (s : Connection) (i : Nat) : (s.free i).heap = Function.update s.heap i none := rfl

@[simp] theorem free_entry (s : Connection) (i : Nat) : (s.free i).entry = s.entry := rfl

theorem Tidy.modifyContainer {s : Connection} (hs : s.Tidy) (i : Nat) {f : Container → Container}
    (hf : ∀ c, (f c).handle = c.handle) : (s.modifyContainer i f).Tidy := by
  have hheap (j : Nat) (c : Container) (h : (s.modifyContainer i f).heap j = some c) :
      ∃ c', s.heap j = some c' ∧ c.handle = c'.handle := by
    rw [modifyContainer_heap] at h
    by_cases hj : j = i
    · subst hj
      rw [Function.update_self] at h
      obtain ⟨c', hc', rfl⟩ := Option.map_eq_some_iff.mp h
      exact ⟨c', hc', hf c'⟩
    · rw [Function.update_of_ne hj] at h
      exact ⟨c, h, rfl⟩
  refine ⟨hs.fault, hs.quiet, hs.eager, hs.sized, ?_, ?_, ?_⟩
  · intro h j hj
    obtain ⟨c, hc, hch⟩ := hs.entries h j hj
    rw [modifyContainer_heap]
    by_cases hji : j = i
    · subst hji
      refine ⟨f c, ?_, (hf c).trans hch⟩
      rw [Function.update_self, hc, Option.map_some]
    · rw [Function.update_of_ne hji]
      exact ⟨c, hc, hch⟩
  · intro j c hc
    obtain ⟨c', hc', hh⟩ := hheap j c hc
    rw [hh]
    exact hs.indexed j c' hc'
  · intro j c hc
    obtain ⟨c', hc', -⟩ := hheap j c hc
    exact hs.numbered j c' hc'

theorem Tidy.free {s : Connection} (hs : s.Tidy) {i : Nat} (hi : ∀ handle, s.entry handle ≠ some i) :
    (s.free i).Tidy := by
  have hheap (j : Nat) (c : Container) (h : (s.free i).heap j = some c) : s.heap j = some c := by
    rw [free_heap] at h
    by_cases hj : j = i
    · subst hj
      rw [Function.update_self] at h
      cases h
    · rwa [Function.update_of_ne hj] at h
  refine ⟨hs.fault, hs.quiet, hs.eager, hs.sized, ?_, fun j c hc => hs.indexed j c (hheap j c hc),
    fun j c hc => hs.numbered j c (hheap j c hc)⟩
  intro h j hj
  have hji : j ≠ i := fun he => hi h (he ▸ hj)
  rw [free_heap, Function.update_of_ne hji]
  exact hs.entries h j hj

theorem Tidy.clearEntry {s : Connection} (hs : s.Tidy) {handle : Int32} (hh : 0 ≤ handle)
    (hlt : handle.toNatClampNeg < s.containers.length) :
    (s.setEntry handle none).Tidy ∧ (s.setEntry handle none).heap = s.heap ∧
      ∀ h, (s.setEntry handle none).entry h = if h = handle then none else s.entry h := by
  rw [setEntry_eq none hh hlt]
  refine ⟨⟨hs.fault, hs.quiet, hs.eager, ?_, ?_, ?_, hs.numbered⟩, rfl, fun h => entry_set hh hlt⟩
  · simpa only [List.length_set] using hs.sized
  · intro h i hi
    rw [entry_set hh hlt] at hi
    split at hi
    · cases hi
    · exact hs.entries h i hi
  · intro i c hc
    simpa only [List.length_set] using hs.indexed i c hc

theorem Tidy.tioCloseAnswered {s : Connection} (hs : s.Tidy) {i : Nat} {c : Container} (hc : s.heap i = some c)
    {failed : Bool} (hfailed : failed = true → s.entry c.handle ≠ some i) :
    let s' := s.tioCloseAnswered i c.handle failed
    s'.Tidy ∧ s'.heap = Function.update s.heap i none ∧
      ∀ h, s'.entry h = if h = c.handle ∧ failed = false then none else s.entry h := by
  -- the only entry that can lead to the container is that of its handle
  have hother (h : Int32) (hh : h ≠ c.handle) : s.entry h ≠ some i := by
    intro he
    obtain ⟨c', hc', hch⟩ := hs.entries h i he
    obtain rfl := Option.some.inj (hc.symm.trans hc')
    exact hh hch.symm
  intro s'
  cases failed with
  | true =>
    refine ⟨hs.free fun h => ?_, rfl, fun h => by simp [s', Connection.tioCloseAnswered]⟩
    by_cases hh : h = c.handle
    · subst hh
      exact hfailed rfl
    · exact hother h hh
  | false =>
    obtain ⟨hh, hlt⟩ := hs.indexed i c hc
    obtain ⟨htidy, hheap, hentry⟩ := hs.clearEntry hh hlt
    refine ⟨htidy.free fun h => ?_, ?_, fun h => ?_⟩
    · rw [hentry]
      split
      · simp
      · rename_i hne
        exact hother h hne
    · simp only [s', Connection.tioCloseAnswered, Bool.false_eq_true, if_false, free_heap, hheap]
    · simp only [s', Connection.tioCloseAnswered, Bool.false_eq_true, if_false, free_entry, hentry, and_true]

theorem Tidy.onEventReceive {s : Connection} (hs : s.Tidy) {e : EventMessage} {i : Nat}
    (he : s.entry e.handle = some i) :
    ∃ invoked, s.onEventReceive e = { s with invoked } := by
  obtain ⟨c, hc, -⟩ := hs.entries e.handle i he
  have hlook := lookup_of_entry he hc
  have hone : s.onEventReceive e = { s with pendingEvents := [] }.dispatchEvents [e] := by
    unfold Connection.onEventReceive tioDispatchPendingEvents
    simp [hs.quiet, hs.eager]
  have hs0 : { s with pendingEvents := [] } = s := by
    rw [← hs.quiet]
  rw [hone, hs0]
  unfold dispatchEvents dispatchEvent
  rw [hlook]
  dsimp only
  rcases s.target c e.eventCode with ⟨_ | callback, cookie⟩
  · refine ⟨s.invoked, ?_⟩
    simp only [hs.fault, Option.isSome_none, Bool.false_eq_true, if_false, dispatchEvents]
    rw [← hs.fault]
  · refine ⟨s.invoked ++ [⟨callback, i, cookie, c.groupName, c.name, e⟩], ?_⟩
    simp only [hs.fault, Option.isSome_none, Bool.false_eq_true, if_false, dispatchEvents]

theorem Tidy.tioDispatchPendingEvents {s : Connection} (hs : s.Tidy) (maxEvents : Nat) :
    s.tioDispatchPendingEvents maxEvents = s := by
  unfold Connection.tioDispatchPendingEvents
  rw [hs.quiet, List.drop_nil, List.take_nil, dispatchEvents, ← hs.quiet]

end Connection

/-! ## The client that reads the wire -/

/-- What the answer that the client waits for does to the table. -/
inductive Pending where
  | register
  | clear (handle : Int32)
  | keep

def Call.pending : Call → Pending
  | .createOrOpen _ => .register
  | .close _ handle => .clear handle
  | .subscribe .. => .keep
  | .other => .keep

def Request.pending : Request → Pending
  | .createOrOpen _ => .register
  | .close handle => .clear handle
  | .other => .keep

/-- The client as the messages see it: what it waits for, and the handles that have an entry. -/
structure Reader where
  pending : Option Pending
  filled : Int32 → Prop

namespace Reader

def fill (r : Reader) (handle : Int32) : Reader := { r with filled := fun h => h = handle ∨ r.filled h }

def clear (r : Reader) (handle : Int32) : Reader := { r with filled := fun h => h ≠ handle ∧ r.filled h }

def answered (r : Reader) (a : Answer) : Pending → Reader
  | .register => if a.failed then r else a.handle.elim r r.fill
  | .clear handle => if a.failed then r else r.clear handle
  | .keep => r

def next (r : Reader) : Message → Reader
  | .event _ => r
  | .newGroupContainer handle _ _ => r.fill handle
  | .answer a => { r with pending := none }.answered a (r.pending.getD .keep)

/-- An event needs an entry, and an answer a function that waits for it. -/
def Needs (r : Reader) : Message → Prop
  | .event e => r.filled e.handle
  | .newGroupContainer .. => True
  | .answer _ => r.pending.isSome

end Reader

namespace Conversation

def reader (s : Conversation) : Reader :=
  ⟨s.call.map Call.pending, fun handle => (s.connection.entry handle).isSome⟩

/-- When the client has read everything, it has entries for the handles that it was told of and did not close, and
waits for the answer to its request. -/
def UpToDate (s : Conversation) (r : Reader) : Prop :=
  (∀ handle, r.filled handle ↔ handle ∈ s.opened) ∧ r.pending = s.request.map Request.pending

/-- The containers that the function that waits will write to. -/
def Held (s : Conversation) : Call → Prop
  | .close i handle => ∃ c, s.connection.heap i = some c ∧ c.handle = handle
  | .subscribe i _ _ => (s.connection.heap i).isSome
  | _ => True

/-- What is installed is on a container that its handle leads to. -/
def Installed (connection : Connection) (installed : Nat → Option (Nat × Nat)) : Prop :=
  ∀ i callback cookie, installed i = some (callback, cookie) →
    ∃ c, connection.heap i = some c ∧ connection.entry c.handle = some i ∧
      c.groupName = none ∧ c.eventCallback = some callback ∧ c.subscriptionCookie = cookie

structure Kept (s : Conversation) : Prop where
  tidy : s.connection.Tidy
  installed : Installed s.connection s.installed
  held : ∀ call, s.call = some call → s.Held call

structure Inv (s : Conversation) : Prop extends s.Kept where
  inFlight : Along Reader.Needs Reader.next s.UpToDate s.reader s.wire

theorem start_inv : Inv start where
  tidy := Connection.tioConnect_tidy
  installed := by
    intro i callback cookie h
    cases h
  held := by
    intro call h
    cases h
  inFlight := by
    refine ⟨fun handle => ?_, rfl⟩
    simp [reader, start, Connection.tioConnect_entry]

/-! ## The condition -/

/-- No callback is installed on the container under the handle. -/
def Unsubscribed (s : Conversation) (handle : Int32) : Prop :=
  ∀ i ∈ s.connection.entry handle, ∀ c ∈ s.connection.heap i, c.eventCallback = none

/-- What a function that waits finds when it is answered. -/
def CarefulAnswer (s : Conversation) (a : Answer) : Call → Prop
  -- nothing that is subscribed is under the handle
  | .createOrOpen _ => a.failed = false → ∀ handle ∈ a.handle, Connection.InRange handle ∧ s.Unsubscribed handle
  -- a close that failed is not one of the container in the table, and one that succeeded not one of a container that
  -- another one took the place of, which is subscribed
  | .close i handle =>
    if a.failed then s.connection.entry handle ≠ some i
    else s.connection.entry handle = some i ∨ s.Unsubscribed handle
  -- the container that is subscribed is the one in the table, and is not of a group
  | .subscribe i callback _ =>
    a.failed = false → callback ≠ none → ∀ c ∈ s.connection.heap i,
      s.connection.entry c.handle = some i ∧ c.groupName = none
  | .other => True

def CarefulMessage (s : Conversation) : Message → Prop
  | .event _ => True
  | .newGroupContainer handle _ _ => Connection.InRange handle ∧ s.Unsubscribed handle
  | .answer a => ∀ call ∈ s.call, s.CarefulAnswer a call

/-- The server sends events only under handles that the client did not close. -/
def Careful (s : Conversation) : Step → Prop
  | .receive => ∀ m ∈ s.wire.head?, s.CarefulMessage m
  | .publishEvent handle _ _ _ _ => handle ∈ s.opened
  | _ => True

instance (s : Conversation) (handle : Int32) : Decidable (s.Unsubscribed handle) :=
  inferInstanceAs (Decidable (∀ i ∈ s.connection.entry handle, ∀ c ∈ s.connection.heap i, c.eventCallback = none))

instance (s : Conversation) (a : Answer) : DecidablePred (s.CarefulAnswer a)
  | .createOrOpen _ =>
    -- not by trying every handle there is
    have : Decidable (∀ handle ∈ a.handle, Connection.InRange handle ∧ s.Unsubscribed handle) :=
      Option.decidableForallMem a.handle
    inferInstanceAs (Decidable (a.failed = false → ∀ handle ∈ a.handle, _ ∧ _))
  | .close _ _ => inferInstanceAs (Decidable (if a.failed then _ else _))
  | .subscribe _ callback _ => inferInstanceAs (Decidable (a.failed = false → callback ≠ none → ∀ c ∈ _, _ ∧ _))
  | .other => inferInstanceAs (Decidable True)

instance (s : Conversation) : DecidablePred s.CarefulMessage
  | .event _ => inferInstanceAs (Decidable True)
  | .newGroupContainer .. => inferInstanceAs (Decidable (_ ∧ _))
  | .answer a => inferInstanceAs (Decidable (∀ call ∈ s.call, s.CarefulAnswer a call))

instance (s : Conversation) : DecidablePred s.Careful
  | .receive => inferInstanceAs (Decidable (∀ m ∈ s.wire.head?, s.CarefulMessage m))
  | .publishEvent handle _ _ _ _ => inferInstanceAs (Decidable (handle ∈ s.opened))
  | .tioCreateOrOpen _ | .tioClose _ | .tioContainerSubscribe .. | .tioContainerUnsubscribe _
  | .tioContainerWaitAndPopNext .. | .tioGroupSetSubscriptionCallback .. | .otherCommand
  | .tioDispatchPendingEvents _ | .serve _ | .registerNewGroupContainer .. | .publishNewGroupContainer =>
    inferInstanceAs (Decidable True)

/-! ## Each message keeps the table -/

variable {s : Conversation}

theorem Kept.registered (h : s.Kept) {handle : Int32} (hh : Connection.InRange handle) (hu : s.Unsubscribed handle)
    (name : Bytes) (groupName : Option Bytes) :
    let connection := s.connection.registerContainer (some handle) name groupName
    connection.Tidy ∧ Installed connection s.installed ∧
      (∀ i c, s.connection.heap i = some c → connection.heap i = some c) ∧
      ∀ h, (connection.entry h).isSome ↔ h = handle ∨ (s.connection.entry h).isSome := by
  intro connection
  obtain ⟨htidy, hheap, hentry⟩ := h.tidy.registerContainer hh name groupName
  have hkeep (i : Nat) (c : Container) (hc : s.connection.heap i = some c) : connection.heap i = some c := by
    rw [hheap, Function.update_of_ne (h.tidy.numbered i c hc).ne]
    exact hc
  refine ⟨htidy, ?_, hkeep, fun h' => ?_⟩
  · intro i callback cookie hi
    obtain ⟨c, hc, hent, hgroup, hcall, hcookie⟩ := h.installed i callback cookie hi
    refine ⟨c, hkeep i c hc, ?_, hgroup, hcall, hcookie⟩
    -- a container with a callback is not the one whose entry is taken
    have hne : c.handle ≠ handle := by
      rintro rfl
      have hnone := hu i hent c hc
      rw [hcall] at hnone
      cases hnone
    rw [hentry, if_neg hne]
    exact hent
  · rw [hentry]
    split
    · simp_all
    · simp_all

theorem Kept.closed (h : s.Kept) {i : Nat} {c : Container} (hc : s.connection.heap i = some c) {a : Answer}
    (ha : s.CarefulAnswer a (.close i c.handle)) :
    let connection := s.connection.tioCloseAnswered i c.handle a.failed
    connection.Tidy ∧ Installed connection (Function.update s.installed i none) ∧
      ∀ h, (connection.entry h).isSome ↔ (a.failed = false → h ≠ c.handle) ∧ (s.connection.entry h).isSome := by
  intro connection
  have hfailed : a.failed = true → s.connection.entry c.handle ≠ some i := by
    intro hf
    simpa only [CarefulAnswer, hf, if_true] using ha
  obtain ⟨htidy, hheap, hentry⟩ := h.tidy.tioCloseAnswered hc hfailed
  refine ⟨htidy, ?_, fun h' => ?_⟩
  · intro j callback cookie hj
    have hji : j ≠ i := by
      rintro rfl
      rw [Function.update_self] at hj
      cases hj
    rw [Function.update_of_ne hji] at hj
    obtain ⟨c', hc', hent, hgroup, hcall, hcookie⟩ := h.installed j callback cookie hj
    refine ⟨c', ?_, ?_, hgroup, hcall, hcookie⟩
    · rw [hheap, Function.update_of_ne hji]
      exact hc'
    · -- another container with a callback is under another handle, or the close failed
      have hne : ¬ (c'.handle = c.handle ∧ a.failed = false) := by
        rintro ⟨heq, hf⟩
        simp only [CarefulAnswer, hf, Bool.false_eq_true, if_false] at ha
        rw [heq] at hent
        rcases ha with hown | hu
        · exact hji (Option.some.inj (hent.symm.trans hown))
        · have hnone := hu j hent c' hc'
          rw [hcall] at hnone
          cases hnone
      rw [hentry, if_neg hne]
      exact hent
  · rw [hentry]
    split
    · simp_all
    · rename_i hne
      constructor
      · exact fun hsome => ⟨fun hf heq => hne ⟨heq, hf⟩, hsome⟩
      · exact fun hsome => hsome.2

theorem Kept.subscribed (h : s.Kept) {i : Nat} {c : Container} (hc : s.connection.heap i = some c)
    {callback : Option Nat} {cookie : Nat} {a : Answer} (ha : s.CarefulAnswer a (.subscribe i callback cookie)) :
    let connection := s.connection.tioContainerSubscribeAnswered i callback cookie a.failed
    connection.Tidy ∧
      Installed connection (if a.failed then s.installed
        else Function.update s.installed i (callback.map fun callback => (callback, cookie))) ∧
      connection.entry = s.connection.entry := by
  intro connection
  cases hf : a.failed with
  | true =>
    simp only [connection, hf, Connection.tioContainerSubscribeAnswered, if_true]
    exact ⟨h.tidy, h.installed, trivial⟩
  | false =>
    simp only [connection, hf, Connection.tioContainerSubscribeAnswered, Bool.false_eq_true, if_false]
    refine ⟨h.tidy.modifyContainer i fun _ => rfl, ?_, rfl⟩
    intro j callback' cookie' hj
    rw [Connection.modifyContainer_heap, Connection.modifyContainer_entry]
    by_cases hji : j = i
    · subst hji
      rw [Function.update_self] at hj
      obtain ⟨cb, rfl, hcb⟩ := Option.map_eq_some_iff.mp hj
      obtain ⟨rfl, rfl⟩ := Prod.mk.inj hcb
      obtain ⟨hent, hgroup⟩ := ha hf (by simp) c hc
      rw [Function.update_self, hc, Option.map_some]
      exact ⟨_, rfl, hent, hgroup, rfl, rfl⟩
    · rw [Function.update_of_ne hji] at hj
      rw [Function.update_of_ne hji]
      exact h.installed j callback' cookie' hj

theorem Kept.answered (h : s.Kept) {call : Call} (hcall : s.call = some call) {a : Answer}
    (ha : s.CarefulAnswer a call) :
    (s.answered a).Kept ∧ (s.answered a).reader = s.reader.next (.answer a) := by
  have hnext : s.reader.next (.answer a) = Reader.answered ⟨none, s.reader.filled⟩ a call.pending := by
    simp only [Reader.next, reader, hcall, Option.map_some, Option.getD_some]
  rw [hnext]
  have hheld := h.held call hcall
  cases call with
  | createOrOpen name =>
    rcases a with ⟨_ | _, handle⟩
    · cases handle with
      | none =>
        have hs' : s.answered ⟨false, none⟩ = { s with call := none } := by
          simp [Conversation.answered, hcall, Connection.registerContainer]
        rw [hs']
        exact ⟨⟨h.tidy, h.installed, by simp⟩, rfl⟩
      | some handle =>
        obtain ⟨hrange, hu⟩ := ha rfl handle rfl
        obtain ⟨htidy, hinst, -, hentry⟩ := h.registered hrange hu name none
        have hs' : s.answered ⟨false, some handle⟩ =
            { s with
              call := none
              connection := s.connection.registerContainer (some handle) name none } := by
          simp [Conversation.answered, hcall]
        rw [hs']
        refine ⟨⟨htidy, hinst, by simp⟩, ?_⟩
        simp only [reader, hentry]
        rfl
    · have hs' : s.answered ⟨true, handle⟩ = { s with call := none } := by simp [Conversation.answered, hcall]
      rw [hs']
      exact ⟨⟨h.tidy, h.installed, by simp⟩, rfl⟩
  | close i handle =>
    obtain ⟨c, hc, rfl⟩ := hheld
    obtain ⟨htidy, hinst, hentry⟩ := h.closed hc ha
    have hs' : s.answered a =
        { s with
          call := none
          connection := s.connection.tioCloseAnswered i c.handle a.failed
          installed := Function.update s.installed i none } := by
      simp [Conversation.answered, hcall]
    rw [hs']
    refine ⟨⟨htidy, hinst, by simp⟩, ?_⟩
    simp only [reader, hentry, Call.pending, Reader.answered]
    cases a.failed <;> simp [Reader.clear]
  | subscribe i callback cookie =>
    obtain ⟨c, hc⟩ := Option.isSome_iff_exists.mp hheld
    obtain ⟨htidy, hinst, hentry⟩ := h.subscribed hc ha
    have hs' : s.answered a =
        { s with
          call := none
          connection := s.connection.tioContainerSubscribeAnswered i callback cookie a.failed
          installed := if a.failed then s.installed
            else Function.update s.installed i (callback.map fun callback => (callback, cookie)) } := by
      simp [Conversation.answered, hcall]
    rw [hs']
    refine ⟨⟨htidy, hinst, by simp⟩, ?_⟩
    simp only [reader, hentry]
    rfl
  | other =>
    have hs' : s.answered a = { s with call := none } := by simp [Conversation.answered, hcall]
    rw [hs']
    exact ⟨⟨h.tidy, h.installed, by simp⟩, rfl⟩

/-- The client reads a message: the table is kept, and changes as the message says. -/
theorem Kept.received (h : s.Kept) {m : Message} (hm : s.CarefulMessage m) (hneeds : s.reader.Needs m) :
    (s.received m).Kept ∧ (s.received m).reader = s.reader.next m := by
  cases m with
  | event e =>
    obtain ⟨i, hi⟩ := Option.isSome_iff_exists.mp hneeds
    obtain ⟨invoked, hev⟩ := h.tidy.onEventReceive hi
    have hs' : s.received (.event e) = { s with connection := { s.connection with invoked } } := by
      simp only [Conversation.received, hev]
    rw [hs']
    exact ⟨⟨⟨h.tidy.fault, h.tidy.quiet, h.tidy.eager, h.tidy.sized, h.tidy.entries, h.tidy.indexed,
      h.tidy.numbered⟩, h.installed, h.held⟩, rfl⟩
  | newGroupContainer handle groupName name =>
    obtain ⟨htidy, hinst, hkeep, hentry⟩ := h.registered hm.1 hm.2 name (some groupName)
    refine ⟨⟨htidy, hinst, fun call hcall => ?_⟩, ?_⟩
    · have hheld := h.held call hcall
      cases call with
      | createOrOpen name => trivial
      | close i handle =>
        obtain ⟨c, hc, hch⟩ := hheld
        exact ⟨c, hkeep i c hc, hch⟩
      | subscribe i callback cookie =>
        obtain ⟨c, hc⟩ := Option.isSome_iff_exists.mp hheld
        exact Option.isSome_iff_exists.mpr ⟨c, hkeep i c hc⟩
      | other => trivial
    · simp only [reader, Conversation.received, Reader.next, Reader.fill, hentry]
  | answer a =>
    rcases hc : s.call with _ | call
    · simp [Reader.Needs, reader, hc] at hneeds
    · exact h.answered hc (hm call hc)

theorem received_frame (s : Conversation) (m : Message) :
    (s.received m).wire = s.wire ∧ (s.received m).opened = s.opened ∧ (s.received m).request = s.request := by
  cases m with
  | event e => exact ⟨rfl, rfl, rfl⟩
  | newGroupContainer handle groupName name => exact ⟨rfl, rfl, rfl⟩
  | answer a =>
    unfold Conversation.received Conversation.answered
    rcases s.call with _ | _ | _ | _ | _
    case some.createOrOpen name =>
      dsimp only
      split <;> exact ⟨rfl, rfl, rfl⟩
    all_goals exact ⟨rfl, rfl, rfl⟩

theorem Inv.receive (h : s.Inv) {m : Message} {wire : List Message} (hw : s.wire = m :: wire)
    (hm : s.CarefulMessage m) : ({ s with wire }.received m).Inv := by
  have hflight := h.inFlight
  rw [hw] at hflight
  have hkept : { s with wire }.Kept := ⟨h.tidy, h.installed, h.held⟩
  obtain ⟨hkept, hreader⟩ := hkept.received (m := m) hm hflight.1
  obtain ⟨hwire, hopened, hrequest⟩ := received_frame { s with wire } m
  refine ⟨hkept, ?_⟩
  unfold UpToDate
  rw [hreader, hwire, hopened, hrequest]
  exact hflight.2

/-! ## The other steps -/

theorem Inv.sent (h : s.Inv) {s' : Conversation} {m : Message} (hconn : s'.connection = s.connection)
    (hcall : s'.call = s.call) (hinst : s'.installed = s.installed) (hwire : s'.wire = s.wire ++ [m])
    (hm : ∀ r, s.UpToDate r → r.Needs m ∧ s'.UpToDate (r.next m)) : s'.Inv := by
  refine ⟨⟨hconn ▸ h.tidy, by rw [hconn, hinst]; exact h.installed, fun call hc => ?_⟩, ?_⟩
  · have hheld := h.held call (hcall ▸ hc)
    unfold Held at hheld ⊢
    rw [hconn]
    exact hheld
  · have hreader : s'.reader = s.reader := by simp only [reader, hcall, hconn]
    rw [hwire, hreader]
    exact h.inFlight.push hm

theorem UpToDate.fill {r : Reader} (h : s.UpToDate r) (handle : Int32) :
    ∀ h', (r.fill handle).filled h' ↔ h' ∈ handle :: s.opened := by
  intro h'
  rw [List.mem_cons, ← h.1 h']
  rfl

theorem Inv.served (h : s.Inv) {request : Request} (hreq : s.request = some request)
    (getName : UInt64 → Bytes) (container : Option UInt64) : (s.served getName request container).Inv := by
  have hpend (r : Reader) (hr : s.UpToDate r) : r.pending = some request.pending := by
    rw [hr.2, hreq, Option.map_some]
  have hneeds (r : Reader) (hr : s.UpToDate r) (a : Answer) : r.Needs (.answer a) := by
    simp [Reader.Needs, hpend r hr]
  have hnext (r : Reader) (hr : s.UpToDate r) (a : Answer) :
      r.next (.answer a) = Reader.answered ⟨none, r.filled⟩ a request.pending := by
    simp [Reader.next, hpend r hr]
  -- an answer that leaves the table as it is
  have hsame (a : Answer) (ha : ∀ r : Reader, r.answered a request.pending = r) :
      { s with request := none, wire := s.wire ++ [Message.answer a] }.Inv := by
    refine h.sent rfl rfl rfl rfl fun r hr => ⟨hneeds r hr a, ?_⟩
    rw [hnext r hr, ha]
    exact ⟨hr.1, rfl⟩
  have herror (r : Reader) : r.answered ⟨true, none⟩ request.pending = r := by
    cases request <;> rfl
  rcases container with _ | container
  · cases request <;> exact hsame ⟨true, none⟩ herror
  · cases request with
    | createOrOpen name =>
      refine h.sent rfl rfl rfl rfl fun r hr => ⟨hneeds r hr _, ?_⟩
      rw [hnext r hr]
      exact ⟨hr.fill _, rfl⟩
    | close handle =>
      unfold Conversation.served
      dsimp only
      split
      · refine h.sent rfl rfl rfl rfl fun r hr => ⟨hneeds r hr _, ?_⟩
        rw [hnext r hr]
        refine ⟨fun h' => ?_, rfl⟩
        rw [List.mem_filter, ← hr.1 h', and_comm]
        simp [Request.pending, Reader.answered, Reader.clear]
      · exact hsame ⟨true, none⟩ herror
    | other => exact hsame ⟨false, none⟩ fun r => rfl

theorem Inv.send (h : s.Inv) (hcall : s.call = none) {call : Call} {request : Request}
    (hp : call.pending = request.pending) (hheld : s.Held call) : (s.send call request).Inv := by
  refine ⟨⟨h.tidy, h.installed, fun call' hc => ?_⟩, ?_⟩
  · obtain rfl := Option.some.inj hc
    exact hheld
  -- no answer is on the wire, as nothing waits for one
  · refine h.inFlight.sim (R := fun r r' => r.pending = none ∧ r' = ⟨some call.pending, r.filled⟩) ⟨?_, rfl⟩ ?_ ?_
    · simp [reader, hcall]
    · rintro r r' m ⟨hr, rfl⟩ hm
      cases m with
      | event e => exact ⟨hm, hr, rfl⟩
      | newGroupContainer handle groupName name => exact ⟨trivial, hr, rfl⟩
      | answer a => simp [Reader.Needs, hr] at hm
    · rintro r r' ⟨hr, rfl⟩ hup
      exact ⟨hup.1, by simp [Conversation.send, hp]⟩

theorem Inv.modified (h : s.Inv) (hcall : s.call = none) (i : Nat) {f : Container → Container}
    (hf : ∀ c, (f c).handle = c.handle ∧ (f c).groupName = c.groupName) {installed : Nat → Option (Nat × Nat)}
    (hinst : ∀ j callback cookie, installed j = some (callback, cookie) → s.installed j = some (callback, cookie) ∧
      (j = i → ∀ c, (f c).eventCallback = c.eventCallback ∧ (f c).subscriptionCookie = c.subscriptionCookie)) :
    { s with connection := s.connection.modifyContainer i f, installed }.Inv := by
  refine ⟨⟨h.tidy.modifyContainer i fun c => (hf c).1, ?_, fun call hc => ?_⟩, h.inFlight⟩
  · intro j callback cookie hj
    obtain ⟨hold, hkeep⟩ := hinst j callback cookie hj
    obtain ⟨c, hc, hent, hgroup, hcb, hcookie⟩ := h.installed j callback cookie hold
    rw [Connection.modifyContainer_heap, Connection.modifyContainer_entry]
    by_cases hji : j = i
    · subst hji
      obtain ⟨hcb', hcookie'⟩ := hkeep rfl c
      rw [Function.update_self, hc, Option.map_some]
      refine ⟨f c, rfl, ?_, (hf c).2.trans hgroup, hcb'.trans hcb, hcookie'.trans hcookie⟩
      rw [(hf c).1]
      exact hent
    · rw [Function.update_of_ne hji]
      exact ⟨c, hc, hent, hgroup, hcb, hcookie⟩
  · rw [hcall] at hc
    cases hc

theorem Inv.called (h : s.Inv) (hcall : s.call = none) {a : Step} {s' : Conversation} (hs : s.call? a = some s') :
    s'.Inv := by
  cases a with
  | tioCreateOrOpen name =>
    obtain rfl := Option.some.inj hs
    exact h.send hcall rfl trivial
  | tioClose i =>
    obtain ⟨c, hc, rfl⟩ := Option.map_eq_some_iff.mp hs
    exact h.send hcall rfl ⟨c, hc, rfl⟩
  | tioContainerSubscribe i callback cookie =>
    obtain ⟨c, hc, rfl⟩ := Option.map_eq_some_iff.mp hs
    exact h.send hcall rfl (Option.isSome_iff_exists.mpr ⟨c, hc⟩)
  | tioContainerUnsubscribe i =>
    obtain ⟨c, hc, rfl⟩ := Option.map_eq_some_iff.mp hs
    apply Inv.send
    · apply h.modified hcall i
      · exact fun c => ⟨rfl, rfl⟩
      intro j callback cookie hj
      have hji : j ≠ i := by
        rintro rfl
        rw [Function.update_self] at hj
        cases hj
      rw [Function.update_of_ne hji] at hj
      exact ⟨hj, fun he => absurd he hji⟩
    · exact hcall
    · rfl
    · trivial
  | tioContainerWaitAndPopNext i callback cookie =>
    obtain ⟨c, hc, rfl⟩ := Option.map_eq_some_iff.mp hs
    apply Inv.send
    · apply h.modified hcall i
      · exact fun c => ⟨rfl, rfl⟩
      · exact fun j callback cookie hj => ⟨hj, fun _ c => ⟨rfl, rfl⟩⟩
    · exact hcall
    · rfl
    · trivial
  | tioGroupSetSubscriptionCallback callback cookie =>
    obtain rfl := Option.some.inj hs
    exact ⟨⟨⟨h.tidy.fault, h.tidy.quiet, h.tidy.eager, h.tidy.sized, h.tidy.entries, h.tidy.indexed,
      h.tidy.numbered⟩, h.installed, h.held⟩, h.inFlight⟩
  | otherCommand =>
    obtain rfl := Option.some.inj hs
    exact h.send hcall rfl trivial
  | tioDispatchPendingEvents maxEvents =>
    obtain rfl := Option.some.inj hs
    rw [h.tidy.tioDispatchPendingEvents]
    exact h
  | _ => cases hs

theorem step_inv {getName : UInt64 → Bytes} {a : Step} {s' : Conversation} (h : s.Inv) (ha : s.Careful a)
    (hs : step getName s a = some s') : s'.Inv := by
  unfold step at hs
  rw [if_neg (by simp [h.tidy.fault])] at hs
  have hcalled (hs : (if s.call.isSome then none else s.call? a) = some s') : s'.Inv := by
    split at hs
    · cases hs
    · rename_i hcall
      exact h.called (Option.not_isSome_iff_eq_none.mp hcall) hs
  cases a with
  | receive =>
    dsimp only at hs
    split at hs
    · cases hs
    · rename_i m wire hw
      obtain rfl := Option.some.inj hs
      exact h.receive hw (ha m (by simp [hw]))
  | serve container =>
    obtain ⟨request, hreq, rfl⟩ := Option.map_eq_some_iff.mp hs
    exact h.served hreq getName container
  | registerNewGroupContainer groupName name container =>
    obtain rfl := Option.some.inj hs
    exact ⟨⟨h.tidy, h.installed, h.held⟩, h.inFlight⟩
  | publishNewGroupContainer =>
    dsimp only at hs
    split at hs
    · cases hs
    · obtain rfl := Option.some.inj hs
      exact h.sent rfl rfl rfl rfl fun r hr => ⟨trivial, hr.fill _, hr.2⟩
  | publishEvent handle code k v m =>
    dsimp only at hs
    split at hs
    · obtain rfl := Option.some.inj hs
      exact h.sent rfl rfl rfl rfl fun r hr => ⟨(hr.1 handle).mpr ha, hr⟩
    · cases hs
  | _ => exact hcalled hs

/-! ## Over whole runs -/

structure Sound (s : Conversation) : Prop where
  /-- Every entry is a container that was not freed. -/
  live : ∀ (n i : Nat), s.connection.containers[n]? = some (some i) → (s.connection.heap i).isSome
  /-- What was installed on a container is what an event under its handle leads to. -/
  called : ∀ i callback cookie, s.installed i = some (callback, cookie) →
    ∃ c, s.connection.lookup c.handle = .ok (i, c) ∧ s.connection.heap i = some c ∧
      ∀ code, s.connection.target c (.of code) = (some callback, cookie)
  /-- No event found an empty entry, one that was freed or none at all. -/
  defined : s.connection.fault = none

theorem Inv.sound (h : s.Inv) : s.Sound where
  live := by
    intro n i hn
    have hlt : n < s.connection.containers.length := (List.getElem?_eq_some_iff.mp hn).1
    obtain ⟨handle, hh, rfl⟩ := Connection.exists_handle (hlt.trans h.tidy.sized.2)
    have hent : s.connection.entry handle = some i := by
      unfold Connection.entry
      rw [if_pos hh, hn, Option.join_some]
    obtain ⟨c, hc, -⟩ := h.tidy.entries handle i hent
    rw [hc, Option.isSome_some]
  called := by
    intro i callback cookie hi
    obtain ⟨c, hc, hent, hgroup, hcall, hcookie⟩ := h.installed i callback cookie hi
    refine ⟨c, Connection.lookup_of_entry hent hc, hc, fun code => ?_⟩
    simp only [Connection.target, if_pos hgroup, hcall, hcookie]
  defined := h.tidy.fault

/-- In every run in which no callback is displaced, no container of the table is closed in vain and no event is sent
under a handle that the client closed, the table is sound. -/
theorem table_sound (getName : UInt64 → Bytes) {as : List Step} {s : Conversation}
    (hm : Meets (step getName) Careful start as) (hr : run (step getName) start as = some s) : s.Sound :=
  (run_keeps (fun _ _ _ => step_inv) start_inv hm hr).sound

/-- A container is opened and subscribed, gets an event, and is closed; an event of another one comes meanwhile. -/
theorem table_sound_two_containers :
    let getName : UInt64 → Bytes := fun id => if id = 7 then ascii "a" else ascii "b"
    let as : List Step := [.tioCreateOrOpen (ascii "a"), .serve (some 7), .receive,
      .tioContainerSubscribe 0 (some 5) 6, .serve (some 7), .receive,
      .registerNewGroupContainer (ascii "g") (ascii "b") 8, .publishNewGroupContainer,
      .publishEvent 1 (.of .pushBack) (.int 0) (.int 3) .none, .tioClose 0,
      .publishEvent 2 (.of .pushBack) (.int 0) (.int 4) .none, .receive, .receive, .serve (some 7), .receive, .receive]
    ∃ s, run (step getName) start as = some s ∧ s.connection.containers.take 3 = [none, none, some 1] ∧
      s.connection.invoked.length = 1 ∧ s.Sound := by
  intro getName as
  have hm : Meets (step getName) Careful start as := by decide +kernel
  have hview : (run (step getName) start as).map (fun s => (s.connection.containers.take 3,
      s.connection.invoked.length)) = some ([none, none, some 1], 1) := by decide +kernel
  obtain ⟨s, hs, hv⟩ := Option.map_eq_some_iff.mp hview
  obtain ⟨hcont, hinv⟩ := Prod.mk.inj hv
  exact ⟨s, hs, hcont, hinv, table_sound getName hm hs⟩

/-- A container that is opened again while its first one is subscribed; an event under a handle that was closed; and
a close that is answered with an error. -/
theorem table_loses_track :
    let getName : UInt64 → Bytes := fun _ => ascii "a"
    let opened : List Step := [.tioCreateOrOpen (ascii "a"), .serve (some 7), .receive]
    let subscribed : List Step := opened ++ [.tioContainerSubscribe 0 (some 5) 6, .serve (some 7), .receive]
    let closed : List Step := [.tioClose 0, .serve (some 7), .receive]
    (∃ s, run (step getName) start (subscribed ++ opened) = some s ∧ s.installed 0 = some (5, 6) ∧
      ¬ s.Sound) ∧
    (∃ s, run (step getName) start (subscribed ++ closed ++
        [.publishEvent 1 (.of .pushBack) (.int 0) (.int 3) .none, .receive]) = some s ∧
      s.connection.fault = some (.nullEntry 1) ∧ ¬ s.Sound) ∧
    ∃ s, run (step getName) start (opened ++ [.tioClose 0, .serve none, .receive]) = some s ∧
      s.connection.containers[1]? = some (some 0) ∧ s.connection.heap 0 = none ∧ ¬ s.Sound := by
  intro getName opened subscribed closed
  refine ⟨?_, ?_, ?_⟩
  · have hview : (run (step getName) start (subscribed ++ opened)).map (fun s =>
        (s.installed 0, (s.connection.lookup 1).toOption.map Prod.fst, (s.connection.heap 0).map Container.handle)) =
        some (some (5, 6), some 1, some 1) := by decide +kernel
    obtain ⟨s, hs, hv⟩ := Option.map_eq_some_iff.mp hview
    simp only [Prod.mk.injEq] at hv
    obtain ⟨hinst, hlook, hheap⟩ := hv
    refine ⟨s, hs, hinst, fun hsound => ?_⟩
    obtain ⟨c, hc, hc0, -⟩ := hsound.called 0 5 6 hinst
    rw [hc0, Option.map_some, Option.some_inj] at hheap
    rw [hheap] at hc
    rw [hc] at hlook
    cases hlook
  · have hview : (run (step getName) start (subscribed ++ closed ++
        [.publishEvent 1 (.of .pushBack) (.int 0) (.int 3) .none, .receive])).map (fun s => s.connection.fault) =
        some (some (.nullEntry 1)) := by decide +kernel
    obtain ⟨s, hs, hfault⟩ := Option.map_eq_some_iff.mp hview
    refine ⟨s, hs, hfault, fun hsound => ?_⟩
    rw [hsound.defined] at hfault
    cases hfault
  · have hview : (run (step getName) start (opened ++ [.tioClose 0, .serve none, .receive])).map (fun s =>
        (s.connection.containers[1]?, s.connection.heap 0)) = some (some (some 0), none) := by decide +kernel
    obtain ⟨s, hs, hv⟩ := Option.map_eq_some_iff.mp hview
    obtain ⟨hentry, hheap⟩ := Prod.mk.inj hv
    refine ⟨s, hs, hentry, hheap, fun hsound => ?_⟩
    have hlive := hsound.live 1 0 hentry
    rw [hheap] at hlive
    cases hlive

end Conversation

end Tiodb.Client.Table
