import Tiodb.Lib.Lists
import Tiodb.Server.Publisher

/-!
# What the publisher delivers

Every subscription gets a suffix of the events of its storage, from no later than
its own marker on, and every session gets its events in the order of the queue.
-/

namespace Tiodb

open Lib

namespace Message

def event? : Message → Option Event
  | .event e => some e
  | _ => none

end Message

namespace Publisher

variable {C : Type} {ops : ContainerOps C} {numericStart : Bytes → Int32}

/-! ## The history -/

/-- All that was ever put on the queue, in order. -/
def enqueued (p : Publisher C) : List EventInfo := p.published ++ (p.localEventQueue ++ p.eventQueue)

def isMarker (id : UInt64) (ei : EventInfo) : Bool :=
  ei.storageId = id && ei.event.code = .snapshotEnd

def eventsFor (id : UInt64) (l : List EventInfo) : List Event :=
  l.filterMap fun ei => if ei.storageId = id ∧ ei.event.code ≠ .snapshotEnd then some ei.event else none

def markers (id : UInt64) (l : List EventInfo) : Nat := l.countP (isMarker id)

def subs (p : Publisher C) (id : UInt64) : List SubscriptionInfo := (p.subscribers id).getD []

def messagesTo (id : UInt64) (i : Nat) (ds : List Delivery) : List Message :=
  ds.filterMap fun d => if d.storageId = id ∧ d.sub = i then some d.message else none

def eventsTo (id : UInt64) (i : Nat) (ds : List Delivery) : List Event :=
  (messagesTo id i ds).filterMap Message.event?

theorem eventsFor_append (id : UInt64) (l l' : List EventInfo) :
    eventsFor id (l ++ l') = eventsFor id l ++ eventsFor id l' := List.filterMap_append

theorem markers_append (id : UInt64) (l l' : List EventInfo) :
    markers id (l ++ l') = markers id l + markers id l' := List.countP_append

theorem messagesTo_append (id : UInt64) (i : Nat) (ds ds' : List Delivery) :
    messagesTo id i (ds ++ ds') = messagesTo id i ds ++ messagesTo id i ds' := List.filterMap_append

theorem messagesTo_deliveries (seq : Nat) (id id' : UInt64) (i : Nat)
    (rs : List (SubscriptionInfo × List Message)) :
    messagesTo id i (deliveries seq id' rs) = if id' = id then (rs[i]?.map Prod.snd).getD [] else [] := by
  rw [messagesTo, deliveries, List.filterMap_flatMap]
  by_cases hid : id' = id
  · rw [if_pos hid, ← flatMap_zipIdx Prod.snd rs i]
    congr 1
    funext x
    by_cases hi : x.2 = i <;> simp [List.filterMap_map, hid, hi]
  · simp [List.filterMap_map, hid]

/-- The part of the history before the marker of the subscription at index `i`: that subscription
and its marker are both the `i`-th of the storage, as one section adds the two. -/
def beforeMarker (id : UInt64) : Nat → List EventInfo → List EventInfo
  | _, [] => []
  | i, ei :: l =>
    if isMarker id ei then
      match i with
      | 0 => []
      | i + 1 => ei :: beforeMarker id i l
    else ei :: beforeMarker id i l

theorem beforeMarker_append_of_le (id : UInt64) {i : Nat} {l : List EventInfo} (l' : List EventInfo)
    (h : markers id l ≤ i) :
    beforeMarker id i (l ++ l') = l ++ beforeMarker id (i - markers id l) l' := by
  induction l generalizing i with
  | nil => rfl
  | cons ei l ih =>
    by_cases hm : isMarker id ei = true
    · have hc : markers id (ei :: l) = markers id l + 1 := List.countP_cons_of_pos hm
      obtain ⟨i, rfl⟩ : ∃ j, i = j + 1 := ⟨i - 1, by omega⟩
      have hsub : i + 1 - (markers id l + 1) = i - markers id l := by omega
      simp only [List.cons_append, beforeMarker, hm, if_true]
      rw [ih (by omega), hc, hsub]
    · have hc : markers id (ei :: l) = markers id l := List.countP_cons_of_neg hm
      rw [hc] at h
      simp only [List.cons_append, beforeMarker, hm]
      rw [ih h, hc]
      rfl

theorem beforeMarker_append_of_lt (id : UInt64) {i : Nat} {l : List EventInfo} (l' : List EventInfo)
    (h : i < markers id l) : beforeMarker id i (l ++ l') = beforeMarker id i l := by
  induction l generalizing i with
  | nil => exact absurd h (Nat.not_lt_zero i)
  | cons ei l ih =>
    by_cases hm : isMarker id ei = true
    · have hc : markers id (ei :: l) = markers id l + 1 := List.countP_cons_of_pos hm
      simp only [List.cons_append, beforeMarker, hm, if_true]
      cases i with
      | zero => rfl
      | succ i => simp only [ih (by omega : i < markers id l)]
    · have hc : markers id (ei :: l) = markers id l := List.countP_cons_of_neg hm
      simp only [List.cons_append, beforeMarker, hm]
      rw [ih (by omega)]
      rfl

/-! ## One subscriber -/

theorem event?_snapshotMessages (s : SubscriptionInfo) (c : C) (code : ContainerEventCode) (rs : List Record) :
    (groupMessages ops s c ++ snapshotMessages code rs).filterMap Message.event? = [] := by
  have hg : (groupMessages ops s c).filterMap Message.event? = [] := by
    unfold groupMessages
    split_ifs <;> rfl
  rw [List.filterMap_append, hg, snapshotMessages, List.filterMap_append, List.filterMap_map]
  simp [Function.comp_def, Message.event?]

theorem publishSnapshot_cases {p : Publisher C} {s s' : SubscriptionInfo} {ms : List Message}
    (h : publishSnapshot ops numericStart p s = some (s', ms)) :
    (s' = s ∧ ms = [] ∧ (s.snapshotPending = true → p.alive s.session = false)) ∨
    (s.snapshotPending = true ∧ s' = { s with snapshotPending := false } ∧ ms = [] ∧
      (s.start = [] ∨ ∃ e, ops.query (p.containers s.container) (numericStart s.start) 0 = some (.error e))) ∨
    (s.snapshotPending = true ∧ s' = { s with snapshotPending := false } ∧
      ∃ rs, ops.query (p.containers s.container) (numericStart s.start) 0 = some (.ok rs) ∧
        ms = groupMessages ops s (p.containers s.container) ++ snapshotMessages
          (if isMapContainer ops (p.containers s.container) then .set else .pushBack) rs) := by
  unfold publishSnapshot at h
  by_cases hp : s.snapshotPending = true
  case neg =>
    obtain ⟨rfl, rfl⟩ : s = s' ∧ [] = ms := by simpa [hp] using h
    exact Or.inl ⟨rfl, rfl, fun h => absurd h hp⟩
  by_cases hstart : s.start = []
  case pos =>
    obtain ⟨rfl, rfl⟩ : _ = s' ∧ [] = ms := by simpa [hp, hstart] using h
    exact Or.inr (Or.inl ⟨hp, by simp [hstart], rfl, Or.inl hstart⟩)
  by_cases ha : p.alive s.session = true
  case neg =>
    obtain ⟨rfl, rfl⟩ : s = s' ∧ [] = ms := by simpa [hp, hstart, ha] using h
    exact Or.inl ⟨rfl, rfl, fun _ => by simpa using ha⟩
  simp only [hp, hstart, ha, Bool.not_true, Bool.false_eq_true, if_false] at h
  cases hq : ops.query (p.containers s.container) (numericStart s.start) 0 with
  | none => simp [hq] at h
  | some r =>
    cases r with
    | error e =>
      obtain ⟨rfl, rfl⟩ : _ = s' ∧ [] = ms := by simpa [hq] using h
      exact Or.inr (Or.inl ⟨hp, rfl, rfl, Or.inr ⟨e, rfl⟩⟩)
    | ok rs =>
      simp only [hq, Option.some.injEq, Prod.mk.injEq] at h
      obtain ⟨rfl, rfl⟩ := h
      exact Or.inr (Or.inr ⟨hp, rfl, rs, rfl, rfl⟩)

theorem notify_marker {p : Publisher C} {e : Event} {s s' : SubscriptionInfo} {ms : List Message}
    (he : e.code = .snapshotEnd) (h : notify ops numericStart p e s = some (s', ms)) :
    ms.filterMap Message.event? = [] ∧ (p.alive s.session = true → s'.snapshotPending = false) := by
  rw [notify, if_pos he] at h
  rcases publishSnapshot_cases h with ⟨rfl, rfl, hdead⟩ | ⟨-, rfl, rfl, -⟩ | ⟨-, rfl, rs, -, rfl⟩
  · refine ⟨rfl, fun ha => ?_⟩
    by_contra hp
    simp [hdead (by simpa using hp)] at ha
  · exact ⟨rfl, fun _ => rfl⟩
  · exact ⟨event?_snapshotMessages s _ _ rs, fun _ => rfl⟩

theorem notify_event {p : Publisher C} {e : Event} {s s' : SubscriptionInfo} {ms : List Message}
    (he : e.code ≠ .snapshotEnd) (h : notify ops numericStart p e s = some (s', ms)) :
    s' = s ∧ ms = if s.snapshotPending || !p.alive s.session then [] else [.event e] := by
  rw [notify, if_neg he, publishEvent] at h
  split_ifs at h ⊢ <;> simp_all

theorem notify_fixed {p : Publisher C} {e : Event} {s s' : SubscriptionInfo} {ms : List Message}
    (h : notify ops numericStart p e s = some (s', ms)) : ∃ b, s' = { s with snapshotPending := b } := by
  by_cases he : e.code = .snapshotEnd
  · rw [notify, if_pos he] at h
    rcases publishSnapshot_cases h with ⟨rfl, -⟩ | ⟨-, rfl, -⟩ | ⟨-, rfl, -⟩
    · exact ⟨_, rfl⟩
    · exact ⟨_, rfl⟩
    · exact ⟨_, rfl⟩
  · rw [(notify_event he h).1]
    exact ⟨_, rfl⟩

theorem notified {p : Publisher C} {e : Event} {l : List SubscriptionInfo}
    {rs : List (SubscriptionInfo × List Message)} (hrs : l.mapM (notify ops numericStart p e) = some rs) {i : Nat}
    {s' : SubscriptionInfo} {ms : List Message} (hr : rs[i]? = some (s', ms)) :
    ∃ s b, l[i]? = some s ∧ s' = { s with snapshotPending := b } ∧ notify ops numericStart p e s = some (s', ms) := by
  obtain ⟨s, hs, hn⟩ := Option.bind_eq_some_iff.mp ((getElem?_of_mapM hrs i).symm.trans hr)
  obtain ⟨b, hb⟩ := notify_fixed hn
  exact ⟨s, b, hs, hb, hn⟩

/-! ## One step -/

theorem foldl_onAnyContainerEvent (id : UInt64) (es : List Event) (p : Publisher C) :
    es.foldl (fun p e => onAnyContainerEvent p ⟨id, e⟩) p =
      { p with
        eventQueue := p.eventQueue ++ if (p.subscribers id).isSome then es.map (⟨id, ·⟩) else [] } := by
  induction es generalizing p with
  | nil => simp
  | cons e es ih =>
    rw [List.foldl_cons, ih, onAnyContainerEvent]
    cases h : p.subscribers id with
    | none => simp [h]
    | some l => simp [h]

theorem step_client {p p' : Publisher C} {id : UInt64} {c : C} {es : List Event}
    (h : step ops numericStart p (.client id c es) = some p') :
    (∀ e ∈ es, e.code ≠ .snapshotEnd) ∧
      p' = { p with
        containers := Function.update p.containers id c
        eventQueue := p.eventQueue ++ if (p.subscribers id).isSome then es.map (⟨id, ·⟩) else [] } := by
  rw [step] at h
  by_cases hc : ∃ e ∈ es, e.code = .snapshotEnd
  · rw [if_pos hc] at h
    cases h
  rw [if_neg hc, foldl_onAnyContainerEvent] at h
  exact ⟨fun e he hcode => hc ⟨e, he, hcode⟩, (Option.some.inj h).symm⟩

theorem step_swap {p p' : Publisher C} (h : step ops numericStart p .swap = some p') :
    p.localEventQueue = [] ∧ p' = { p with localEventQueue := p.eventQueue, eventQueue := [] } := by
  simp only [step] at h
  split_ifs at h with hl
  exact ⟨hl, (Option.some.inj h).symm⟩

theorem step_publish {p p' : Publisher C} (h : step ops numericStart p .publish = some p') :
    ∃ ei rest, p.localEventQueue = ei :: rest ∧
      ((p.subscribers ei.storageId = none ∧
        p' = { p with localEventQueue := rest, published := p.published ++ [ei] }) ∨
      ∃ l rs, p.subscribers ei.storageId = some l ∧
        l.mapM (notify ops numericStart { p with localEventQueue := rest } ei.event) = some rs ∧
        p' = { p with
          localEventQueue := rest
          subscribers := Function.update p.subscribers ei.storageId (some (rs.map Prod.fst))
          published := p.published ++ [ei]
          sent := p.sent ++ deliveries p.published.length ei.storageId rs }) := by
  simp only [step] at h
  cases hl : p.localEventQueue with
  | nil => simp [hl] at h
  | cons ei rest =>
    refine ⟨ei, rest, rfl, ?_⟩
    simp only [hl, publish] at h
    cases hs : p.subscribers ei.storageId with
    | none =>
      simp only [hs, Option.some.injEq] at h
      exact Or.inl ⟨rfl, h.symm⟩
    | some l =>
      simp only [hs, Option.map_eq_some_iff] at h
      obtain ⟨rs, hrs, rfl⟩ := h
      exact Or.inr ⟨l, rs, rfl, hrs, rfl⟩

/-! ## The invariant -/

/-- Where the subscription `s` at index `i` stands, if its session is alive. -/
def Served (p : Publisher C) (id : UInt64) (i : Nat) (s : SubscriptionInfo) : Prop :=
  if s.snapshotPending then eventsTo id i p.sent = [] ∧ markers id p.published ≤ i
  else ∃ n, eventsTo id i p.sent = (eventsFor id p.published).drop n ∧
    n ≤ (eventsFor id p.published).length ∧ n ≤ (eventsFor id (beforeMarker id i p.enqueued)).length

/-- The subscriptions of a storage, its markers and what was sent belong together. -/
structure Tracked (id : UInt64) (p : Publisher C) : Prop where
  marked : markers id p.enqueued = (subs p id).length
  unsent : ∀ i, (subs p id).length ≤ i → eventsTo id i p.sent = []
  served : ∀ i s, (subs p id)[i]? = some s → p.alive s.session = true → Served p id i s

/-- What was sent, in the order of the queue. -/
structure Ordered (p : Publisher C) : Prop where
  sorted : (p.sent.map Delivery.seq).Pairwise (· ≤ ·)
  origin : ∀ d ∈ p.sent, d.seq < p.published.length ∧
    ∀ e, d.message = .event e → p.published[d.seq]? = some ⟨d.storageId, e⟩

theorem init_tracked (id : UInt64) (containers : UInt64 → C) (alive : Nat → Bool) :
    Tracked id (init containers alive) :=
  ⟨rfl, fun _ _ => rfl, fun i s h => by simp [subs, init] at h⟩

theorem init_ordered (containers : UInt64 → C) (alive : Nat → Bool) : Ordered (init containers alive) :=
  ⟨List.Pairwise.nil, fun d hd => by simp [init] at hd⟩

theorem Tracked.enqueue {id : UInt64} {p p' : Publisher C} (h : Tracked id p) (added : List EventInfo)
    (hadd : markers id added = 0) (henq : p'.enqueued = p.enqueued ++ added)
    (hsubs : subs p' id = subs p id) (hpub : p'.published = p.published) (hsent : p'.sent = p.sent)
    (halive : ∀ se, p'.alive se = true → p.alive se = true) : Tracked id p' := by
  refine ⟨?_, ?_, ?_⟩
  · rw [henq, hsubs, markers_append, hadd, h.marked, Nat.add_zero]
  · rw [hsubs, hsent]
    exact h.unsent
  · intro i s hs ha
    rw [hsubs] at hs
    have hi : i < markers id p.enqueued := by
      rw [h.marked]
      exact (List.getElem?_eq_some_iff.mp hs).1
    have hold := h.served i s hs (halive _ ha)
    unfold Served at hold ⊢
    rwa [hsent, hpub, henq, beforeMarker_append_of_lt id added hi]

theorem markers_marker (id id' : UInt64) :
    markers id [⟨id', snapshotEnd⟩] = if id' = id then 1 else 0 := by
  by_cases h : id' = id <;> simp [markers, isMarker, snapshotEnd, h]

theorem markers_published_le (id : UInt64) (p : Publisher C) : markers id p.published ≤ markers id p.enqueued := by
  rw [enqueued, markers_append]
  exact Nat.le_add_right _ _

theorem enqueued_subscribe (p : Publisher C) (s : SubscriptionInfo) :
    (sessionAsyncSubscribe p s).enqueued = p.enqueued ++ [⟨s.container, snapshotEnd⟩] := by
  simp [enqueued, sessionAsyncSubscribe]

theorem Tracked.subscribe {id : UInt64} {p : Publisher C} (h : Tracked id p) (s : SubscriptionInfo)
    (hp : s.snapshotPending = true) : Tracked id (sessionAsyncSubscribe p s) := by
  by_cases hid : s.container = id
  case neg =>
    refine h.enqueue [⟨s.container, snapshotEnd⟩] (by rw [markers_marker, if_neg hid])
      (enqueued_subscribe p s) ?_ rfl rfl fun _ ha => ha
    simp only [subs, sessionAsyncSubscribe]
    rw [Function.update_of_ne (Ne.symm hid)]
  have hsubs : subs (sessionAsyncSubscribe p s) id = subs p id ++ [s] := by
    simp [subs, sessionAsyncSubscribe, hid]
  refine ⟨?_, ?_, ?_⟩
  · rw [enqueued_subscribe, markers_append, markers_marker, if_pos hid, hsubs, h.marked]
    simp
  · intro i hi
    rw [hsubs, List.length_append] at hi
    exact h.unsent i (by omega)
  · intro i s' hs' ha
    rw [hsubs] at hs'
    by_cases hi : i < (subs p id).length
    · rw [List.getElem?_append_left hi] at hs'
      have hold := h.served i s' hs' ha
      unfold Served at hold ⊢
      rwa [enqueued_subscribe, beforeMarker_append_of_lt _ _ (by rwa [h.marked])]
    · -- The new subscription: it is pending, and its marker is the last entry of the queue.
      rw [List.getElem?_append_right (by omega)] at hs'
      obtain ⟨hlt, rfl⟩ := List.getElem?_eq_some_iff.mp hs'
      rw [Served, List.getElem_singleton, if_pos hp]
      have hle := h.marked ▸ markers_published_le id p
      exact ⟨h.unsent i (by omega), by simp only [sessionAsyncSubscribe]; omega⟩

theorem eventsFor_entry (id : UInt64) (ei : EventInfo) :
    eventsFor id [ei] = if ei.storageId = id ∧ ei.event.code ≠ .snapshotEnd then [ei.event] else [] := by
  unfold eventsFor
  split_ifs with h <;> simp [h]

theorem Tracked.skip {id : UInt64} {p p' : Publisher C} (h : Tracked id p) (ei : EventInfo)
    (hno : ei.storageId = id → subs p id = []) (henq : p'.enqueued = p.enqueued)
    (hsubs : subs p' id = subs p id) (hpub : p'.published = p.published ++ [ei])
    (hsent : ∀ i, eventsTo id i p'.sent = eventsTo id i p.sent) (halive : p'.alive = p.alive) :
    Tracked id p' := by
  refine ⟨by rw [henq, hsubs, h.marked], ?_, ?_⟩
  · intro i hi
    rw [hsubs] at hi
    rw [hsent, h.unsent i hi]
  · intro i s hs ha
    rw [hsubs] at hs
    rw [halive] at ha
    have hid : ei.storageId ≠ id := fun heq => by simp [hno heq] at hs
    have hev : eventsFor id p'.published = eventsFor id p.published := by
      rw [hpub, eventsFor_append, eventsFor_entry, if_neg (by simp [hid]), List.append_nil]
    have hmk : markers id p'.published = markers id p.published := by
      rw [hpub, markers_append]
      simp [markers, isMarker, hid]
    have hold := h.served i s hs ha
    unfold Served at hold ⊢
    rwa [hsent, henq, hev, hmk]

/-- A subscription whose snapshot is taken now starts with the next event. -/
theorem Served.start {p : Publisher C} {id : UInt64} {i : Nat} (h : markers id p.published ≤ i) :
    (eventsFor id p.published).length ≤ (eventsFor id (beforeMarker id i p.enqueued)).length := by
  rw [enqueued, beforeMarker_append_of_le id _ h, eventsFor_append, List.length_append]
  exact Nat.le_add_right _ _

theorem Served.notify {p q p' : Publisher C} {id : UInt64} {i : Nat} {ei : EventInfo}
    {s s' : SubscriptionInfo} {ms : List Message} (h : Served p id i s) (ha : p.alive s.session = true)
    (hid : ei.storageId = id) (hq : q.alive = p.alive)
    (hn : notify ops numericStart q ei.event s = some (s', ms)) (henq : p'.enqueued = p.enqueued)
    (hpub : p'.published = p.published ++ [ei])
    (hsent : eventsTo id i p'.sent = eventsTo id i p.sent ++ ms.filterMap Message.event?) :
    Served p' id i s' := by
  rw [← hq] at ha
  by_cases hcode : ei.event.code = .snapshotEnd
  · -- A marker: nobody with a session alive is pending any more.
    obtain ⟨hms, hdone⟩ := notify_marker hcode hn
    have hev : eventsFor id p'.published = eventsFor id p.published := by
      rw [hpub, eventsFor_append, eventsFor_entry, if_neg (by simp [hcode]), List.append_nil]
    unfold Served at h ⊢
    rw [if_neg (by simp [hdone ha]), hsent, hms, List.append_nil, henq, hev]
    by_cases hp : s.snapshotPending = true
    · rw [if_pos hp] at h
      exact ⟨_, by rw [h.1, List.drop_length], le_rfl, Served.start h.2⟩
    · rwa [if_neg hp] at h
  · -- An event: all but the pending get it.
    obtain ⟨rfl, rfl⟩ := notify_event hcode hn
    have hev : eventsFor id p'.published = eventsFor id p.published ++ [ei.event] := by
      rw [hpub, eventsFor_append, eventsFor_entry, if_pos ⟨hid, hcode⟩]
    have hmk : markers id p'.published = markers id p.published := by
      rw [hpub, markers_append]
      simp [markers, isMarker, hcode]
    unfold Served at h ⊢
    rw [hsent, henq, hev, hmk]
    by_cases hp : s'.snapshotPending = true
    · rw [if_pos hp] at h ⊢
      simpa [hp] using h
    · rw [if_neg hp] at h ⊢
      obtain ⟨n, hto, hn1, hn2⟩ := h
      refine ⟨n, ?_, by simp; omega, hn2⟩
      rw [hto, List.drop_append_of_le_length hn1]
      simp [hp, ha, Message.event?]

theorem Tracked.publish {id : UInt64} {p q : Publisher C} (h : Tracked id p) {ei : EventInfo}
    {rest : List EventInfo} {l : List SubscriptionInfo} {rs : List (SubscriptionInfo × List Message)}
    (hlocal : p.localEventQueue = ei :: rest) (hl : p.subscribers ei.storageId = some l)
    (hq : q.alive = p.alive) (hrs : l.mapM (notify ops numericStart q ei.event) = some rs) :
    Tracked id { p with
      localEventQueue := rest
      subscribers := Function.update p.subscribers ei.storageId (some (rs.map Prod.fst))
      published := p.published ++ [ei]
      sent := p.sent ++ deliveries p.published.length ei.storageId rs } := by
  have henq : p.published ++ [ei] ++ (rest ++ p.eventQueue) = p.enqueued := by simp [enqueued, hlocal]
  have hsent (i : Nat) : eventsTo id i (p.sent ++ deliveries p.published.length ei.storageId rs) =
      eventsTo id i p.sent ++
        (if ei.storageId = id then (rs[i]?.map Prod.snd).getD [] else []).filterMap Message.event? := by
    rw [eventsTo, messagesTo_append, messagesTo_deliveries, List.filterMap_append, eventsTo]
  by_cases hid : ei.storageId = id
  case neg =>
    refine h.skip ei (fun heq => absurd heq hid) henq ?_ rfl (fun i => ?_) rfl
    · simp only [subs]
      rw [Function.update_of_ne (Ne.symm hid)]
    · rw [hsent, if_neg hid, List.filterMap_nil, List.append_nil]
  have hsubs : subs p id = l := by rw [subs, ← hid, hl, Option.getD_some]
  have hlen := length_of_mapM hrs
  refine ⟨?_, ?_, ?_⟩
  · simp only [subs, hid, Function.update_self, Option.getD_some, List.length_map, hlen]
    rw [enqueued, henq, h.marked, hsubs]
  · intro i hi
    simp only [subs, hid, Function.update_self, Option.getD_some, List.length_map, hlen] at hi
    rw [hsent, h.unsent i (by rwa [hsubs]), List.getElem?_eq_none (by omega)]
    simp
  · intro i s' hs' ha
    simp only [subs, hid, Function.update_self, Option.getD_some, List.getElem?_map,
      Option.map_eq_some_iff] at hs'
    obtain ⟨⟨t, ms⟩, hr, rfl⟩ := hs'
    obtain ⟨s, b, hs, rfl, hn⟩ := notified hrs hr
    refine Served.notify (h.served i s (by rwa [hsubs]) ha) ha hid hq hn henq rfl ?_
    rw [hsent, if_pos hid, hr]
    rfl

theorem step_tracked (id : UInt64) (p : Publisher C) (a : Step C) (p' : Publisher C) (h : Tracked id p)
    (hs : step ops numericStart p a = some p') : Tracked id p' := by
  cases a with
  | client id' c es =>
    obtain ⟨hes, rfl⟩ := step_client hs
    refine h.enqueue _ ?_ (by simp only [enqueued, List.append_assoc]; rfl) rfl rfl rfl fun _ ha => ha
    rw [markers, List.countP_eq_zero]
    split_ifs
    · intro ei hei
      obtain ⟨e, he, rfl⟩ := List.mem_map.mp hei
      simp [isMarker, hes e he]
    · simp
  | subscribe g id' hd se st =>
    obtain rfl := Option.some.inj hs
    exact h.subscribe _ rfl
  | swap =>
    obtain ⟨hl, rfl⟩ := step_swap hs
    exact h.enqueue [] rfl (by simp [enqueued, hl]) rfl rfl rfl fun _ ha => ha
  | publish =>
    obtain ⟨ei, rest, hl, ⟨hnone, rfl⟩ | ⟨l, rs, hsome, hrs, rfl⟩⟩ := step_publish hs
    · exact h.skip ei (fun hid => by rw [subs, ← hid, hnone]; rfl) (by simp [enqueued, hl]) rfl rfl
        (fun _ => rfl) rfl
    · exact h.publish hl hsome rfl hrs
  | sessionDies se =>
    obtain rfl := Option.some.inj hs
    refine h.enqueue [] rfl (by simp [enqueued]) rfl rfl rfl fun se' ha => ?_
    by_cases hse : se' = se
    · simp [hse] at ha
    · simpa [Function.update_of_ne hse] using ha

theorem notify_origin {p : Publisher C} {e e' : Event} {s s' : SubscriptionInfo} {ms : List Message}
    (h : notify ops numericStart p e s = some (s', ms)) (hm : .event e' ∈ ms) : e' = e := by
  by_cases he : e.code = .snapshotEnd
  · have hnil := (notify_marker he h).1
    rw [List.filterMap_eq_nil_iff] at hnil
    cases hnil _ hm
  · rw [(notify_event he h).2] at hm
    split_ifs at hm
    · cases hm
    · simpa using hm

theorem mem_deliveries {seq : Nat} {id : UInt64} {rs : List (SubscriptionInfo × List Message)}
    {d : Delivery} (h : d ∈ deliveries seq id rs) :
    d.seq = seq ∧ d.storageId = id ∧
      ∃ r ∈ rs, d.message ∈ r.2 ∧ d.session = r.1.session ∧ d.handle = r.1.handle := by
  simp only [deliveries, List.mem_flatMap, List.mem_map] at h
  obtain ⟨⟨r, i⟩, hr, m, hm, rfl⟩ := h
  exact ⟨rfl, rfl, r, List.fst_mem_of_mem_zipIdx hr, hm, rfl, rfl⟩

theorem Ordered.publish {p q : Publisher C} (h : Ordered p) {ei : EventInfo} {rest : List EventInfo}
    {l : List SubscriptionInfo} {rs : List (SubscriptionInfo × List Message)}
    (hrs : l.mapM (notify ops numericStart q ei.event) = some rs)
    (subscribers : UInt64 → Option (List SubscriptionInfo)) :
    Ordered { p with
      localEventQueue := rest
      subscribers := subscribers
      published := p.published ++ [ei]
      sent := p.sent ++ deliveries p.published.length ei.storageId rs } := by
  refine ⟨?_, ?_⟩
  · simp only [List.map_append, List.pairwise_append]
    refine ⟨h.sorted, ?_, ?_⟩
    · refine List.pairwise_of_forall_mem_list fun a ha b hb => ?_
      obtain ⟨d, hd, rfl⟩ := List.mem_map.mp ha
      obtain ⟨d', hd', rfl⟩ := List.mem_map.mp hb
      rw [(mem_deliveries hd).1, (mem_deliveries hd').1]
    · intro a ha b hb
      obtain ⟨d, hd, rfl⟩ := List.mem_map.mp ha
      obtain ⟨d', hd', rfl⟩ := List.mem_map.mp hb
      rw [(mem_deliveries hd').1]
      exact (h.origin d hd).1.le
  · intro d hd
    rcases List.mem_append.mp hd with hd | hd
    · obtain ⟨hlt, horig⟩ := h.origin d hd
      refine ⟨by simp; omega, fun e he => ?_⟩
      rw [List.getElem?_append_left hlt, horig e he]
    · obtain ⟨hseq, hid, r, hr, hm, -⟩ := mem_deliveries hd
      refine ⟨by simp [hseq], fun e he => ?_⟩
      obtain ⟨i, hi⟩ := List.mem_iff_getElem?.mp hr
      obtain ⟨s, b, -, -, hn⟩ := notified hrs hi
      obtain rfl := notify_origin hn (he ▸ hm)
      rw [hseq, List.getElem?_concat_length, hid]

theorem step_ordered (p : Publisher C) (a : Step C) (p' : Publisher C) (h : Ordered p)
    (hs : step ops numericStart p a = some p') : Ordered p' := by
  cases a with
  | client id c es =>
    obtain ⟨-, rfl⟩ := step_client hs
    exact ⟨h.sorted, h.origin⟩
  | subscribe g id hd se st =>
    obtain rfl := Option.some.inj hs
    exact ⟨h.sorted, h.origin⟩
  | swap =>
    obtain ⟨-, rfl⟩ := step_swap hs
    exact ⟨h.sorted, h.origin⟩
  | publish =>
    obtain ⟨ei, rest, hl, ⟨hnone, rfl⟩ | ⟨l, rs, hsome, hrs, rfl⟩⟩ := step_publish hs
    · refine ⟨h.sorted, fun d hd => ?_⟩
      obtain ⟨hlt, horig⟩ := h.origin d hd
      refine ⟨by simp; omega, fun e he => ?_⟩
      rw [List.getElem?_append_left hlt, horig e he]
    · exact h.publish hrs _
  | sessionDies se =>
    obtain rfl := Option.some.inj hs
    exact ⟨h.sorted, h.origin⟩

/-! ## Whole runs -/

/-- In every run, once the queue is drained, a subscription whose session is alive has been sent the
events of its storage from some point on, no later than its own marker, and each session has been
sent its events in the order of the queue. -/
theorem delivered_suffix (ops : ContainerOps C) (numericStart : Bytes → Int32) (containers : UInt64 → C)
    (alive : Nat → Bool) (as : List (Step C)) (p : Publisher C)
    (hrun : run (step ops numericStart) (init containers alive) as = some p)
    (hlocal : p.localEventQueue = []) (hqueue : p.eventQueue = []) :
    (∀ id i s, (subs p id)[i]? = some s → p.alive s.session = true →
      ∃ n, eventsTo id i p.sent = (eventsFor id p.enqueued).drop n ∧
        n ≤ (eventsFor id (beforeMarker id i p.enqueued)).length) ∧
    ∀ session, ((p.sent.filter (·.session = session)).map Delivery.seq).Pairwise (· ≤ ·) ∧
      ∀ d ∈ p.sent, d.session = session → ∀ e, d.message = .event e →
        p.enqueued[d.seq]? = some ⟨d.storageId, e⟩ := by
  have hdone : p.enqueued = p.published := by simp [enqueued, hlocal, hqueue]
  have hord : Ordered p := run_invariant step_ordered (init_ordered containers alive) hrun
  refine ⟨fun id i s hs ha => ?_, fun session => ⟨?_, fun d hd _ => ?_⟩⟩
  · have htr : Tracked id p := run_invariant (step_tracked id) (init_tracked id containers alive) hrun
    have hserved := htr.served i s hs ha
    have hi : i < markers id p.published := by
      rw [← hdone, htr.marked]
      exact (List.getElem?_eq_some_iff.mp hs).1
    unfold Served at hserved
    split_ifs at hserved with hp
    · omega
    · obtain ⟨n, hto, -, hle⟩ := hserved
      exact ⟨n, by rw [hto, hdone], hle⟩
  · exact hord.sorted.sublist (List.filter_sublist.map _)
  · rw [hdone]
    exact (hord.origin d hd).2

theorem delivered_suffix_one_session :
    let ops : ContainerOps Unit := ⟨fun _ => [], fun _ => [], fun _ _ _ => some (.ok [])⟩
    let e (n : Int32) : Event := ⟨.pushBack, .int 0, .int n, .none⟩
    ∃ p, run (step ops fun _ => 0) (init (fun _ => ()) fun _ => true)
        [.client 7 () [e 1], .subscribe [] 7 1 0 [], .client 7 () [e 2], .swap, .publish, .publish] = some p ∧
      eventsTo 7 0 p.sent = [e 2] ∧
      (∀ id i s, (subs p id)[i]? = some s → p.alive s.session = true →
        ∃ n, eventsTo id i p.sent = (eventsFor id p.enqueued).drop n ∧
          n ≤ (eventsFor id (beforeMarker id i p.enqueued)).length) ∧
      ∀ session, ((p.sent.filter (·.session = session)).map Delivery.seq).Pairwise (· ≤ ·) ∧
        ∀ d ∈ p.sent, d.session = session → ∀ e, d.message = .event e →
          p.enqueued[d.seq]? = some ⟨d.storageId, e⟩ := by
  intro ops e
  generalize hr : run (step ops fun _ => 0) (init (fun _ => ()) fun _ => true) _ = r
  have hview : r.map (fun p => (p.localEventQueue, p.eventQueue, eventsTo 7 0 p.sent)) =
      some ([], [], [e 2]) := by
    rw [← hr]
    rfl
  obtain ⟨p, rfl, hp⟩ := Option.map_eq_some_iff.mp hview
  simp only [Prod.mk.injEq] at hp
  exact ⟨p, rfl, hp.2.2, delivered_suffix ops _ _ _ _ p hr hp.1 hp.2.1⟩

end Publisher

end Tiodb
