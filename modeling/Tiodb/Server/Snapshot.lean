import Tiodb.Server.Delivery
import Tiodb.Storage.Mirror

/-!
# Snapshots of one list

The marker of a subscription waits in the queue, and the snapshot is read from the
list when the publisher reaches it. An event still behind the marker is then in the
snapshot already, and the subscriber applies it once more.
-/

namespace Tiodb

open Lib

namespace Message

def applied? : Message → Option Event
  | .snapshot e => some e
  | .event e => some e
  | .newGroupContainer _ _ _ => none

end Message

namespace Publisher

open ListMirror

def listOps : ContainerOps ListStorage :=
  ⟨ListStorage.name, ListStorage.type, fun s first last => ((ListStorage.query first last .none).run s).result⟩

inductive ListStep where
  | client (op : ListStorage.Op)
  | subscribe (groupName : Bytes) (handle : UInt32) (session : Nat)
  | swap
  | publish
  | sessionDies (session : Nat)
  deriving DecidableEq, Repr

variable (id : UInt64) (numericStart : Bytes → Int32)

/-- The list of storage `id`. A change and its sink call are one critical section. -/
def listStep (p : Publisher ListStorage) : ListStep → Option (Publisher ListStorage)
  | .client op =>
    (op.exec.run { p.containers id with published := [] }).next.bind fun s =>
      step listOps numericStart p (.client id s s.published)
  | .subscribe groupName handle session =>
    step listOps numericStart p (.subscribe groupName id handle session (ascii "0"))
  | .swap => step listOps numericStart p .swap
  | .publish => step listOps numericStart p .publish
  | .sessionDies session => step listOps numericStart p (.sessionDies session)

def received (i : Nat) (p : Publisher ListStorage) : List Event :=
  (messagesTo id i p.sent).filterMap Message.applied?

/-- The publisher reaches no marker of a pending subscription with an event of the list behind it. -/
def QuietMarker (p : Publisher ListStorage) : List EventInfo → Prop
  | [] => True
  | ei :: rest =>
    isMarker id ei → (∃ s ∈ subs p id, s.snapshotPending ∧ p.alive s.session) →
      (p.containers id).data.length < 2 ^ 31 ∧ eventsFor id (rest ++ p.eventQueue) = []

/-- The step takes no snapshot with an event behind the marker, and no key out of range. -/
def Quiet (p : Publisher ListStorage) : ListStep → Prop
  | .client op => ListStorage.InRange (p.containers id) op
  | .publish => QuietMarker id p p.localEventQueue
  | _ => True

instance (p : Publisher ListStorage) : DecidablePred (QuietMarker id p)
  | [] => inferInstanceAs (Decidable True)
  | _ :: _ => inferInstanceAs (Decidable (_ → _ → _))

instance (p : Publisher ListStorage) : DecidablePred (Quiet id p)
  | .client op => inferInstanceAs (Decidable (ListStorage.InRange (p.containers id) op))
  | .publish => inferInstanceAs (Decidable (QuietMarker id p p.localEventQueue))
  | .subscribe _ _ _ => inferInstanceAs (Decidable True)
  | .swap => inferInstanceAs (Decidable True)
  | .sessionDies _ => inferInstanceAs (Decidable True)

/-! ## The invariant -/

variable {id : UInt64} {numericStart : Bytes → Int32}

/-- Where the mirror of the subscription `s` at index `i` stands: the events still queued bring it to
the list. -/
def Holds (id : UInt64) (p : Publisher ListStorage) (i : Nat) (s : SubscriptionInfo) : Prop :=
  if s.snapshotPending then messagesTo id i p.sent = []
  else ∃ l, replay onEvent [] (received id i p) = some l ∧
    replay onEvent l (eventsFor id (p.localEventQueue ++ p.eventQueue)) = some (p.containers id).data

structure Synced (id : UInt64) (p : Publisher ListStorage) : Prop where
  sink : (p.containers id).sink = true
  type : (p.containers id).type = ascii "volatile_list"
  from0 : ∀ s ∈ subs p id, s.container = id ∧ s.start = ascii "0"
  unsent : ∀ i, (subs p id).length ≤ i → messagesTo id i p.sent = []
  holds : ∀ i s, (subs p id)[i]? = some s → p.alive s.session = true → Holds id p i s

theorem init_synced (containers : UInt64 → ListStorage) (alive : Nat → Bool)
    (hsink : (containers id).sink = true) (htype : (containers id).type = ascii "volatile_list") :
    Synced id (init containers alive) :=
  ⟨hsink, htype, fun s h => by simp [subs, init] at h, fun _ _ => rfl, fun i s h => by simp [subs, init] at h⟩

theorem client_cases {s s' : ListStorage} {op : ListStorage.Op} (hsink : s.sink = true)
    (hr : ListStorage.InRange s op) (h : (op.exec.run { s with published := [] }).next = some s') :
    s'.sink = true ∧ s'.type = s.type ∧
      ((s'.published = [] ∧ s'.data = s.data) ∨
        ∃ ev, s'.published = [ev] ∧ onEvent s.data ev = some s'.data) := by
  rcases ListStorage.exec_mirrored (s := { s with published := [] }) op (by cases op <;> exact hr) with
    ⟨e, he⟩ | ⟨data, ev, hok, hev⟩
  · obtain rfl : { s with published := [] } = s' := by simpa [he, Outcome.next] using h
    exact ⟨hsink, rfl, Or.inl ⟨rfl, rfl⟩⟩
  · rw [hok] at h
    obtain rfl := Option.some.inj h
    exact ⟨hsink, rfl, Or.inr ⟨ev, by simp [ListStorage.changed, hsink], hev⟩⟩

theorem eventsFor_map (id : UInt64) (es : List Event) (h : ∀ e ∈ es, e.code ≠ .snapshotEnd) :
    eventsFor id (es.map (⟨id, ·⟩)) = es := by
  induction es with
  | nil => rfl
  | cons e es ih =>
    rw [List.map_cons, ← List.singleton_append, eventsFor_append, eventsFor_entry,
      if_pos ⟨rfl, h e (by simp)⟩, ih fun e' he' => h e' (by simp [he'])]
    rfl

theorem Synced.client {p : Publisher ListStorage} (h : Synced id p) {op : ListStorage.Op}
    {s' : ListStorage} (hr : ListStorage.InRange (p.containers id) op)
    (hs' : (op.exec.run { p.containers id with published := [] }).next = some s')
    (hcode : ∀ e ∈ s'.published, e.code ≠ .snapshotEnd) :
    Synced id { p with
      containers := Function.update p.containers id s'
      eventQueue := p.eventQueue ++
        if (p.subscribers id).isSome then s'.published.map (⟨id, ·⟩) else [] } := by
  obtain ⟨hsink, htype, hdata⟩ := client_cases h.sink hr hs'
  refine ⟨by simpa using hsink, by simpa [htype] using h.type, h.from0, h.unsent, ?_⟩
  intro i s hs ha
  have hsome : (p.subscribers id).isSome = true := by
    cases hn : p.subscribers id with
    | none => simp [subs, hn] at hs
    | some l => rfl
  have hold := h.holds i s hs ha
  unfold Holds at hold ⊢
  by_cases hp : s.snapshotPending = true
  · rw [if_pos hp] at hold ⊢
    exact hold
  rw [if_neg hp] at hold ⊢
  obtain ⟨l, hl, hrest⟩ := hold
  refine ⟨l, hl, ?_⟩
  simp only [← List.append_assoc, Function.update_self]
  rw [if_pos hsome, eventsFor_append, eventsFor_map id _ hcode]
  rcases hdata with ⟨hpub, hsame⟩ | ⟨ev, hpub, hev⟩
  · rw [hpub, List.append_nil, hrest, hsame]
  · rw [hpub, replay_concat ev hrest, hev]

theorem Synced.subscribe {p : Publisher ListStorage} (h : Synced id p) (g : Bytes) (hd : UInt32) (se : Nat) :
    Synced id (sessionAsyncSubscribe p ⟨g, id, hd, se, ascii "0", true⟩) := by
  have hsubs : subs (sessionAsyncSubscribe p ⟨g, id, hd, se, ascii "0", true⟩) id =
      subs p id ++ [⟨g, id, hd, se, ascii "0", true⟩] := by
    simp [subs, sessionAsyncSubscribe]
  refine ⟨h.sink, h.type, ?_, ?_, ?_⟩
  · intro s hs
    rw [hsubs, List.mem_append, List.mem_singleton] at hs
    rcases hs with hs | rfl
    · exact h.from0 s hs
    · exact ⟨rfl, rfl⟩
  · intro i hi
    rw [hsubs, List.length_append] at hi
    exact h.unsent i (by omega)
  · intro i s hs ha
    rw [hsubs] at hs
    by_cases hi : i < (subs p id).length
    · rw [List.getElem?_append_left hi] at hs
      have hold := h.holds i s hs ha
      unfold Holds at hold ⊢
      have hev : eventsFor id (p.localEventQueue ++ (p.eventQueue ++ [⟨id, snapshotEnd⟩])) =
          eventsFor id (p.localEventQueue ++ p.eventQueue) := by
        rw [← List.append_assoc, eventsFor_append, eventsFor_entry, if_neg (by simp [snapshotEnd]),
          List.append_nil]
      simp only [sessionAsyncSubscribe, hev]
      exact hold
    · rw [List.getElem?_append_right (by omega)] at hs
      obtain ⟨hlt, rfl⟩ := List.getElem?_eq_some_iff.mp hs
      rw [Holds, List.getElem_singleton, if_pos rfl]
      exact h.unsent i (by omega)

theorem applied?_snapshotMessages (s : SubscriptionInfo) (c : ListStorage) (data : List ValueAndMetadata) :
    replay onEvent [] ((groupMessages listOps s c ++
      snapshotMessages .pushBack (ListStorage.resultSet data 0 0 data.length)).filterMap Message.applied?) =
        some data := by
  have hg : (groupMessages listOps s c).filterMap Message.applied? = [] := by
    unfold groupMessages
    split_ifs <;> rfl
  have hrs : (snapshotMessages .pushBack (ListStorage.resultSet data 0 0 data.length)).filterMap
      Message.applied? = (data.zipIdx.map fun p =>
        ⟨.pushBack, .int (0 + Int32.ofNat p.2), p.1.value, p.1.metadata⟩) ++ [snapshotEnd] := by
    simp [snapshotMessages, ListStorage.resultSet, Message.applied?, Function.comp_def]
  rw [List.filterMap_append, hg, hrs, List.nil_append]
  rw [replay_concat snapshotEnd (replay_resultSet [] data 0)]
  rfl

/-- The marker of a quiet step reaches the subscription `s`: it gets the list as it is, or has it. -/
theorem Holds.marker {p q p' : Publisher ListStorage} {i : Nat} {ei : EventInfo} {rest : List EventInfo}
    {s s' : SubscriptionInfo} {ms : List Message} (h : Synced id p) (hs : (subs p id)[i]? = some s)
    (ha : p.alive s.session = true) (hstart : numericStart (ascii "0") = 0)
    (hquiet : Quiet id p .publish) (hlocal : p.localEventQueue = ei :: rest) (hm : isMarker id ei = true)
    (hqc : q.containers = p.containers)
    (hn : publishSnapshot listOps numericStart q s = some (s', ms))
    (hlocal' : p'.localEventQueue = rest) (hqueue' : p'.eventQueue = p.eventQueue)
    (hcont' : p'.containers = p.containers)
    (hsent : messagesTo id i p'.sent = messagesTo id i p.sent ++ ms) : Holds id p' i s' := by
  have hmem : s ∈ subs p id := List.mem_of_getElem? hs
  have hold := h.holds i s hs ha
  rw [Quiet, hlocal] at hquiet
  have hqueue : eventsFor id (p.localEventQueue ++ p.eventQueue) = eventsFor id (rest ++ p.eventQueue) := by
    have hcode : ei.event.code = .snapshotEnd := by simp_all [isMarker]
    rw [hlocal, List.cons_append, ← List.singleton_append, eventsFor_append, eventsFor_entry,
      if_neg (by simp [hcode]), List.nil_append]
  unfold Holds at hold ⊢
  rw [received, hsent, hlocal', hqueue', hcont']
  rw [hqueue] at hold
  rcases publishSnapshot_cases hn with ⟨rfl, rfl, hdead⟩ | ⟨hp, rfl, rfl, hfail⟩ | ⟨hp, rfl, rs, hrs, rfl⟩
  · simpa [received] using hold
  all_goals
    obtain ⟨hc, h0⟩ := h.from0 s hmem
    obtain ⟨hlen, hnone⟩ := hquiet hm ⟨s, hmem, hp, ha⟩
    have hquery : listOps.query (q.containers s.container) (numericStart s.start) 0 =
        some (.ok (ListStorage.resultSet (p.containers id).data 0 0 (p.containers id).data.length)) := by
      rw [hqc, hc, h0, hstart]
      simp [listOps, ListStorage.query_all _ hlen, Outcome.result]
  · -- The query of a whole list does not fail, and the start is not empty.
    rcases hfail with hnil | ⟨e, he⟩
    · rw [h0] at hnil
      cases hnil
    · rw [hquery] at he
      cases he
  · rw [if_pos hp] at hold
    rw [hquery] at hrs
    obtain rfl := Except.ok.inj (Option.some.inj hrs)
    have hmap : isMapContainer listOps (q.containers s.container) = false := by
      rw [isMapContainer, hqc, hc]
      simp only [listOps, h.type]
      decide
    rw [if_neg (by simp), hmap, hold, List.nil_append]
    refine ⟨_, applied?_snapshotMessages s _ _, ?_⟩
    rw [hnone]
    rfl

theorem Holds.event {p q p' : Publisher ListStorage} {i : Nat} {ei : EventInfo} {rest : List EventInfo}
    {s s' : SubscriptionInfo} {ms : List Message} (hold : Holds id p i s)
    (ha : p.alive s.session = true) (hlocal : p.localEventQueue = ei :: rest) (hid : ei.storageId = id)
    (hcode : ei.event.code ≠ .snapshotEnd) (hqa : q.alive = p.alive)
    (hn : notify listOps numericStart q ei.event s = some (s', ms))
    (hlocal' : p'.localEventQueue = rest) (hqueue' : p'.eventQueue = p.eventQueue)
    (hcont' : p'.containers = p.containers)
    (hsent : messagesTo id i p'.sent = messagesTo id i p.sent ++ ms) : Holds id p' i s' := by
  obtain ⟨rfl, rfl⟩ := notify_event hcode hn
  have hqueue : eventsFor id (p.localEventQueue ++ p.eventQueue) =
      ei.event :: eventsFor id (rest ++ p.eventQueue) := by
    rw [hlocal, List.cons_append, ← List.singleton_append, eventsFor_append, eventsFor_entry,
      if_pos ⟨hid, hcode⟩]
    rfl
  unfold Holds at hold ⊢
  rw [received, hsent, hlocal', hqueue', hcont']
  by_cases hp : s'.snapshotPending = true
  · rw [if_pos hp] at hold ⊢
    simp [hold, hp]
  · rw [if_neg hp, hqueue] at hold
    rw [if_neg hp]
    obtain ⟨l, hl, hrep⟩ := hold
    obtain ⟨l', hl', hrest⟩ := Option.bind_eq_some_iff.mp (replay_cons.symm.trans hrep)
    refine ⟨l', ?_, hrest⟩
    rw [List.filterMap_append]
    simp only [hp, hqa, ha]
    exact (replay_concat ei.event hl).trans hl'

theorem Synced.skip {p p' : Publisher ListStorage} (h : Synced id p) {ei : EventInfo} {rest : List EventInfo}
    (hlocal : p.localEventQueue = ei :: rest) (hno : ei.storageId = id → subs p id = [])
    (hlocal' : p'.localEventQueue = rest) (hqueue' : p'.eventQueue = p.eventQueue)
    (hcont' : p'.containers = p.containers) (halive : p'.alive = p.alive) (hsubs : subs p' id = subs p id)
    (hsent : ∀ i, messagesTo id i p'.sent = messagesTo id i p.sent) : Synced id p' := by
  refine ⟨by rw [hcont', h.sink], by rw [hcont', h.type], by rw [hsubs]; exact h.from0, ?_, ?_⟩
  · intro i hi
    rw [hsubs] at hi
    rw [hsent, h.unsent i hi]
  · intro i s hs ha
    rw [hsubs] at hs
    rw [halive] at ha
    have hid : ei.storageId ≠ id := fun heq => by simp [hno heq] at hs
    have hold := h.holds i s hs ha
    unfold Holds received at hold ⊢
    rw [hlocal, List.cons_append, ← List.singleton_append, eventsFor_append, eventsFor_entry,
      if_neg (c := ei.storageId = id ∧ _) (by simp [hid]), List.nil_append] at hold
    rwa [hsent, hlocal', hqueue', hcont']

theorem Synced.publish {p q : Publisher ListStorage} (h : Synced id p) {ei : EventInfo}
    {rest : List EventInfo} {l : List SubscriptionInfo} {rs : List (SubscriptionInfo × List Message)}
    (hstart : numericStart (ascii "0") = 0) (hquiet : Quiet id p .publish)
    (hlocal : p.localEventQueue = ei :: rest) (hl : p.subscribers ei.storageId = some l)
    (hqa : q.alive = p.alive) (hqc : q.containers = p.containers)
    (hrs : l.mapM (notify listOps numericStart q ei.event) = some rs) :
    Synced id { p with
      localEventQueue := rest
      subscribers := Function.update p.subscribers ei.storageId (some (rs.map Prod.fst))
      published := p.published ++ [ei]
      sent := p.sent ++ deliveries p.published.length ei.storageId rs } := by
  have hsent (i : Nat) : messagesTo id i (p.sent ++ deliveries p.published.length ei.storageId rs) =
      messagesTo id i p.sent ++ if ei.storageId = id then (rs[i]?.map Prod.snd).getD [] else [] := by
    rw [messagesTo_append, messagesTo_deliveries]
  by_cases hid : ei.storageId = id
  case neg =>
    refine h.skip hlocal (fun heq => absurd heq hid) rfl rfl rfl rfl ?_ fun i => ?_
    · simp only [subs]
      rw [Function.update_of_ne (Ne.symm hid)]
    · rw [hsent, if_neg hid, List.append_nil]
  have hsubs : subs p id = l := by rw [subs, ← hid, hl, Option.getD_some]
  refine ⟨h.sink, h.type, ?_, ?_, ?_⟩
  · intro s' hs'
    simp only [subs, hid, Function.update_self, Option.getD_some] at hs'
    obtain ⟨⟨t, ms⟩, hr, rfl⟩ := List.mem_map.mp hs'
    obtain ⟨i, hi⟩ := List.mem_iff_getElem?.mp hr
    obtain ⟨s, b, hs, rfl, -⟩ := notified hrs hi
    rw [← hsubs] at hs
    exact h.from0 s (List.mem_of_getElem? hs)
  · intro i hi
    simp only [subs, hid, Function.update_self, Option.getD_some, List.length_map] at hi
    rw [hsent, h.unsent i (by rwa [hsubs, ← length_of_mapM hrs]), List.getElem?_eq_none hi]
    simp
  · intro i s' hs' ha
    simp only [subs, hid, Function.update_self, Option.getD_some, List.getElem?_map,
      Option.map_eq_some_iff] at hs'
    obtain ⟨⟨t, ms⟩, hr, rfl⟩ := hs'
    obtain ⟨s, b, hs, hb, hn⟩ := notified hrs hr
    rw [← hsubs] at hs
    have ha' : p.alive s.session = true := by
      rw [hb] at ha
      exact ha
    have hms : messagesTo id i (p.sent ++ deliveries p.published.length ei.storageId rs) =
        messagesTo id i p.sent ++ ms := by
      rw [hsent, if_pos hid, hr]
      rfl
    by_cases hcode : ei.event.code = .snapshotEnd
    · rw [notify, if_pos hcode] at hn
      exact Holds.marker h hs ha' hstart hquiet hlocal (by simp [isMarker, hid, hcode]) hqc hn rfl rfl rfl hms
    · exact Holds.event (h.holds i s hs ha') ha' hlocal hid hcode hqa hn rfl rfl rfl hms

/-! ## Whole runs -/

theorem listStep_synced (hstart : numericStart (ascii "0") = 0) (p : Publisher ListStorage) (a : ListStep)
    (p' : Publisher ListStorage) (h : Synced id p) (hq : Quiet id p a)
    (hs : listStep id numericStart p a = some p') : Synced id p' := by
  cases a with
  | client op =>
    obtain ⟨s, hnext, hs⟩ := Option.bind_eq_some_iff.mp hs
    obtain ⟨hes, rfl⟩ := step_client hs
    exact h.client hq hnext hes
  | subscribe g hd se =>
    obtain rfl := Option.some.inj hs
    exact h.subscribe g hd se
  | swap =>
    rw [listStep] at hs
    obtain ⟨hl, rfl⟩ := step_swap hs
    refine ⟨h.sink, h.type, h.from0, h.unsent, fun i s hs ha => ?_⟩
    have hold := h.holds i s hs ha
    unfold Holds received at hold ⊢
    simpa [hl] using hold
  | publish =>
    rw [listStep] at hs
    obtain ⟨ei, rest, hl, ⟨hnone, rfl⟩ | ⟨l, rs, hsome, hrs, rfl⟩⟩ := step_publish hs
    · exact h.skip hl (fun hid => by rw [subs, ← hid, hnone]; rfl) rfl rfl rfl rfl rfl fun _ => rfl
    · exact h.publish hstart hq hl hsome rfl rfl hrs
  | sessionDies se =>
    obtain rfl := Option.some.inj hs
    refine ⟨h.sink, h.type, h.from0, h.unsent, fun i s hs ha => ?_⟩
    have hne : s.session ≠ se := fun heq => by simp [heq] at ha
    exact h.holds i s hs (by simpa [Function.update_of_ne hne] using ha)

/-- In every run of quiet steps, once the queue is empty, the mirror of a subscription that has its
snapshot holds the list. -/
theorem subscriber_holds_list (id : UInt64) (numericStart : Bytes → Int32)
    (hstart : numericStart (ascii "0") = 0) (containers : UInt64 → ListStorage) (alive : Nat → Bool)
    (hsink : (containers id).sink = true) (htype : (containers id).type = ascii "volatile_list")
    (as : List ListStep) (p : Publisher ListStorage)
    (hquiet : Meets (listStep id numericStart) (Quiet id) (init containers alive) as)
    (hrun : run (listStep id numericStart) (init containers alive) as = some p)
    (hlocal : p.localEventQueue = []) (hqueue : p.eventQueue = []) (i : Nat) (s : SubscriptionInfo)
    (hs : (subs p id)[i]? = some s) (ha : p.alive s.session = true) (hp : s.snapshotPending = false) :
    replay onEvent [] (received id i p) = some (p.containers id).data := by
  have h : Synced id p := run_keeps (listStep_synced hstart) (init_synced containers alive hsink htype) hquiet hrun
  have hold := h.holds i s hs ha
  rw [Holds, if_neg (by simp [hp]), hlocal, hqueue] at hold
  obtain ⟨l, hl, hrest⟩ := hold
  rw [hl]
  exact hrest

def emptyList : ListStorage := { ListStorage.new (ascii "l") (ascii "volatile_list") with sink := true }

def push (n : Int32) : ListStep := .client (.pushBack .none (.int n) .none)

theorem subscriber_holds_list_two_records :
    ∃ p, run (listStep 7 fun _ => 0) (init (fun _ => emptyList) fun _ => true)
        [push 1, .subscribe [] 1 0, .swap, .publish, push 2, .swap, .publish] = some p ∧
      replay onEvent [] (received 7 0 p) = some (p.containers 7).data := by
  generalize hr : run (listStep 7 fun _ => 0) (init (fun _ => emptyList) fun _ => true) _ = r
  have hview : r.map (fun p => (p.localEventQueue, p.eventQueue, (subs p 7)[0]?, p.alive 0)) =
      some ([], [], some ⟨[], 7, 1, 0, ascii "0", false⟩, true) := by
    rw [← hr]
    rfl
  obtain ⟨p, rfl, hp⟩ := Option.map_eq_some_iff.mp hview
  simp only [Prod.mk.injEq] at hp
  refine ⟨p, rfl, subscriber_holds_list 7 _ rfl _ _ rfl rfl _ p (by decide) hr hp.1 hp.2.1 0 _ hp.2.2.1
    hp.2.2.2 rfl⟩

/-- A record pushed while the marker waits is in the snapshot, and comes once more as an event. -/
theorem record_behind_marker_twice :
    (run (listStep 7 fun _ => 0) (init (fun _ => emptyList) fun _ => true)
      [.subscribe [] 1 0, push 5, .swap, .publish, .publish]).map
        (fun p => (p.localEventQueue ++ p.eventQueue, (subs p 7).map (·.snapshotPending), p.alive 0,
          (p.containers 7).data, replay onEvent [] (received 7 0 p))) =
      some ([], [false], true, [⟨.int 5, .none⟩], some [⟨.int 5, .none⟩, ⟨.int 5, .none⟩]) := by
  rfl

end Publisher

end Tiodb
