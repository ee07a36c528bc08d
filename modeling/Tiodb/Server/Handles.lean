import Tiodb.Server.Sessions

/-!
# What a session gets under a handle

After a handle was unsubscribed or closed, and before it was told to the client.
-/

namespace Tiodb

open Lib

namespace Publisher

variable {C : Type} {ops : ContainerOps C} {numericStart : Bytes → Int32} {p p' : Publisher C}

/-- A step that is no subscription: it sends to those who subscribed, and leaves them subscribed. -/
theorem step_sends {b : Step C} (h : step ops numericStart p b = some p')
    (hb : ∀ g c hd se st, b ≠ .subscribe g c hd se st) :
    ∃ ds, p'.sent = p.sent ++ ds ∧
      (∀ d ∈ ds, ∃ info ∈ subs p d.storageId, info.session = d.session ∧ info.handle = d.handle) ∧
      (∀ id, ∀ info ∈ subs p' id, ∃ info' ∈ subs p id, info'.session = info.session ∧ info'.handle = info.handle) ∧
      p.enqueued.length ≤ p'.enqueued.length := by
  have hsame (id : UInt64) : ∀ info ∈ subs p id, ∃ info' ∈ subs p id,
      info'.session = info.session ∧ info'.handle = info.handle := fun info hi => ⟨info, hi, rfl, rfl⟩
  cases b with
  | client id c es =>
    obtain ⟨-, rfl⟩ := step_client h
    exact ⟨[], by simp, by simp, hsame, by simp [enqueued]⟩
  | subscribe g c hd se st => exact absurd rfl (hb g c hd se st)
  | swap =>
    obtain ⟨hl, rfl⟩ := step_swap h
    exact ⟨[], by simp, by simp, hsame, by simp [enqueued, hl]⟩
  | sessionDies se =>
    obtain rfl := Option.some.inj h
    exact ⟨[], by simp, by simp, hsame, le_rfl⟩
  | publish =>
    obtain ⟨ei, rest, hl, ⟨hnone, rfl⟩ | ⟨l, rs, hsome, hrs, rfl⟩⟩ := step_publish h
    · exact ⟨[], by simp, by simp, hsame, by simp [enqueued, hl]⟩
    · have hsubs : subs p ei.storageId = l := by rw [subs, hsome, Option.getD_some]
      have horigin : ∀ r ∈ rs, ∃ info ∈ l, info.session = r.1.session ∧ info.handle = r.1.handle := by
        intro r hr
        obtain ⟨i, hi⟩ := List.mem_iff_getElem?.mp hr
        obtain ⟨info, b, hs, hr', -⟩ := notified hrs hi
        exact ⟨info, List.mem_of_getElem? hs, by rw [hr'], by rw [hr']⟩
      refine ⟨_, rfl, fun d hd => ?_, fun id info hi => ?_, by simp [enqueued, hl]⟩
      · obtain ⟨-, hid, r, hr, -, hse, hh⟩ := mem_deliveries hd
        obtain ⟨info, hinfo, hse', hh'⟩ := horigin r hr
        exact ⟨info, by rwa [hid, hsubs], hse'.trans hse.symm, hh'.trans hh.symm⟩
      · by_cases hid : ei.storageId = id
        · subst hid
          simp only [subs, Function.update_self, Option.getD_some] at hi
          obtain ⟨r, hr, rfl⟩ := List.mem_map.mp hi
          rw [hsubs]
          exact horigin r hr
        · simp only [subs] at hi
          rw [Function.update_of_ne (Ne.symm hid)] at hi
          exact hsame id info hi

end Publisher

namespace Server

variable {C : Type} {ops : ContainerOps C} {numericStart : Bytes → Int32} {s s' : Server C} {a : Action C}

theorem publisherStep?_ne {b : Publisher.Step C} (h : a.publisherStep? = some b) (g : Bytes) (c : UInt64)
    (hd : UInt32) (se : Nat) (st : Bytes) : b ≠ .subscribe g c hd se st := by
  rintro rfl
  cases a <;> cases h

/-! ## After unsubscribing -/

/-- Some subscription of the session is under the handle. -/
def Holds (s : Server C) (session : Nat) (handle : UInt32) : Prop :=
  ∃ id, ∃ info ∈ Publisher.subs s.publisher id, info.session = session ∧ info.handle = handle

/-- A handle is unsubscribed or closed only if nothing is subscribed under it. -/
def LeavesUnheld (s : Server C) (a : Action C) : Prop :=
  ∀ session handle, a.Leaves session handle → ¬ s.Holds session handle

def Left (s : Server C) : Prop :=
  ∀ session handle n, s.unsubscribed session handle = some n →
    n ≤ s.publisher.enqueued.length ∧ ¬ s.Holds session handle ∧
      ∀ d ∈ s.publisher.sent, d.session = session → d.handle = handle → d.seq < n

theorem Left.commanded (h : s.Left) {infos : List SubscriptionInfo} {out : List (Nat × Outgoing)}
    (hcmd : Commanded a s s' infos out) (hord : s.publisher.Ordered) (ha : s.LeavesUnheld a) : s'.Left := by
  intro session handle n hn
  obtain ⟨hsent, -, -, -, added, henq⟩ := subscribed_frame s.publisher infos
  rw [← hcmd.publisher] at hsent henq
  have hheld : ¬ s.Holds session handle → (∀ info ∈ infos, ¬ (info.session = session ∧ info.handle = handle)) →
      ¬ s'.Holds session handle := by
    rintro hno hnew ⟨id, info, hi, hinfo⟩
    rw [hcmd.publisher, subs_subscribed] at hi
    rcases List.mem_append.mp hi with hi | hi
    · exact hno ⟨id, info, hi, hinfo⟩
    · exact hnew info (List.mem_of_mem_filter hi) hinfo
  rw [hsent, henq, List.length_append]
  rcases hcmd.unsubscribed session handle n hn with ⟨hold, hnew⟩ | ⟨rfl, rfl, hl⟩
  · obtain ⟨hle, hno, hseq⟩ := h session handle n hold
    exact ⟨by omega, hheld hno hnew, hseq⟩
  · -- everything sent so far was enqueued before
    refine ⟨by omega, hheld (ha session handle hl) (by simp), fun d hd _ _ => ?_⟩
    have hlt := (hord.origin d hd).1
    rw [Publisher.enqueued, List.length_append]
    omega

theorem Left.publisherStep (h : s.Left) {b : Publisher.Step C} (hb : a.publisherStep? = some b)
    (hs : s.publisherStep ops numericStart b = some s') : s'.Left := by
  obtain ⟨p, hp, rfl⟩ := Option.map_eq_some_iff.mp hs
  obtain ⟨ds, hsent, hds, hsubs, hle⟩ := Publisher.step_sends hp (publisherStep?_ne hb)
  intro session handle n hn
  obtain ⟨hn', hno, hseq⟩ := h session handle n hn
  refine ⟨hn'.trans hle, ?_, fun d hd hse hh => ?_⟩
  · rintro ⟨id, info, hi, hse, hh⟩
    obtain ⟨info', hi', hse', hh'⟩ := hsubs id info hi
    exact hno ⟨id, info', hi', hse'.trans hse, hh'.trans hh⟩
  · dsimp only at hd
    rw [hsent] at hd
    rcases List.mem_append.mp hd with hd | hd
    · exact hseq d hd hse hh
    · obtain ⟨info, hi, hse', hh'⟩ := hds d hd
      exact absurd ⟨_, info, hi, hse'.trans hse, hh'.trans hh⟩ hno

/-- In every run in which handles are unsubscribed or closed only while nothing is subscribed under them, nothing that
was enqueued afterwards is delivered under the handle, unless the session subscribes under it again. -/
theorem nothing_after_unsubscribe (containers : UInt64 → C) (alive binaryProtocol : Nat → Bool)
    {as : List (Action C)} {s : Server C}
    (hm : Meets (step ops numericStart) LeavesUnheld (init containers alive binaryProtocol) as)
    (hr : run (step ops numericStart) (init containers alive binaryProtocol) as = some s) :
    ∀ session handle n, s.unsubscribed session handle = some n →
      ∀ d ∈ s.publisher.sent, d.session = session → d.handle = handle → d.seq < n := by
  have hleft : s.Left ∧ s.publisher.Ordered := by
    refine run_keeps (I := fun s => s.Left ∧ s.publisher.Ordered) (fun s a s' h ha hs => ⟨?_, ?_⟩)
      ⟨fun _ _ _ h => (Option.some_ne_none _ h.symm).elim, Publisher.init_ordered containers alive⟩ hm hr
    · rcases step_cases hs with ⟨-, infos, out, hcmd⟩ | ⟨b, hb, hs⟩
      · exact h.1.commanded hcmd h.2 ha
      · exact h.1.publisherStep hb hs
    · obtain ⟨bs, hbs⟩ := step_publisher hs
      exact run_invariant Publisher.step_ordered h.2 hbs
  intro session handle n hn
  exact (hleft.1 session handle n hn).2.2

theorem nothing_after_unsubscribe_other_handle :
    let ops : ContainerOps Unit := ⟨fun _ => [], fun _ => [], fun _ _ _ => some (.ok [])⟩
    let e : Event := ⟨.pushBack, .int 0, .int 5, .none⟩
    ∃ s, run (step ops fun _ => 0) (init (fun _ => ()) (fun _ => true) fun _ => true)
        [.onOpen 0 (ascii "a") 7, .onOpen 0 (ascii "b") 8, .onSubscribe 0 1 [], .onUnsubscribe 0 2, .mutate 7 () [e],
          .swap, .publish, .publish] = some s ∧
      s.unsubscribed 0 2 = some 1 ∧ s.publisher.sent = [⟨1, 7, 0, 0, 1, .event e⟩] ∧
      ∀ d ∈ s.publisher.sent, d.session = 0 → d.handle = 2 → d.seq < 1 := by
  intro ops e
  generalize hr : run (step ops fun _ => 0) (init (fun _ => ()) (fun _ => true) fun _ => true) _ = r
  have hview : r.map (fun s => (s.unsubscribed 0 2, s.publisher.sent)) =
      some (some 1, [⟨1, 7, 0, 0, 1, .event e⟩]) := by
    rw [← hr]
    rfl
  obtain ⟨s, rfl, hs⟩ := Option.map_eq_some_iff.mp hview
  simp only [Prod.mk.injEq] at hs
  refine ⟨s, rfl, hs.1, hs.2, nothing_after_unsubscribe _ _ _ ?_ hr 0 2 1 hs.1⟩
  refine ⟨fun _ _ h => h.elim, fun s₁ h₁ => ⟨fun _ _ h => h.elim, fun s₂ h₂ => ⟨fun _ _ h => h.elim, fun s₃ h₃ => ?_⟩⟩⟩
  obtain rfl := Option.some.inj h₁
  obtain rfl := Option.some.inj h₂
  obtain rfl := Option.some.inj h₃
  refine ⟨?_, fun _ _ => ⟨fun _ _ h => h.elim, fun _ _ => ⟨fun _ _ h => h.elim, fun _ _ => ⟨fun _ _ h => h.elim,
    fun _ _ => ⟨fun _ _ h => h.elim, fun _ _ => trivial⟩⟩⟩⟩⟩
  rintro session handle ⟨rfl, rfl⟩ ⟨id, info, hi, -, hh⟩
  -- the only subscription is under the other handle
  have hinfo : Publisher.subs (subscribed (Publisher.init (fun _ => ()) fun _ => true)
      [⟨[], 7, 1, 0, [], true⟩]) id = [⟨[], 7, 1, 0, [], true⟩].filter (·.container = id) :=
    subs_subscribed _ _ _
  replace hi := List.mem_of_mem_filter (hinfo ▸ hi)
  rw [List.mem_singleton.mp hi] at hh
  exact absurd hh (by decide)

/-- The session unsubscribes, and gets the next event under the handle. -/
theorem event_after_unsubscribe :
    let ops : ContainerOps Unit := ⟨fun _ => [], fun _ => [], fun _ _ _ => some (.ok [])⟩
    let e : Event := ⟨.pushBack, .int 0, .int 5, .none⟩
    ∃ s, run (step ops fun _ => 0) (init (fun _ => ()) (fun _ => true) fun _ => true)
        [.onOpen 0 (ascii "a") 7, .onSubscribe 0 1 [], .onUnsubscribe 0 1, .mutate 7 () [e], .swap, .publish,
          .publish] = some s ∧
      s.unsubscribed 0 1 = some 1 ∧ s.publisher.sent = [⟨1, 7, 0, 0, 1, .event e⟩] ∧
      s.wire = [(0, .answerHandle 1), (0, .answer), (0, .answer), (0, .published 1 (.event e))] := by
  intro ops e
  generalize hr : run (step ops fun _ => 0) (init (fun _ => ()) (fun _ => true) fun _ => true) _ = r
  have hview : r.map (fun s => (s.unsubscribed 0 1, s.publisher.sent, s.wire)) =
      some (some 1, [⟨1, 7, 0, 0, 1, .event e⟩],
        [(0, .answerHandle 1), (0, .answer), (0, .answer), (0, .published 1 (.event e))]) := by
    rw [← hr]
    rfl
  obtain ⟨s, rfl, hs⟩ := Option.map_eq_some_iff.mp hview
  simp only [Prod.mk.injEq] at hs
  exact ⟨s, rfl, hs⟩

/-! ## Before an event -/

/-- The message tells the client this handle. -/
def Tells (handle : UInt32) : Outgoing → Prop
  | .answerHandle h => h = handle
  | .published h (.newGroupContainer ..) => h = handle
  | _ => False

/-- The message is an event, of a snapshot or not, and carries this handle. -/
def Carries (handle : UInt32) : Outgoing → Prop
  | .published h (.snapshot _) => h = handle
  | .published h (.event _) => h = handle
  | _ => False

def Told (wire : List (Nat × Outgoing)) (session : Nat) (handle : UInt32) : Prop :=
  ∃ m, (session, m) ∈ wire ∧ Tells handle m

/-- Every event on the wire comes after a message that told its handle. -/
def Announced (wire : List (Nat × Outgoing)) : Prop :=
  ∀ before session m after, wire = before ++ (session, m) :: after →
    ∀ handle, Carries handle m → Told before session handle

/-- The branch of the publisher that announces the container. -/
def Announces (ops : ContainerOps C) (numericStart : Bytes → Int32) (s : Server C) (info : SubscriptionInfo) : Prop :=
  info.groupName ≠ [] ∧ info.start ≠ [] ∧
    ∃ rs, ops.query (s.publisher.containers info.container) (numericStart info.start) 0 = some (.ok rs)

/-- The pending subscriptions, served in order: each is under a handle that was told, or announces it. -/
def ServesTold (ops : ContainerOps C) (numericStart : Bytes → Int32) (s : Server C) (told : Nat → UInt32 → Prop) :
    List SubscriptionInfo → Prop
  | [] => True
  | info :: infos =>
    (info.snapshotPending = true → s.live info.session = true →
      told info.session info.handle ∨ Announces ops numericStart s info) ∧
    ServesTold ops numericStart s (fun session handle => told session handle ∨
      (info.snapshotPending = true ∧ s.live info.session = true ∧ Announces ops numericStart s info ∧
        session = info.session ∧ handle = info.handle)) infos

/-- When the publisher reaches a marker, the subscriptions it serves are under handles that the clients know by then. -/
def PublishesTold (ops : ContainerOps C) (numericStart : Bytes → Int32) (s : Server C) : Action C → Prop
  | .publish => ∀ ei rest, s.publisher.localEventQueue = ei :: rest → ei.event.code = .snapshotEnd →
      ServesTold ops numericStart s (Told s.wire) (Publisher.subs s.publisher ei.storageId)
  | _ => True

instance Tells.decide (handle : UInt32) : (m : Outgoing) → Decidable (Tells handle m)
  | .answer => isFalse id
  | .error => isFalse id
  | .answerHandle h => inferInstanceAs (Decidable (h = handle))
  | .published h (.newGroupContainer ..) => inferInstanceAs (Decidable (h = handle))
  | .published _ (.snapshot _) => isFalse id
  | .published _ (.event _) => isFalse id

instance Told.decide (wire : List (Nat × Outgoing)) (session : Nat) (handle : UInt32) :
    Decidable (Told wire session handle) :=
  decidable_of_iff (∃ x ∈ wire, x.1 = session ∧ Tells handle x.2) ⟨
    fun ⟨x, hx, hse, ht⟩ => ⟨x.2, hse ▸ hx, ht⟩, fun ⟨m, hm, ht⟩ => ⟨(session, m), hm, rfl, ht⟩⟩

instance Announces.decide (ops : ContainerOps C) (numericStart : Bytes → Int32) (s : Server C)
    (info : SubscriptionInfo) : Decidable (Announces ops numericStart s info) :=
  match h : ops.query (s.publisher.containers info.container) (numericStart info.start) 0 with
  | none => isFalse fun ⟨_, _, _, hq⟩ => by simp [h] at hq
  | some (.error _) => isFalse fun ⟨_, _, _, hq⟩ => by simp [h] at hq
  | some (.ok rs) =>
    decidable_of_iff (info.groupName ≠ [] ∧ info.start ≠ []) ⟨fun hi => ⟨hi.1, hi.2, rs, h⟩, fun hi => ⟨hi.1, hi.2.1⟩⟩

instance ServesTold.decide (ops : ContainerOps C) (numericStart : Bytes → Int32) (s : Server C) :
    (told : Nat → UInt32 → Prop) → [∀ se h, Decidable (told se h)] → (infos : List SubscriptionInfo) →
      Decidable (ServesTold ops numericStart s told infos)
  | _, _, [] => isTrue trivial
  | told, _, info :: infos =>
    have := ServesTold.decide ops numericStart s (fun session handle => told session handle ∨
      (info.snapshotPending = true ∧ s.live info.session = true ∧ Announces ops numericStart s info ∧
        session = info.session ∧ handle = info.handle)) infos
    inferInstanceAs (Decidable (_ ∧ _))

instance PublishesTold.decide (ops : ContainerOps C) (numericStart : Bytes → Int32) (s : Server C) :
    (a : Action C) → Decidable (PublishesTold ops numericStart s a)
  | .publish =>
    match h : s.publisher.localEventQueue with
    | [] => isTrue fun ei rest hl => by simp [h] at hl
    | ei :: _ =>
      decidable_of_iff (ei.event.code = .snapshotEnd →
        ServesTold ops numericStart s (Told s.wire) (Publisher.subs s.publisher ei.storageId)) ⟨
        fun hi ei' rest' hl => by
          obtain ⟨rfl, -⟩ := List.cons.inj (h.symm.trans hl)
          exact hi,
        fun hi => hi ei _ h⟩
  | .refused _ => isTrue trivial
  | .onOpen .. => isTrue trivial
  | .onClose .. => isTrue trivial
  | .onSubscribe .. => isTrue trivial
  | .onUnsubscribe .. => isTrue trivial
  | .onGroupAdd .. => isTrue trivial
  | .onGroupSubscribe .. => isTrue trivial
  | .mutate .. => isTrue trivial
  | .swap => isTrue trivial
  | .invalidateConnection _ => isTrue trivial
  | .sessionDies _ => isTrue trivial

variable {wire : List (Nat × Outgoing)} {session : Nat} {handle : UInt32}

theorem Told.append (h : Told wire session handle) (more : List (Nat × Outgoing)) :
    Told (wire ++ more) session handle := by
  obtain ⟨m, hm, ht⟩ := h
  exact ⟨m, List.mem_append_left more hm, ht⟩

theorem Announced.concat (h : Announced wire) {m : Outgoing}
    (hm : ∀ handle, Carries handle m → Told wire session handle) : Announced (wire ++ [(session, m)]) := by
  intro before session' m' after heq handle' hc
  rcases List.eq_nil_or_concat after with rfl | ⟨after, x, rfl⟩
  · obtain ⟨rfl, hx⟩ := List.append_inj' heq rfl
    obtain ⟨rfl, rfl⟩ := Prod.mk.inj (List.cons.inj hx).1
    exact hm handle' hc
  · rw [List.concat_eq_append, ← List.cons_append, ← List.append_assoc] at heq
    obtain ⟨hw, -⟩ := List.append_inj' heq rfl
    exact h before session' m' after hw handle' hc

theorem Announced.append (h : Announced wire) {out : List (Nat × Outgoing)}
    (hout : ∀ x ∈ out, ∀ handle, Carries handle x.2 → Told wire x.1 handle) : Announced (wire ++ out) := by
  induction out generalizing wire with
  | nil => simpa using h
  | cons x out ih =>
    rw [← List.singleton_append, ← List.append_assoc]
    refine ih (h.concat fun hd hc => hout x (by simp) hd hc) fun y hy hd hc => ?_
    exact (hout y (by simp [hy]) hd hc).append _

theorem ServesTold.mono {told told' : Nat → UInt32 → Prop} {infos : List SubscriptionInfo}
    (h : ServesTold ops numericStart s told infos) (hle : ∀ se hd, told se hd → told' se hd) :
    ServesTold ops numericStart s told' infos := by
  induction infos generalizing told told' with
  | nil => trivial
  | cons info infos ih =>
    refine ⟨fun hp hl => (h.1 hp hl).imp_left (hle _ _), ih h.2 fun se hd => ?_⟩
    exact Or.imp_left (hle se hd)

/-- What goes out for one subscription. -/
def outgoingFor (s : Server C) (r : SubscriptionInfo × List Message) : List (Nat × Outgoing) :=
  if (s.sessions r.1.session).valid then r.2.map fun m => (r.1.session, .published r.1.handle m) else []

theorem outgoing_deliveries (s : Server C) (seq : Nat) (id : UInt64) (rs : List (SubscriptionInfo × List Message)) :
    s.outgoing (Publisher.deliveries seq id rs) = rs.flatMap s.outgoingFor := by
  have hzip (k : Nat) : s.outgoing ((rs.zipIdx k).flatMap fun x =>
      x.1.2.map fun m => ⟨seq, id, x.2, x.1.1.session, x.1.1.handle, m⟩) = rs.flatMap s.outgoingFor := by
    induction rs generalizing k with
    | nil => rfl
    | cons r rs ih =>
      rw [List.zipIdx_cons, List.flatMap_cons, List.flatMap_cons, ← ih (k + 1)]
      simp only [outgoing, outgoingFor, List.filter_append, List.map_append]
      congr 1
      by_cases hv : (s.sessions r.1.session).valid = true <;> simp [hv, List.filter_map, Function.comp_def]
  exact hzip 0

theorem carries_outgoingFor {r : SubscriptionInfo × List Message} {x : Nat × Outgoing} (hx : x ∈ s.outgoingFor r)
    {hd : UInt32} (hc : Carries hd x.2) : (s.sessions r.1.session).valid = true ∧ x.1 = r.1.session ∧ hd = r.1.handle := by
  unfold outgoingFor at hx
  split_ifs at hx with hv
  · obtain ⟨m, -, rfl⟩ := List.mem_map.mp hx
    refine ⟨hv, rfl, ?_⟩
    cases m with
    | newGroupContainer => cases hc
    | snapshot e => exact hc.symm
    | event e => exact hc.symm
  · cases hx

theorem publishSnapshot_dead {p : Publisher C} {info info' : SubscriptionInfo} {ms : List Message}
    (h : Publisher.publishSnapshot ops numericStart p info = some (info', ms)) (hd : p.alive info.session = false) :
    ms = [] := by
  unfold Publisher.publishSnapshot at h
  rw [hd] at h
  split_ifs at h <;> simp_all

/-- Where the publisher stands with one subscription. -/
def Known (s : Server C) (wire : List (Nat × Outgoing)) (info : SubscriptionInfo) : Prop :=
  info.snapshotPending = false → s.live info.session = true → Told wire info.session info.handle

/-- What has to hold once a subscription was notified with these messages. -/
structure Notified (s : Server C) (wire : List (Nat × Outgoing)) (e : Event) (info info' : SubscriptionInfo)
    (ms : List Message) : Prop where
  announced : Announced (wire ++ s.outgoingFor (info', ms))
  known : s.Known (wire ++ s.outgoingFor (info', ms)) info'
  told : e.code = .snapshotEnd → info.snapshotPending = true → s.live info.session = true →
    Told (wire ++ s.outgoingFor (info', ms)) info.session info.handle

theorem Notified.of_told (hw : Announced wire) (e : Event) (info info' : SubscriptionInfo)
    (hse : info'.session = info.session) (hh : info'.handle = info.handle)
    (ht : Told wire info.session info.handle) (ms : List Message) : Notified s wire e info info' ms := by
  refine ⟨hw.append fun x hx hd hcar => ?_, fun _ _ => ?_, fun _ _ _ => ht.append _⟩
  · obtain ⟨-, hx, rfl⟩ := carries_outgoingFor hx hcar
    rw [hx, hse, hh]
    exact ht
  · rw [hse, hh]
    exact ht.append _

theorem Notified.of_nothing (hw : Announced wire) {e : Event} {info info' : SubscriptionInfo} {ms : List Message}
    (hout : s.outgoingFor (info', ms) = []) (hk : s.Known wire info')
    (hdead : e.code = .snapshotEnd → info.snapshotPending = true → s.live info.session = false) :
    Notified s wire e info info' ms := by
  refine ⟨by rwa [hout, List.append_nil], by rwa [hout, List.append_nil], fun he hp hl => ?_⟩
  rw [hdead he hp] at hl
  cases hl

theorem Notified.of_announcement (hw : Announced wire) (e : Event) {info : SubscriptionInfo}
    (hlive : s.live info.session = true) (groupName name type : Bytes) (ms : List Message) :
    Notified s wire e info { info with snapshotPending := false }
      (.newGroupContainer groupName name type :: ms) := by
  have hv : (s.sessions info.session).valid = true := by
    rw [live, Bool.and_eq_true] at hlive
    exact hlive.2
  have hout : s.outgoingFor ({ info with snapshotPending := false }, .newGroupContainer groupName name type :: ms) =
      [(info.session, .published info.handle (.newGroupContainer groupName name type))] ++
        s.outgoingFor ({ info with snapshotPending := false }, ms) := by
    simp [outgoingFor, hv]
  have hfirst : Announced (wire ++ [(info.session, .published info.handle (.newGroupContainer groupName name type))]) :=
    hw.concat fun _ hcar => by cases hcar
  have ht : Told (wire ++ [(info.session, .published info.handle (.newGroupContainer groupName name type))])
      info.session info.handle := ⟨_, List.mem_append_right _ (List.mem_singleton_self _), rfl⟩
  have hrest := Notified.of_told (s := s) hfirst e info { info with snapshotPending := false } rfl rfl ht ms
  refine ⟨?_, ?_, ?_⟩
  · rw [hout, ← List.append_assoc]
    exact hrest.announced
  · rw [hout, ← List.append_assoc]
    exact hrest.known
  · rw [hout, ← List.append_assoc]
    exact hrest.told

theorem outgoingFor_dead {p : Publisher C} (hp : p.alive = s.publisher.alive) {e : Event}
    {info info' : SubscriptionInfo} {ms : List Message}
    (h : Publisher.notify ops numericStart p e info = some (info', ms)) (hdead : s.live info.session = false) :
    s.outgoingFor (info', ms) = [] := by
  obtain ⟨b, rfl⟩ := Publisher.notify_fixed h
  by_cases hv : (s.sessions info.session).valid = true
  · have halive : p.alive info.session = false := by
      rw [hp]
      simpa [live, hv] using hdead
    have hms : ms = [] := by
      by_cases he : e.code = .snapshotEnd
      · rw [Publisher.notify, if_pos he] at h
        exact publishSnapshot_dead h halive
      · rw [(Publisher.notify_event he h).2, halive]
        simp
    rw [hms]
    simp [outgoingFor]
  · simp [outgoingFor, hv]

theorem notify_announced {p : Publisher C} (hp : p.alive = s.publisher.alive)
    (hc : p.containers = s.publisher.containers) {e : Event} {info info' : SubscriptionInfo} {ms : List Message}
    (h : Publisher.notify ops numericStart p e info = some (info', ms)) (hw : Announced wire) (hk : s.Known wire info)
    (hserve : e.code = .snapshotEnd → info.snapshotPending = true → s.live info.session = true →
      Told wire info.session info.handle ∨ Announces ops numericStart s info) : Notified s wire e info info' ms := by
  have hnothing : s.outgoingFor (info', []) = [] := by simp [outgoingFor]
  by_cases hlive : s.live info.session = true
  case neg =>
    have hdead : s.live info.session = false := by simpa using hlive
    refine .of_nothing hw (outgoingFor_dead hp h hdead) (fun _ hl => ?_) fun _ _ => hdead
    obtain ⟨b, rfl⟩ := Publisher.notify_fixed h
    exact absurd hl hlive
  by_cases he : e.code = .snapshotEnd
  case neg =>
    obtain ⟨rfl, rfl⟩ := Publisher.notify_event he h
    by_cases hpend : info'.snapshotPending = true
    · simp only [hpend, Bool.true_or, if_true]
      exact .of_nothing hw hnothing hk fun he' => absurd he' he
    · exact .of_told hw e info' info' rfl rfl (hk (by simpa using hpend) hlive) _
  rw [Publisher.notify, if_pos he] at h
  rcases Publisher.publishSnapshot_cases h with ⟨rfl, rfl, hdead⟩ | ⟨hpend, rfl, rfl, hno⟩ | ⟨hpend, rfl, rs, hq, rfl⟩
  · refine .of_nothing hw hnothing hk fun _ hpend => ?_
    rw [live, ← hp, hdead hpend, Bool.false_and]
  · rcases hserve he hpend hlive with ht | ⟨-, hstart, rs, hq⟩
    · exact .of_told hw e info { info with snapshotPending := false } rfl rfl ht _
    · rcases hno with hno | ⟨ex, hno⟩
      · exact absurd hno hstart
      · rw [hc, hq] at hno
        cases hno
  · rcases hserve he hpend hlive with ht | ⟨hgroup, -, -⟩
    · exact .of_told hw e info { info with snapshotPending := false } rfl rfl ht _
    · rw [Publisher.groupMessages, if_neg hgroup, List.singleton_append]
      exact .of_announcement hw e hlive _ _ _ _

theorem mapM_announced {p : Publisher C} (hp : p.alive = s.publisher.alive)
    (hc : p.containers = s.publisher.containers) {e : Event} {l : List SubscriptionInfo}
    {rs : List (SubscriptionInfo × List Message)} (h : l.mapM (Publisher.notify ops numericStart p e) = some rs)
    (hw : Announced wire) (hk : ∀ info ∈ l, s.Known wire info)
    (hserve : e.code = .snapshotEnd → ServesTold ops numericStart s (Told wire) l) :
    Announced (wire ++ rs.flatMap s.outgoingFor) ∧
      ∀ r ∈ rs, s.Known (wire ++ rs.flatMap s.outgoingFor) r.1 := by
  induction l generalizing wire rs with
  | nil =>
    obtain rfl : [] = rs := by simpa using h
    simpa using hw
  | cons info l ih =>
    simp only [List.mapM_cons, Option.bind_eq_bind, Option.bind_eq_some_iff, Option.pure_def,
      Option.some.injEq] at h
    obtain ⟨⟨info', ms⟩, hn, rs, hrs, rfl⟩ := h
    have hnot := notify_announced hp hc hn hw (hk info (by simp)) fun he => (hserve he).1
    obtain ⟨hann, hknown⟩ := ih hrs hnot.announced (fun i hi hp hl => (hk i (by simp [hi]) hp hl).append _)
      fun he => (hserve he).2.mono fun se hd hor => by
        rcases hor with ht | ⟨hpend, hlive, -, rfl, rfl⟩
        · exact ht.append _
        · exact hnot.told he hpend hlive
    rw [List.flatMap_cons, ← List.append_assoc]
    refine ⟨hann, fun r hr => ?_⟩
    rcases List.mem_cons.mp hr with rfl | hr
    · exact fun hp hl => (hnot.known hp hl).append _
    · exact hknown r hr

/-- Events on the wire come after their handles, and so will those of the subscriptions that are not pending. -/
structure HandlesTold (s : Server C) : Prop where
  announced : Announced s.wire
  known : ∀ id, ∀ info ∈ Publisher.subs s.publisher id, s.Known s.wire info

theorem HandlesTold.commanded (h : s.HandlesTold) {infos : List SubscriptionInfo} {out : List (Nat × Outgoing)}
    (hcmd : Commanded a s s' infos out) : s'.HandlesTold := by
  obtain ⟨-, -, halive, -⟩ := subscribed_frame s.publisher infos
  refine ⟨?_, fun id info hi hp hl => ?_⟩
  · rw [hcmd.wire]
    refine h.announced.append fun x hx hd hcar => ?_
    have hans := hcmd.answers x hx
    obtain ⟨se, m⟩ := x
    cases m with
    | published hd' m => exact absurd rfl (hans hd' m)
    | answer => cases hcar
    | answerHandle => cases hcar
    | error => cases hcar
  · rw [hcmd.publisher, subs_subscribed] at hi
    rcases List.mem_append.mp hi with hi | hi
    · have hl' : s.live info.session = true := by
        rw [live, Bool.and_eq_true] at hl ⊢
        rw [hcmd.publisher, halive] at hl
        exact ⟨hl.1, hcmd.valid _ hl.2⟩
      rw [hcmd.wire]
      exact (h.known id info hi hp hl').append _
    · rw [hcmd.pending info (List.mem_of_mem_filter hi)] at hp
      cases hp

theorem HandlesTold.of_silent (h : s.HandlesTold) {b : Publisher.Step C} {p : Publisher C}
    (hs : s.publisherStep ops numericStart b = some s') (hp : s.publisher.step ops numericStart b = some p)
    (hsent : p.sent = s.publisher.sent) (hsubs : Publisher.subs p = Publisher.subs s.publisher)
    (halive : ∀ se, p.alive se = true → s.publisher.alive se = true) : s'.HandlesTold := by
  rw [publisherStep, hp, Option.map_some, Option.some.injEq] at hs
  subst hs
  have hwire : s.wire ++ s.outgoing (p.sent.drop s.publisher.sent.length) = s.wire := by
    rw [hsent, List.drop_length]
    simp [outgoing]
  refine ⟨hwire.symm ▸ h.announced, fun id info hi hpend hl => ?_⟩
  simp only [hwire]
  rw [hsubs] at hi
  refine h.known id info hi hpend ?_
  rw [live, Bool.and_eq_true] at hl ⊢
  exact ⟨halive _ hl.1, hl.2⟩

theorem HandlesTold.publish (h : s.HandlesTold) (hok : PublishesTold ops numericStart s .publish)
    (hs : s.publisherStep ops numericStart .publish = some s') : s'.HandlesTold := by
  obtain ⟨p, hp, hp'⟩ := Option.map_eq_some_iff.mp hs
  obtain ⟨ei, rest, hl, ⟨hnone, rfl⟩ | ⟨l, rs, hsome, hrs, rfl⟩⟩ := Publisher.step_publish hp
  · exact h.of_silent hs hp rfl rfl fun _ ha => ha
  subst hp'
  have hsubs : Publisher.subs s.publisher ei.storageId = l := by rw [Publisher.subs, hsome, Option.getD_some]
  obtain ⟨hann, hknown⟩ := mapM_announced (s := s) rfl rfl hrs h.announced
    (fun info hi => h.known ei.storageId info (hsubs ▸ hi)) fun he => hsubs ▸ hok ei rest hl he
  rw [← outgoing_deliveries s s.publisher.published.length ei.storageId] at hann hknown
  refine ⟨?_, fun id info hi hpend hlive => ?_⟩
  · simpa using hann
  · simp only [List.drop_left]
    by_cases hid : ei.storageId = id
    · subst hid
      simp only [Publisher.subs, Function.update_self, Option.getD_some] at hi
      obtain ⟨r, hr, rfl⟩ := List.mem_map.mp hi
      exact hknown r hr hpend hlive
    · simp only [Publisher.subs] at hi
      rw [Function.update_of_ne (Ne.symm hid)] at hi
      exact (h.known id info hi hpend hlive).append _

theorem HandlesTold.step (h : s.HandlesTold) (hok : PublishesTold ops numericStart s a)
    (hs : Server.step ops numericStart s a = some s') : s'.HandlesTold := by
  rcases step_cases hs with ⟨-, infos, out, hcmd⟩ | ⟨b, hb, hs⟩
  · exact h.commanded hcmd
  obtain ⟨p, hp, -⟩ := Option.map_eq_some_iff.mp hs
  cases a with
  | mutate id c es =>
    obtain rfl := Option.some.inj hb
    obtain ⟨-, rfl⟩ := Publisher.step_client hp
    exact h.of_silent hs hp rfl rfl fun _ ha => ha
  | swap =>
    obtain rfl := Option.some.inj hb
    obtain ⟨-, rfl⟩ := Publisher.step_swap hp
    exact h.of_silent hs hp rfl rfl fun _ ha => ha
  | publish =>
    obtain rfl := Option.some.inj hb
    exact h.publish hok hs
  | sessionDies session =>
    obtain rfl := Option.some.inj hb
    refine h.of_silent hs hp ?_ ?_ fun se ha => ?_
    · rw [← Option.some.inj hp]
    · rw [← Option.some.inj hp]
      rfl
    · rw [← Option.some.inj hp] at ha
      by_cases hse : se = session
      · simp [hse] at ha
      · simpa [Function.update_of_ne hse] using ha
  | _ => cases hb

/-- In every run in which each pending subscription is served under a handle that was told, or by the branch that
announces it, every event on the wire comes after a message that told its session its handle. -/
theorem event_after_handle (containers : UInt64 → C) (alive binaryProtocol : Nat → Bool)
    {as : List (Action C)} {s : Server C}
    (hm : Meets (Server.step ops numericStart) (PublishesTold ops numericStart)
      (init containers alive binaryProtocol) as)
    (hr : run (Server.step ops numericStart) (init containers alive binaryProtocol) as = some s) :
    ∀ before session m after, s.wire = before ++ (session, m) :: after →
      ∀ handle, Carries handle m → Told before session handle := by
  have h : s.HandlesTold := run_keeps (fun s a s' h hok hs => h.step hok hs)
    ⟨fun before se m after heq => by simp [init] at heq, fun id info hi => by simp [init, Publisher.init, Publisher.subs] at hi⟩
    hm hr
  exact h.announced

theorem event_after_handle_group :
    let ops : ContainerOps Unit := ⟨fun _ => ascii "a", fun _ => ascii "volatile_list", fun _ _ _ => some (.ok [])⟩
    let e : Event := ⟨.pushBack, .int 0, .int 5, .none⟩
    ∃ s, run (Server.step ops fun _ => 0) (init (fun _ => ()) (fun _ => true) fun _ => true)
        [.onOpen 0 (ascii "a") 7, .onGroupAdd 0 (ascii "g") (ascii "a") 7 (.ok ()),
          .onGroupSubscribe 1 (ascii "g") (ascii "0"), .mutate 7 () [e], .swap, .publish, .publish] = some s ∧
      (1, .published 1 (.event e)) ∈ s.wire ∧
      ∀ before session m after, s.wire = before ++ (session, m) :: after →
        ∀ handle, Carries handle m → Told before session handle := by
  intro ops e
  generalize hr : run (Server.step ops fun _ => 0) (init (fun _ => ()) (fun _ => true) fun _ => true) _ = r
  have hview : (r.map fun s => decide ((1, .published 1 (.event e)) ∈ s.wire)) = some true := by
    rw [← hr]
    decide +kernel
  obtain ⟨s, rfl, hs⟩ := Option.map_eq_some_iff.mp hview
  exact ⟨s, rfl, of_decide_eq_true hs, event_after_handle _ _ _ (by decide +kernel) hr⟩

/-- A group is subscribed without a start: the next event comes under a handle the client was never told. -/
theorem untold_group_handle :
    let ops : ContainerOps Unit := ⟨fun _ => ascii "a", fun _ => ascii "volatile_list", fun _ _ _ => some (.ok [])⟩
    let e : Event := ⟨.pushBack, .int 0, .int 5, .none⟩
    ∃ s, run (Server.step ops fun _ => 0) (init (fun _ => ()) (fun _ => true) fun _ => true)
        [.onOpen 0 (ascii "a") 7, .onGroupAdd 0 (ascii "g") (ascii "a") 7 (.ok ()), .onGroupSubscribe 1 (ascii "g") [],
          .mutate 7 () [e], .swap, .publish, .publish] = some s ∧
      s.wire = [(0, .answerHandle 1), (0, .answer), (1, .answer), (1, .published 1 (.event e))] ∧
      ¬ Told [(0, .answerHandle 1), (0, .answer), (1, .answer)] 1 1 := by
  intro ops e
  generalize hr : run (Server.step ops fun _ => 0) (init (fun _ => ()) (fun _ => true) fun _ => true) _ = r
  have hview : r.map Server.wire =
      some [(0, .answerHandle 1), (0, .answer), (1, .answer), (1, .published 1 (.event e))] := by
    rw [← hr]
    decide +kernel
  obtain ⟨s, rfl, hs⟩ := Option.map_eq_some_iff.mp hview
  refine ⟨s, rfl, hs, ?_⟩
  rintro ⟨m, hm, ht⟩
  simp at hm
  subst hm
  exact ht

end Server

end Tiodb
