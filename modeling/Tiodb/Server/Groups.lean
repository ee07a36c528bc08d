import Mathlib.Data.List.Nodup
import Tiodb.Lib.Tables
import Tiodb.Server.Sessions

/-!
# Subscriptions of a group

Membership of a group, its subscribers and their subscriptions are kept in three
tables. A subscription for each container and each time a session subscribed.
-/

namespace Tiodb

open Lib

namespace Server

variable {C : Type} {ops : ContainerOps C} {numericStart : Bytes → Int32} {s s' : Server C} {a : Action C}

def inGroup (groupName : Bytes) (session : Nat) (info : SubscriptionInfo) : Bool :=
  info.groupName = groupName && info.session = session

/-- How many subscriptions of the session to the container are for the group. -/
def held (p : Publisher C) (groupName : Bytes) (session : Nat) (id : UInt64) : Nat :=
  (Publisher.subs p id).countP (inGroup groupName session)

/-- The events of the container that were sent to the session for the group. -/
def groupEventsTo (p : Publisher C) (groupName : Bytes) (session : Nat) (id : UInt64) : List Event :=
  p.sent.filterMap fun d =>
    if d.storageId = id ∧ (Publisher.subs p id)[d.sub]?.any (inGroup groupName session) then d.message.event? else none

/-- No container is added to the group under a name that is in it, while a session that can be reached is subscribed
to the group. A plain subscription looks like one of the group without a name. -/
def AddsNew (ops : ContainerOps C) (groupName : Bytes) (s : Server C) : Action C → Prop
  | .onGroupAdd _ g _ container _ => g = groupName →
      (s.getGroupContainers groupName).contains (s.getName ops container) = true →
        ∀ session ∈ s.groupSubscribers groupName, s.live session = false
  | .onSubscribe .. => groupName ≠ []
  | _ => True

instance AddsNew.decide (ops : ContainerOps C) (groupName : Bytes) (s : Server C) :
    (a : Action C) → Decidable (AddsNew ops groupName s a)
  | .onGroupAdd _ g _ container _ => inferInstanceAs (Decidable (g = groupName →
      (s.getGroupContainers groupName).contains (s.getName ops container) = true →
        ∀ session ∈ s.groupSubscribers groupName, s.live session = false))
  | .onSubscribe .. => inferInstanceAs (Decidable (groupName ≠ []))
  | .refused _ => isTrue trivial
  | .onOpen .. => isTrue trivial
  | .onClose .. => isTrue trivial
  | .onUnsubscribe .. => isTrue trivial
  | .onGroupSubscribe .. => isTrue trivial
  | .mutate .. => isTrue trivial
  | .swap => isTrue trivial
  | .publish => isTrue trivial
  | .invalidateConnection _ => isTrue trivial
  | .sessionDies _ => isTrue trivial

/-! ## The balance of the three tables -/

variable {groupName : Bytes}

/-- The container is in the group, under its name. -/
def IsIn (ops : ContainerOps C) (s : Server C) (groupName : Bytes) (id : UInt64) : Prop :=
  (s.getGroupContainers groupName)[s.getName ops id]? = some id

instance IsIn.decide (id : UInt64) : Decidable (IsIn ops s groupName id) :=
  inferInstanceAs (Decidable (_ = _))

structure Balanced (ops : ContainerOps C) (groupName : Bytes) (s : Server C) : Prop where
  named : ∀ n id, (s.getGroupContainers groupName)[n]? = some id → n = s.getName ops id
  balanced : ∀ session, s.live session = true → ∀ id, held s.publisher groupName session id =
    if IsIn ops s groupName id then (s.groupSubscribers groupName).count session else 0

theorem init_balanced (containers : UInt64 → C) (alive binaryProtocol : Nat → Bool) :
    Balanced ops groupName (init containers alive binaryProtocol) := by
  refine ⟨fun n id h => ?_, fun session _ id => ?_⟩
  · simp [init, getGroupContainers] at h
  · simp [held, init, Publisher.init, Publisher.subs, IsIn, getGroupContainers]

theorem Balanced.of_frame (h : Balanced ops groupName s)
    (hcontainers : s'.getGroupContainers groupName = s.getGroupContainers groupName)
    (hsubscribers : s'.groupSubscribers groupName = s.groupSubscribers groupName)
    (hname : ∀ id, s'.getName ops id = s.getName ops id)
    (hlive : ∀ session, s'.live session = true → s.live session = true)
    (hheld : ∀ session id, held s'.publisher groupName session id = held s.publisher groupName session id) :
    Balanced ops groupName s' := by
  refine ⟨fun n id hn => ?_, fun session hl id => ?_⟩
  · rw [hcontainers] at hn
    rw [hname]
    exact h.named n id hn
  · rw [hheld, hsubscribers, h.balanced session (hlive session hl) id]
    refine if_congr ?_ rfl rfl
    rw [IsIn, IsIn, hcontainers, hname]

theorem Commanded.getName_eq {infos : List SubscriptionInfo} {out : List (Nat × Outgoing)}
    (hcmd : Commanded a s s' infos out) (id : UInt64) : s'.getName ops id = s.getName ops id := by
  obtain ⟨-, -, -, hcont, -⟩ := subscribed_frame s.publisher infos
  rw [getName, hcmd.publisher, hcont, getName]

theorem Commanded.live_of {infos : List SubscriptionInfo} {out : List (Nat × Outgoing)}
    (hcmd : Commanded a s s' infos out) (session : Nat) (hl : s'.live session = true) : s.live session = true := by
  obtain ⟨-, -, halive, -⟩ := subscribed_frame s.publisher infos
  rw [live, Bool.and_eq_true] at hl ⊢
  rw [hcmd.publisher, halive] at hl
  exact ⟨hl.1, hcmd.valid _ hl.2⟩

theorem Commanded.held_eq {infos : List SubscriptionInfo} {out : List (Nat × Outgoing)}
    (hcmd : Commanded a s s' infos out) (groupName : Bytes) (session : Nat) (id : UInt64) :
    held s'.publisher groupName session id =
      held s.publisher groupName session id +
        infos.countP fun info => inGroup groupName session info && decide (info.container = id) := by
  rw [held, hcmd.publisher, subs_subscribed, List.countP_append, List.countP_filter, held]

theorem Balanced.of_others (h : Balanced ops groupName s) {infos : List SubscriptionInfo}
    {out : List (Nat × Outgoing)} (hcmd : Commanded a s s' infos out)
    (hinfos : ∀ info ∈ infos, info.groupName ≠ groupName)
    (hcontainers : s'.getGroupContainers groupName = s.getGroupContainers groupName)
    (hsubscribers : s'.groupSubscribers groupName = s.groupSubscribers groupName) : Balanced ops groupName s' := by
  refine h.of_frame hcontainers hsubscribers hcmd.getName_eq hcmd.live_of fun session id => ?_
  rw [hcmd.held_eq, List.countP_eq_zero.mpr, Nat.add_zero]
  intro info hi
  simp [inGroup, hinfos info hi]

theorem targeted_groupName {start : Bytes} {targets : List (Nat × Bytes × UInt64)} {infos : List SubscriptionInfo}
    {g : Bytes} (h : List.Forall₂ (Targeted g start) targets infos) : ∀ info ∈ infos, info.groupName = g := by
  induction h with
  | nil => simp
  | cons hinfo _ ih => simpa [hinfo.1] using ih

theorem countP_targeted {start : Bytes} {targets : List (Nat × Bytes × UInt64)} {infos : List SubscriptionInfo}
    (h : List.Forall₂ (Targeted groupName start) targets infos) (session : Nat) (id : UInt64) :
    (infos.countP fun info => inGroup groupName session info && decide (info.container = id)) =
      targets.countP fun t => decide (t.1 = session) && decide (t.2.2 = id) := by
  induction h with
  | nil => rfl
  | cons hinfo _ ih =>
    obtain ⟨hg, hc, hse, -⟩ := hinfo
    rw [List.countP_cons, List.countP_cons, ih]
    simp [inGroup, hg, hc, hse]

theorem Balanced.onGroupAdd (h : Balanced ops groupName s) {session : Nat} {g containerName : Bytes}
    {container : UInt64} {list : Except Exc Unit}
    (hok : AddsNew ops groupName s (.onGroupAdd session g containerName container list))
    (hs : s' = s.onGroupAdd ops session g containerName container list) : Balanced ops groupName s' := by
  obtain ⟨infos, out, hcmd, hsubscriptions, hcase⟩ :=
    onGroupAdd_spec session g containerName container list rfl hs
  have hsubscribers : s'.groupSubscribers groupName = s.groupSubscribers groupName := by
    rw [groupSubscribers, hsubscriptions, groupSubscribers]
  rcases hcase with ⟨rfl, hgroups⟩ | ⟨htargets, hgroups⟩
  · refine h.of_others hcmd (by simp) ?_ hsubscribers
    rw [getGroupContainers, hgroups, getGroupContainers]
  by_cases hg : g = groupName
  case neg =>
    refine h.of_others hcmd (fun info hi => ?_) ?_ hsubscribers
    · rw [targeted_groupName htargets info hi]
      exact hg
    · rw [getGroupContainers, hgroups, insert_of_ne _ _ hg, getGroupContainers]
  subst hg
  have hcontainers : s'.getGroupContainers g = s.withContainer ops g container := by
    rw [getGroupContainers, hgroups, Std.ExtTreeMap.getElem?_insert_self, Option.getD_some]
  by_cases hin : (s.getGroupContainers g).contains (s.getName ops container) = true
  · -- nobody can be reached, so there is nothing to subscribe
    have hnone : (s.groupSubscribers g).filter s.live = [] := by
      rw [List.filter_eq_nil_iff]
      intro se hse
      simp [hok rfl hin se hse]
    rw [hnone, List.map_nil, List.forall₂_nil_left_iff] at htargets
    subst htargets
    refine h.of_others hcmd (by simp) ?_ hsubscribers
    rw [hcontainers, withContainer, if_pos hin]
  · rw [withContainer, if_neg hin] at hcontainers
    have habsent : (s.getGroupContainers g)[s.getName ops container]? = none := by
      rw [Std.ExtTreeMap.contains_eq_isSome_getElem?, Option.not_isSome_iff_eq_none] at hin
      exact hin
    refine ⟨fun n id hn => ?_, fun se hl id => ?_⟩
    · rw [hcontainers, Std.ExtTreeMap.getElem?_insert] at hn
      rw [hcmd.getName_eq]
      split_ifs at hn with heq
      · obtain rfl := Option.some.inj hn
        exact (Std.LawfulEqOrd.eq_of_compare heq).symm
      · exact h.named n id hn
    · have hlive := hcmd.live_of se hl
      have hcount : ((s.groupSubscribers g).filter s.live).countP (fun x => decide (x = se)) =
          (s.groupSubscribers g).count se := by
        rw [List.countP_filter, List.count]
        refine List.countP_congr fun x _ => ?_
        by_cases hx : x = se
        · simp [hx, hlive]
        · simp [hx]
      rw [hcmd.held_eq, countP_targeted htargets, List.countP_map, h.balanced se hlive id, hsubscribers]
      by_cases hid : id = container
      · subst hid
        have hold : ¬ IsIn ops s g id := by
          rw [IsIn, habsent]
          simp
        have hnew : IsIn ops s' g id := by
          rw [IsIn, hcontainers, hcmd.getName_eq, Std.ExtTreeMap.getElem?_insert_self]
        rw [if_neg hold, if_pos hnew, Nat.zero_add, ← hcount]
        simp [Function.comp_def]
      · have hiff : IsIn ops s' g id ↔ IsIn ops s g id := by
          rw [IsIn, IsIn, hcontainers, hcmd.getName_eq, Std.ExtTreeMap.getElem?_insert]
          split_ifs with heq
          · have hname := Std.LawfulEqOrd.eq_of_compare heq
            rw [← hname, habsent]
            simpa using Ne.symm hid
          · rfl
        rw [if_congr hiff rfl rfl]
        simp [Function.comp_def, Ne.symm hid]

theorem Balanced.countP_toList (h : Balanced ops groupName s) (id : UInt64) :
    ((s.getGroupContainers groupName).toList.countP fun c => decide (c.2 = id)) =
      if IsIn ops s groupName id then 1 else 0 := by
  have hmem (c : Bytes × UInt64) : c ∈ (s.getGroupContainers groupName).toList ↔
      (s.getGroupContainers groupName)[c.1]? = some c.2 := Std.ExtTreeMap.mem_toList_iff_getElem?_eq_some
  have hnodup : (s.getGroupContainers groupName).toList.Nodup := by
    refine List.Pairwise.imp ?_ (Std.ExtTreeMap.distinct_keys_toList (t := s.getGroupContainers groupName))
    rintro c c' hne rfl
    exact hne Std.ReflOrd.compare_self
  have hcount : ((s.getGroupContainers groupName).toList.countP fun c => decide (c.2 = id)) =
      (s.getGroupContainers groupName).toList.count (s.getName ops id, id) := by
    rw [List.count]
    refine List.countP_congr fun c hc => ?_
    have hname := h.named c.1 c.2 ((hmem c).mp hc)
    simp only [decide_eq_true_eq, beq_iff_eq]
    constructor
    · rintro rfl
      rw [← hname]
    · intro heq
      rw [heq]
  rw [hcount]
  split_ifs with hin
  · exact List.count_eq_one_of_mem hnodup ((hmem _).mpr hin)
  · exact List.count_eq_zero_of_not_mem fun hm => hin ((hmem _).mp hm)

theorem Balanced.onGroupSubscribe (h : Balanced ops groupName s) {session : Nat} {g start : Bytes}
    (hs : s' = s.onGroupSubscribe ops session g start) : Balanced ops groupName s' := by
  obtain ⟨infos, out, hcmd, hgroups, hcase⟩ := onGroupSubscribe_spec session g start rfl hs
  have hcontainers : s'.getGroupContainers groupName = s.getGroupContainers groupName := by
    rw [getGroupContainers, hgroups, getGroupContainers]
  rcases hcase with ⟨rfl, hsubscriptions⟩ | ⟨start', name, htargets, hsubscriptions⟩
  · refine h.of_others hcmd (by simp) hcontainers ?_
    rw [groupSubscribers, hsubscriptions, groupSubscribers]
  by_cases hg : g = groupName
  case neg =>
    refine h.of_others hcmd (fun info hi => ?_) hcontainers ?_
    · rw [targeted_groupName htargets info hi]
      exact hg
    · rw [groupSubscribers, hsubscriptions, insert_of_ne _ _ hg, groupSubscribers]
  subst hg
  have hsubscribers : s'.groupSubscribers g = s.groupSubscribers g ++ [session] := by
    rw [groupSubscribers, hsubscriptions, Std.ExtTreeMap.getElem?_insert_self, Option.getD_some]
  refine ⟨fun n id hn => ?_, fun se hl id => ?_⟩
  · rw [hcontainers] at hn
    rw [hcmd.getName_eq]
    exact h.named n id hn
  · have hiff : IsIn ops s' g id ↔ IsIn ops s g id := by rw [IsIn, IsIn, hcontainers, hcmd.getName_eq]
    have hlisted := h.countP_toList id
    rw [hcmd.held_eq, countP_targeted htargets, List.countP_map, h.balanced se (hcmd.live_of se hl) id, hsubscribers,
      List.count_append, if_congr hiff rfl rfl]
    by_cases hse : session = se
    · subst hse
      simp only [Function.comp_def, decide_true, Bool.true_and, hlisted, List.count_singleton_self]
      split_ifs <;> rfl
    · have hcount : [session].count se = 0 := List.count_eq_zero_of_not_mem (by simpa using Ne.symm hse)
      simp [Function.comp_def, hse, hcount]

theorem held_publisherStep {b : Publisher.Step C} {p : Publisher C} (hb : a.publisherStep? = some b)
    (hp : s.publisher.step ops numericStart b = some p) (session : Nat) (id : UInt64) :
    held p groupName session id = held s.publisher groupName session id := by
  cases b with
  | client id' c es =>
    obtain ⟨-, rfl⟩ := Publisher.step_client hp
    rfl
  | subscribe g c hd se st => cases a <;> cases hb
  | swap =>
    obtain ⟨-, rfl⟩ := Publisher.step_swap hp
    rfl
  | sessionDies se =>
    obtain rfl := Option.some.inj hp
    rfl
  | publish =>
    obtain ⟨ei, rest, hl, ⟨hnone, rfl⟩ | ⟨l, rs, hsome, hrs, rfl⟩⟩ := Publisher.step_publish hp
    · rfl
    by_cases hid : ei.storageId = id
    · subst hid
      simp only [held, Publisher.subs, Function.update_self, Option.getD_some, hsome]
      refine countP_of_mapM hrs fun info r hr => ?_
      obtain ⟨pending, hr⟩ := Publisher.notify_fixed (show _ = some (r.1, r.2) from hr)
      simp [inGroup, hr]
    · simp only [held, Publisher.subs]
      rw [Function.update_of_ne (Ne.symm hid)]

theorem Balanced.publisherStep (h : Balanced ops groupName s) {b : Publisher.Step C} (hb : a.publisherStep? = some b)
    (hs : Server.step ops numericStart s a = some s') (hs' : s.publisherStep ops numericStart b = some s') :
    Balanced ops groupName s' := by
  obtain ⟨p, hp, rfl⟩ := Option.map_eq_some_iff.mp hs'
  refine h.of_frame rfl rfl (fun id => ?_) (fun session hl => ?_) fun session id => held_publisherStep hb hp session id
  · -- only a mutation replaces a container, by one of the same name
    cases a with
    | mutate id' c es =>
      obtain rfl := Option.some.inj hb
      rw [Server.step] at hs
      split_ifs at hs with hname
      obtain ⟨-, rfl⟩ := Publisher.step_client hp
      by_cases hid : id = id'
      · subst hid
        simpa [getName] using hname
      · simp [getName, Function.update_of_ne hid]
    | swap =>
      obtain rfl := Option.some.inj hb
      obtain ⟨-, rfl⟩ := Publisher.step_swap hp
      rfl
    | publish =>
      obtain rfl := Option.some.inj hb
      obtain ⟨ei, rest, hl, ⟨hnone, rfl⟩ | ⟨l, rs, hsome, hrs, rfl⟩⟩ := Publisher.step_publish hp
      · rfl
      · rfl
    | sessionDies session =>
      obtain rfl := Option.some.inj hb
      obtain rfl := Option.some.inj hp
      rfl
    | _ => cases hb
  · rw [live, Bool.and_eq_true] at hl ⊢
    refine ⟨?_, hl.2⟩
    cases b with
    | client id' c es =>
      obtain ⟨-, rfl⟩ := Publisher.step_client hp
      exact hl.1
    | subscribe g c hd se st => cases a <;> cases hb
    | swap =>
      obtain ⟨-, rfl⟩ := Publisher.step_swap hp
      exact hl.1
    | publish =>
      obtain ⟨ei, rest, hl', ⟨hnone, rfl⟩ | ⟨l, rs, hsome, hrs, rfl⟩⟩ := Publisher.step_publish hp
      · exact hl.1
      · exact hl.1
    | sessionDies se =>
      obtain rfl := Option.some.inj hp
      have ha := hl.1
      by_cases hse : session = se
      · simp [hse] at ha
      · simpa [Function.update_of_ne hse] using ha

/-- Only the two group commands touch the tables of the groups. -/
theorem step_tables (hs : Server.step ops numericStart s a = some s')
    (hadd : ∀ se g n c l, a ≠ .onGroupAdd se g n c l) (hsub : ∀ se g st, a ≠ .onGroupSubscribe se g st) :
    s'.groups = s.groups ∧ s'.groupSubscriptions = s.groupSubscriptions := by
  rcases step_cases hs with ⟨hb, -⟩ | ⟨b, -, hs⟩
  case inr =>
    obtain ⟨p, -, rfl⟩ := Option.map_eq_some_iff.mp hs
    exact ⟨rfl, rfl⟩
  cases a with
  | refused session =>
    obtain rfl := Option.some.inj hs
    simp
  | onOpen session name container =>
    obtain rfl := Option.some.inj hs
    simp [onOpen, setSession]
  | onClose session handle =>
    obtain rfl := Option.some.inj hs
    unfold onClose sendUnsubscribed setSession
    split <;> simp
  | onSubscribe session handle start =>
    obtain rfl := Option.some.inj hs
    unfold onSubscribe sessionAsyncSubscribe
    split
    · simp
    · split_ifs <;> simp
  | onUnsubscribe session handle =>
    obtain rfl := Option.some.inj hs
    unfold onUnsubscribe sendUnsubscribed setSession
    split_ifs <;> simp
  | onGroupAdd se g n c l => exact absurd rfl (hadd se g n c l)
  | onGroupSubscribe se g st => exact absurd rfl (hsub se g st)
  | invalidateConnection session =>
    obtain rfl := Option.some.inj hs
    exact ⟨rfl, rfl⟩
  | _ => cases hb

theorem step_balanced (h : Balanced ops groupName s) (hok : AddsNew ops groupName s a)
    (hs : Server.step ops numericStart s a = some s') : Balanced ops groupName s' := by
  have hother (hadd : ∀ se g n c l, a ≠ .onGroupAdd se g n c l) (hsub : ∀ se g st, a ≠ .onGroupSubscribe se g st)
      {infos : List SubscriptionInfo} {out : List (Nat × Outgoing)} (hcmd : Commanded a s s' infos out)
      (hinfos : ∀ info ∈ infos, info.groupName ≠ groupName) : Balanced ops groupName s' := by
    obtain ⟨hgroups, hsubscriptions⟩ := step_tables hs hadd hsub
    refine h.of_others hcmd hinfos ?_ ?_
    · rw [getGroupContainers, hgroups, getGroupContainers]
    · rw [groupSubscribers, hsubscriptions, groupSubscribers]
  cases a with
  | refused session =>
    obtain rfl := Option.some.inj hs
    exact hother (by simp) (by simp) (commanded_send s session (by simp)) (by simp)
  | onOpen session name container =>
    obtain rfl := Option.some.inj hs
    exact hother (by simp) (by simp) (onOpen_spec session name container fun _ _ h => h) (by simp)
  | onClose session handle =>
    obtain rfl := Option.some.inj hs
    obtain ⟨out, hcmd⟩ : ∃ out, Commanded (.onClose session handle) s (s.onClose ops session handle) [] out :=
      onClose_spec session handle
    exact hother (by simp) (by simp) hcmd (by simp)
  | onSubscribe session handle start =>
    obtain rfl := Option.some.inj hs
    obtain ⟨infos, out, hcmd, hinfos⟩ :=
      onSubscribe_spec (a := .onSubscribe session handle start) (s := s) session handle start fun _ _ h => h
    refine hother (by simp) (by simp) hcmd fun info hi => ?_
    rw [hinfos info hi]
    exact Ne.symm hok
  | onUnsubscribe session handle =>
    obtain rfl := Option.some.inj hs
    obtain ⟨out, hcmd⟩ := onUnsubscribe_spec (s := s) session handle
    exact hother (by simp) (by simp) hcmd (by simp)
  | onGroupAdd session g containerName container list => exact h.onGroupAdd hok (Option.some.inj hs).symm
  | onGroupSubscribe session g start => exact h.onGroupSubscribe (Option.some.inj hs).symm
  | mutate id c es =>
    have hs' := hs
    rw [Server.step] at hs'
    split_ifs at hs'
    exact h.publisherStep rfl hs hs'
  | swap => exact h.publisherStep rfl hs hs
  | publish => exact h.publisherStep rfl hs hs
  | invalidateConnection session =>
    obtain rfl := Option.some.inj hs
    exact hother (by simp) (by simp) (invalidateConnection_spec session) (by simp)
  | sessionDies session => exact h.publisherStep rfl hs hs

/-! ## Whole runs -/

theorem groupEventsTo_eq {p : Publisher C} {session : Nat} {id : UInt64} {i : Nat} {info : SubscriptionInfo}
    (hi : (Publisher.subs p id)[i]? = some info) (hinfo : inGroup groupName session info = true)
    (huniq : ∀ (j : Nat) info', (Publisher.subs p id)[j]? = some info' → inGroup groupName session info' = true → j = i) :
    groupEventsTo p groupName session id = Publisher.eventsTo id i p.sent := by
  rw [groupEventsTo, Publisher.eventsTo, Publisher.messagesTo, List.filterMap_filterMap]
  congr 1
  funext d
  by_cases hd : d.storageId = id
  · by_cases hsub : d.sub = i
    · subst hsub
      simp [hd, hi, hinfo]
    · have hno : (Publisher.subs p id)[d.sub]?.any (inGroup groupName session) = false := by
        cases hj : (Publisher.subs p id)[d.sub]? with
        | none => rfl
        | some info' =>
          rw [Option.any_some, Bool.eq_false_iff]
          exact fun hin => hsub (huniq d.sub info' hj hin)
      simp [hno, hsub]
  · simp [hd]

/-- In every run in which containers are added to a group once, a session that subscribed to the group once and can
be reached has exactly one subscription for each container of the group; once that is served, the changes of the
container are sent to the session for the group one by one, from no later than its marker on. -/
theorem one_subscription_per_container (containers : UInt64 → C) (alive binaryProtocol : Nat → Bool)
    (groupName : Bytes) {as : List (Action C)} {s : Server C}
    (hm : Meets (Server.step ops numericStart) (AddsNew ops groupName) (init containers alive binaryProtocol) as)
    (hr : run (Server.step ops numericStart) (init containers alive binaryProtocol) as = some s) :
    ∀ session, s.live session = true → (s.groupSubscribers groupName).count session = 1 →
      ∀ (n : Bytes) (id : UInt64), (s.getGroupContainers groupName)[n]? = some id →
        ∃ (i : Nat) (info : SubscriptionInfo), (Publisher.subs s.publisher id)[i]? = some info ∧
          inGroup groupName session info = true ∧
          (∀ (j : Nat) info', (Publisher.subs s.publisher id)[j]? = some info' →
            inGroup groupName session info' = true → j = i) ∧
          if info.snapshotPending then groupEventsTo s.publisher groupName session id = []
          else ∃ k, groupEventsTo s.publisher groupName session id =
              (Publisher.eventsFor id s.publisher.published).drop k ∧
            k ≤ (Publisher.eventsFor id (Publisher.beforeMarker id i s.publisher.enqueued)).length := by
  intro session hlive honce n id hn
  have h : Balanced ops groupName s :=
    run_keeps (fun s a s' h hok hs => step_balanced h hok hs) (init_balanced containers alive binaryProtocol) hm hr
  have hin : IsIn ops s groupName id := by
    rw [IsIn, ← h.named n id hn, hn]
  have hheld := h.balanced session hlive id
  rw [if_pos hin, honce] at hheld
  obtain ⟨i, info, hi, hinfo, huniq⟩ := exists_getElem?_of_countP_eq_one hheld
  refine ⟨i, info, hi, hinfo, huniq, ?_⟩
  obtain ⟨bs, hbs⟩ := run_publisher hr
  have htracked : Publisher.Tracked id s.publisher :=
    run_invariant (Publisher.step_tracked id) (Publisher.init_tracked id containers alive) hbs
  have halive : s.publisher.alive info.session = true := by
    rw [live, Bool.and_eq_true] at hlive
    rw [inGroup, Bool.and_eq_true, decide_eq_true_eq, decide_eq_true_eq] at hinfo
    rw [hinfo.2]
    exact hlive.1
  have hserved := htracked.served i info hi halive
  rw [groupEventsTo_eq hi hinfo huniq]
  unfold Publisher.Served at hserved
  split_ifs at hserved ⊢ with hpend
  · exact hserved.1
  · obtain ⟨k, hk, -, hle⟩ := hserved
    exact ⟨k, hk, hle⟩

theorem one_subscription_both_orders :
    let ops : ContainerOps Unit := ⟨fun _ => ascii "a", fun _ => ascii "volatile_list", fun _ _ _ => some (.ok [])⟩
    let e : Event := ⟨.pushBack, .int 0, .int 5, .none⟩
    ∃ s, run (Server.step ops fun _ => 0) (init (fun _ => ()) (fun _ => true) fun _ => true)
        [.onGroupSubscribe 1 (ascii "g") (ascii "0"), .onGroupAdd 0 (ascii "g") (ascii "a") 7 (.ok ()),
          .onGroupSubscribe 2 (ascii "g") (ascii "0"), .mutate 7 () [e], .swap, .publish, .publish, .publish] = some s ∧
      groupEventsTo s.publisher (ascii "g") 1 7 = [e] ∧ groupEventsTo s.publisher (ascii "g") 2 7 = [e] ∧
      ∃ (i : Nat) (info : SubscriptionInfo), (Publisher.subs s.publisher 7)[i]? = some info ∧
        inGroup (ascii "g") 1 info = true ∧
        ∀ (j : Nat) info', (Publisher.subs s.publisher 7)[j]? = some info' → inGroup (ascii "g") 1 info' = true → j = i := by
  intro ops e
  generalize hr : run (Server.step ops fun _ => 0) (init (fun _ => ()) (fun _ => true) fun _ => true) _ = r
  have hview : (r.map fun s => (groupEventsTo s.publisher (ascii "g") 1 7, groupEventsTo s.publisher (ascii "g") 2 7,
      s.live 1, (s.groupSubscribers (ascii "g")).count 1, (s.getGroupContainers (ascii "g"))[ascii "a"]?)) =
      some ([e], [e], true, 1, some 7) := by
    rw [← hr]
    decide +kernel
  obtain ⟨s, rfl, hs⟩ := Option.map_eq_some_iff.mp hview
  simp only [Prod.mk.injEq] at hs
  obtain ⟨h₁, h₂, hlive, honce, hin⟩ := hs
  obtain ⟨i, info, hi, hinfo, huniq, -⟩ :=
    one_subscription_per_container _ _ _ (ascii "g") (by decide +kernel) hr 1 hlive honce _ 7 hin
  exact ⟨s, rfl, h₁, h₂, i, info, hi, hinfo, huniq⟩

/-- The container is added to the group a second time: the session that subscribed once gets the change twice. -/
theorem added_twice :
    let ops : ContainerOps Unit := ⟨fun _ => ascii "a", fun _ => ascii "volatile_list", fun _ _ _ => some (.ok [])⟩
    let e : Event := ⟨.pushBack, .int 0, .int 5, .none⟩
    ∃ s, run (Server.step ops fun _ => 0) (init (fun _ => ()) (fun _ => true) fun _ => true)
        [.onGroupSubscribe 1 (ascii "g") (ascii "0"), .onGroupAdd 0 (ascii "g") (ascii "a") 7 (.ok ()),
          .onGroupAdd 0 (ascii "g") (ascii "a") 7 (.ok ()), .mutate 7 () [e], .swap, .publish, .publish, .publish] =
        some s ∧
      s.live 1 = true ∧ (s.groupSubscribers (ascii "g")).count 1 = 1 ∧
      (s.getGroupContainers (ascii "g"))[ascii "a"]? = some 7 ∧ held s.publisher (ascii "g") 1 7 = 2 ∧
      groupEventsTo s.publisher (ascii "g") 1 7 = [e, e] := by
  intro ops e
  generalize hr : run (Server.step ops fun _ => 0) (init (fun _ => ()) (fun _ => true) fun _ => true) _ = r
  have hview : (r.map fun s => (s.live 1, (s.groupSubscribers (ascii "g")).count 1,
      (s.getGroupContainers (ascii "g"))[ascii "a"]?, held s.publisher (ascii "g") 1 7,
      groupEventsTo s.publisher (ascii "g") 1 7)) = some (true, 1, some 7, 2, [e, e]) := by
    rw [← hr]
    decide +kernel
  obtain ⟨s, rfl, hs⟩ := Option.map_eq_some_iff.mp hview
  simp only [Prod.mk.injEq] at hs
  exact ⟨s, rfl, hs⟩

end Server

end Tiodb
