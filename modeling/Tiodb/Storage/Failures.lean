import Tiodb.Server.DataCommand
import Tiodb.Storage.Discipline

/-!
# Calls that fail

Every `throw` of a storage comes before the first change that its call makes. A call
of the list or of the map that changes something counts one revision and tells the
sink one event. The locks are left out: their mutex is recursive here.
-/

namespace Tiodb

open Lib LockProg

/-- The calls that change records. -/
def StorageCall.mutates : StorageCall → Bool
  | .pushBack .. | .pushFront .. | .popBack .. | .popFront .. | .set .. | .insert .. | .delete .. | .clear => true
  | _ => false

/-! ## One revision and one event -/

/-- What a storage counts and tells. -/
structure Announced where
  revNum : UInt64
  sink : Bool
  published : List Event

def Announced.next (a : Announced) (e : Event) : Announced :=
  { a with revNum := a.revNum + 1, published := if a.sink then a.published ++ [e] else a.published }

section Announces

variable {σ α β : Type} {g : σ → Announced}

/-- Where the program returns, it has counted one revision and told one event. -/
def Announces (g : σ → Announced) (x : Prog Exc σ α) : Prop := ∀ s a s', x.run s = .ok a s' → ∃ e, g s' = (g s).next e

theorem Announces.of_throws {x : Prog Exc σ α} (h : ∀ s, ∃ e, x.run s = .throws e s) : Announces g x := by
  intro s a s' hs
  obtain ⟨e, he⟩ := h s
  cases he.symm.trans hs

theorem Announces.after {x : Prog Exc σ α} {k : α → Prog Exc σ β} (hx : x.Keeps g) (hk : ∀ a, Announces g (k a)) :
    Announces g (x >>= k) := by
  intro s b s' hs
  cases hr : x.run s with
  | ok a t =>
    rw [Prog.run_bind_ok _ _ hr] at hs
    obtain ⟨e, he⟩ := hk a t b s' hs
    exact ⟨e, by rw [he, hx s t (by rw [hr]; rfl)]⟩
  | throws e t =>
    rw [Prog.run_bind_throws _ _ hr] at hs
    cases hs
  | undefined =>
    rw [Prog.run_bind, hr] at hs
    cases hs

theorem Announces.then {x : Prog Exc σ α} {k : α → Prog Exc σ β} (hx : Announces g x) (hk : ∀ a, (k a).Keeps g) :
    Announces g (x >>= k) := by
  intro s b s' hs
  cases hr : x.run s with
  | ok a t =>
    rw [Prog.run_bind_ok _ _ hr] at hs
    obtain ⟨e, he⟩ := hx s a t hr
    exact ⟨e, by rw [hk a t s' (by rw [hs]; rfl), he]⟩
  | throws e t =>
    rw [Prog.run_bind_throws _ _ hr] at hs
    cases hs
  | undefined =>
    rw [Prog.run_bind, hr] at hs
    cases hs

end Announces

/-! ## The list -/

namespace ListStorage

variable (key value metadata : TioData)

def announced (s : ListStorage) : Announced := ⟨s.revNum, s.sink, s.published⟩

theorem lockGuard_announces {α : Type} {x : ListM α} (h : Announces announced x) : Announces announced (lockGuard x) := by
  intro s a s' hs
  rw [run_lockGuard] at hs
  cases hr : x.run { s with mutex := s.mutex + 1 } with
  | ok b t =>
    simp only [hr, Outcome.ok.injEq] at hs
    obtain ⟨rfl, rfl⟩ := hs
    exact h { s with mutex := s.mutex + 1 } b t hr
  | throws e t => simp [hr] at hs
  | undefined => simp [hr] at hs

theorem publish_announces (code : ContainerEventCode) (k v m : TioData) :
    Announces announced (updateRevNumAndPublish code k v m) := by
  intro s a s' hs
  obtain rfl := (Outcome.ok.inj hs).2
  exact ⟨⟨code, k, v, m⟩, rfl⟩

theorem change_announces {x : ListM Unit} (g : ListStorage → List ValueAndMetadata) (hx : Announces announced x) :
    Announces announced ((modify fun s => { s with data := g s }) >>= fun _ => x) :=
  .after (Prog.keeps_modify fun _ => rfl) fun _ => hx

theorem checkValue_reads : (checkValue value).Reads := by
  unfold checkValue
  split
  · exact Prog.reads_throw _
  · exact Prog.reads_pure _

theorem pushBack_announces : Announces announced (pushBack key value metadata) := by
  refine .after ((checkValue_reads value).keeps _) fun _ => lockGuard_announces (change_announces _ ?_)
  exact .after (Prog.reads_get.keeps _) fun _ => publish_announces _ _ _ _

theorem pushFront_announces : Announces announced (pushFront key value metadata) :=
  .after ((checkValue_reads value).keeps _) fun _ => lockGuard_announces (change_announces _ (publish_announces _ _ _ _))

theorem popBack_announces (v m : Option TioData) : Announces announced (popBack v m) := by
  refine lockGuard_announces (.after (Prog.reads_get.keeps _) fun s => ?_)
  cases s.data.getLast? with
  | none => exact .of_throws fun _ => ⟨_, rfl⟩
  | some r =>
    refine .after (Prog.keeps_modify fun _ => rfl) fun _ => .after (Prog.reads_get.keeps _) fun t => ?_
    exact (publish_announces _ _ _ _).then fun _ => (Prog.reads_pure _).keeps _

theorem popFront_announces (v m : Option TioData) : Announces announced (popFront v m) := by
  refine lockGuard_announces (.after (Prog.reads_get.keeps _) fun s => ?_)
  cases s.data.head? with
  | none => exact .of_throws fun _ => ⟨_, rfl⟩
  | some r =>
    refine .after (Prog.keeps_modify fun _ => rfl) fun _ => ?_
    exact (publish_announces _ _ _ _).then fun _ => (Prog.reads_pure _).keeps _

theorem set_announces : Announces announced (set key value metadata) := by
  refine lockGuard_announces (.after ((getOffset_reads key).keeps _) fun r => .after (Prog.reads_get.keeps _) fun s => ?_)
  split
  · intro t a t' h
    cases h
  · exact (publish_announces _ _ _ _).then fun _ => Prog.keeps_modify fun _ => rfl

theorem insert_announces : Announces announced (insert key value metadata) := by
  refine .after ((Prog.reads_ofExcept _).keeps _) fun k => lockGuard_announces ?_
  split
  · exact change_announces _ (publish_announces _ _ _ _)
  refine .after (Prog.reads_get.keeps _) fun s => ?_
  split
  · exact change_announces _ (publish_announces _ _ _ _)
  · exact .after ((getOffset_reads key).keeps _) fun r => change_announces _ (publish_announces _ _ _ _)

theorem delete_announces : Announces announced (delete key value metadata) := by
  refine lockGuard_announces (.after ((getOffset_reads key).keeps _) fun r => .after (Prog.reads_get.keeps _) fun s => ?_)
  split
  · exact .of_throws fun _ => ⟨_, rfl⟩
  · exact change_announces _ (publish_announces _ _ _ _)

theorem clear_announces : Announces announced clear :=
  lockGuard_announces (change_announces (fun _ => []) (publish_announces _ _ _ _))

theorem call_announces (id : UInt64) {c : StorageCall} (hc : c.mutates) : Announces announced (exec id c) := by
  cases c with
  | pushBack k v md => exact (pushBack_announces k v md).then fun _ => (Prog.reads_pure _).keeps _
  | pushFront k v md => exact (pushFront_announces k v md).then fun _ => (Prog.reads_pure _).keeps _
  | popBack k v md => exact (popBack_announces v md).then fun _ => (Prog.reads_pure _).keeps _
  | popFront k v md => exact (popFront_announces v md).then fun _ => (Prog.reads_pure _).keeps _
  | set k v md => exact (set_announces k v md).then fun _ => (Prog.reads_pure _).keeps _
  | insert k v md => exact (insert_announces k v md).then fun _ => (Prog.reads_pure _).keeps _
  | delete k v md => exact (delete_announces k v md).then fun _ => (Prog.reads_pure _).keeps _
  | clear => exact clear_announces.then fun _ => (Prog.reads_pure _).keeps _
  | _ => cases hc

/-- A pop is a mutator whose record is thrown away. -/
theorem pop_atomic {x : ListM Record} (op : Op) (hx : op.exec = x >>= fun _ => pure ()) : x.Atomic := by
  intro s s' e h
  refine exec_atomic op s s' e ?_
  rw [hx, Prog.run_bind_throws _ _ h]

theorem call_atomic (id : UInt64) (c : StorageCall) : (exec id c).Atomic := by
  have hread {α : Type} {x : ListM α} {k : α → Returned} (hx : x.Reads) : (x >>= fun a => pure (k a)).Atomic :=
    (hx.bind fun _ => Prog.reads_pure _).atomic
  have hchange {α : Type} {x : ListM α} {k : α → Returned} (hx : x.Atomic) : (x >>= fun a => pure (k a)).Atomic :=
    hx.bind_neverThrows fun _ => Prog.neverThrows_pure _
  cases c with
  | getRecordCount => exact hread (reads_lockGuard (Prog.reads_get.bind fun _ => Prog.reads_pure _))
  | pushBack k v md => exact hchange (exec_atomic (.pushBack k v md))
  | pushFront k v md => exact hchange (exec_atomic (.pushFront k v md))
  | popBack k v md => exact hchange (pop_atomic (.popBack v md) rfl)
  | popFront k v md => exact hchange (pop_atomic (.popFront v md) rfl)
  | getRecord k => exact hread (getRecord_reads k)
  | set k v md => exact hchange (exec_atomic (.set k v md))
  | insert k v md => exact hchange (exec_atomic (.insert k v md))
  | delete k v md => exact hchange (exec_atomic (.delete k v md))
  | clear => exact hchange (exec_atomic .clear)
  | query startOffset endOffset q => exact hread (query_reads startOffset endOffset q)
  | getRevNum => exact hread (reads_lockGuard (Prog.reads_get.bind fun _ => Prog.reads_pure _))
  | getType => exact hread (Prog.reads_get.bind fun _ => Prog.reads_pure _)
  | getName => exact hread (Prog.reads_get.bind fun _ => Prog.reads_pure _)
  | command b => exact hread (Prog.reads_throw _)
  | setSubscriber sink => exact hchange (Prog.neverThrows_modify _).atomic
  | removeSubscriber => exact hchange (Prog.neverThrows_modify _).atomic
  | getId => exact (Prog.reads_pure _).atomic

end ListStorage

/-! ## The vector -/

namespace GuardedVector

variable (key value metadata : TioData)

theorem checkValue_reads : (VectorStorage.checkValue value).Reads := by
  unfold VectorStorage.checkValue
  split
  · exact Prog.reads_throw _
  · exact Prog.reads_pure _

theorem change_neverThrows (g : VectorStorage → VectorStorage) :
    (lockGuard .recursive (lift (modify g : Prog Exc VectorStorage Unit))).NeverThrows :=
  lockGuard_neverThrows (lift_neverThrows (Prog.neverThrows_modify g))

theorem publish_neverThrows (code : ContainerEventCode) (k v md : TioData) :
    (publish .recursive code k v md).NeverThrows := by
  refine (lockGuard_neverThrows (lift_neverThrows ?_)).bind fun sink => lift_neverThrows ?_
  · intro s t e h
    cases h
  · cases sink
    · exact Prog.neverThrows_pure _
    · exact Prog.neverThrows_modify _

theorem popRecord_reads (end? : List ValueAndMetadata → Option ValueAndMetadata) : (popRecord end?).Reads := by
  refine Prog.reads_get.bind fun s => ?_
  cases end? s.data with
  | none => exact Prog.reads_throw _
  | some r => exact Prog.reads_pure _

theorem getRecord_reads : (getRecord .recursive key).Reads := by
  refine lockGuard_reads (lift_reads (Prog.Reads.bind ?_ fun _ => Prog.reads_pure _))
  exact (VectorStorage.getRecordNumber_reads key).bind VectorStorage.recordAt_reads

theorem pushBack_atomic : (pushBack .recursive key value metadata).Atomic := by
  refine (lift_reads (checkValue_reads value)).bind_atomic fun _ => Prog.NeverThrows.atomic ?_
  refine (change_neverThrows _).bind fun _ => (lift_neverThrows ?_).bind fun _ => publish_neverThrows _ _ _ _
  intro s t e h
  cases h

theorem pushFront_atomic : (pushFront .recursive key value metadata).Atomic :=
  (lift_reads (checkValue_reads value)).bind_atomic fun _ =>
    ((change_neverThrows _).bind fun _ => publish_neverThrows _ _ _ _).atomic

theorem popBack_atomic (k v md : Bool) : (popBack .recursive k v md).Atomic := by
  refine (lift_reads (popRecord_reads _)).bind_atomic fun r => Prog.NeverThrows.atomic ?_
  refine (lift_neverThrows ?_).bind fun _ => (change_neverThrows _).bind fun _ =>
    (publish_neverThrows _ _ _ _).bind fun _ => Prog.neverThrows_pure _
  intro s t e h
  cases h

theorem popFront_atomic (k : Option TioData) (v md : Bool) : (popFront .recursive k v md).Atomic := by
  refine (lift_reads (popRecord_reads _)).bind_atomic fun r => Prog.NeverThrows.atomic ?_
  exact (change_neverThrows _).bind fun _ => (publish_neverThrows _ _ _ _).bind fun _ => Prog.neverThrows_pure _

theorem set_atomic : (set .recursive key value metadata).Atomic := by
  refine (lift_reads (checkValue_reads value)).bind_atomic fun _ => Prog.Atomic.bind_neverThrows ?_ fun _ =>
    publish_neverThrows _ _ _ _
  refine lockGuard_atomic (lift_atomic ?_)
  exact (VectorStorage.getRecordNumber_reads key).bind_atomic fun n =>
    (VectorStorage.recordAt_reads n).bind_atomic fun _ => (Prog.neverThrows_modify _).atomic

theorem insert_atomic : (insert .recursive key value metadata).Atomic := by
  refine (lift_reads (checkValue_reads value)).bind_atomic fun _ => Prog.Atomic.bind_neverThrows ?_ fun _ =>
    publish_neverThrows _ _ _ _
  refine lockGuard_atomic ((lift_reads (VectorStorage.getRecordNumber_reads key)).bind_atomic fun n => ?_)
  exact (getRecord_reads key).bind_atomic fun _ => (lift_neverThrows (Prog.neverThrows_modify _)).atomic

theorem delete_atomic : (delete .recursive key value metadata).Atomic := by
  refine (lift_reads (VectorStorage.getRecordNumber_reads key)).bind_atomic fun n => Prog.Atomic.bind_neverThrows ?_ fun _ =>
    publish_neverThrows _ _ _ _
  exact lockGuard_atomic ((getRecord_reads key).bind_atomic fun _ => (lift_neverThrows (Prog.neverThrows_modify _)).atomic)

theorem readRecords_reads (startOffset endOffset : Int32) : (readRecords startOffset endOffset).Reads := by
  refine Prog.reads_get.bind fun s => ?_
  dsimp only
  split_ifs
  · exact Prog.reads_throw _
  · exact Prog.reads_undefined
  · exact Prog.reads_pure _

theorem getRecordCount_reads : (getRecordCount .recursive).Reads :=
  lockGuard_reads (lift_reads (Prog.reads_get.bind fun _ => Prog.reads_pure _))

theorem query_reads (startOffset endOffset : Int32) (q : TioData) : (query .recursive startOffset endOffset q).Reads := by
  refine (lift_reads ?_).bind fun _ => lockGuard_reads (getRecordCount_reads.bind fun count => ?_)
  · split
    · exact Prog.reads_throw _
    · exact Prog.reads_pure _
  · split
    · exact lift_reads (readRecords_reads _ _)
    · refine getRecordCount_reads.bind fun n => lift_reads ((Prog.reads_ofExcept _).bind fun p => ?_)
      exact readRecords_reads _ _

theorem call_atomic (id : UInt64) (c : StorageCall) : (exec .recursive id c).Atomic := by
  have hread {α : Type} {x : VectorL α} {k : α → Returned} (hx : x.Reads) : (x >>= fun a => pure (k a)).Atomic :=
    (hx.bind fun _ => Prog.reads_pure _).atomic
  have hchange {α : Type} {x : VectorL α} {k : α → Returned} (hx : x.Atomic) : (x >>= fun a => pure (k a)).Atomic :=
    hx.bind_neverThrows fun _ => Prog.neverThrows_pure _
  cases c with
  | getRecordCount => exact hread getRecordCount_reads
  | pushBack k v md => exact hchange (pushBack_atomic k v md)
  | pushFront k v md => exact hchange (pushFront_atomic k v md)
  | popBack k v md => exact hchange (popBack_atomic _ _ _)
  | popFront k v md => exact hchange (popFront_atomic _ _ _)
  | getRecord k => exact hread (getRecord_reads k)
  | set k v md => exact hchange (set_atomic k v md)
  | insert k v md => exact hchange (insert_atomic k v md)
  | delete k v md => exact hchange (delete_atomic k v md)
  | clear => exact hchange ((change_neverThrows _).bind fun _ => publish_neverThrows _ _ _ _).atomic
  | query startOffset endOffset q => exact hread (query_reads startOffset endOffset q)
  | getRevNum => exact hread (lockGuard_reads (lift_reads (Prog.reads_pure _)))
  | getType => exact hread (lift_reads (Prog.reads_get.bind fun _ => Prog.reads_pure _))
  | getName => exact hread (lockGuard_reads (lift_reads (Prog.reads_get.bind fun _ => Prog.reads_pure _)))
  | command b => exact hread (lift_reads (Prog.reads_throw _))
  | setSubscriber sink => exact hchange (change_neverThrows _).atomic
  | removeSubscriber => exact hchange (change_neverThrows _).atomic
  | getId => exact (Prog.reads_pure _).atomic

end GuardedVector

/-! ## The map -/

namespace MapStorage

variable (key value metadata : TioData)

def announced (s : MapStorage) : Announced := ⟨s.revNum, s.sink, s.published⟩

theorem publish_announces (code : ContainerEventCode) (k v m : TioData) :
    Announces announced (updateRevNumAndPublish code k v m) := by
  intro s a s' hs
  obtain rfl := (Outcome.ok.inj hs).2
  exact ⟨⟨code, k, v, m⟩, rfl⟩

theorem set_announces : Announces announced (set key value metadata) := by
  have hrecord : (setRecord key value metadata).Keeps announced :=
    ((checkKey_reads key).keeps _).bind fun _ => ((Prog.reads_ofExcept _).keeps _).bind fun _ =>
      Prog.keeps_modify fun _ => rfl
  exact .after hrecord fun _ => publish_announces _ _ _ _

theorem insert_announces : Announces announced (insert key value metadata) := by
  have hrecord : (insertRecord key value metadata).Keeps announced := by
    refine ((checkKey_reads key).keeps _).bind fun _ => ((Prog.reads_ofExcept _).keeps _).bind fun k =>
      (Prog.reads_get.keeps _).bind fun s => ?_
    split
    · exact (Prog.reads_throw _).keeps _
    · exact Prog.keeps_modify fun _ => rfl
  exact .after hrecord fun _ => publish_announces _ _ _ _

theorem delete_announces : Announces announced (delete key value metadata) := by
  have hrecord : (deleteRecord key).Keeps announced := by
    refine ((checkKey_reads key).keeps _).bind fun _ => ((Prog.reads_ofExcept _).keeps _).bind fun k =>
      (Prog.reads_get.keeps _).bind fun s => ?_
    split
    · exact Prog.keeps_modify fun _ => rfl
    · exact (Prog.reads_throw _).keeps _
  exact .after hrecord fun _ => publish_announces _ _ _ _

theorem clear_announces : Announces announced clear :=
  .after (Prog.keeps_modify fun _ => rfl) fun _ => publish_announces _ _ _ _

theorem advance_reads (offset : Int32) : (advance offset).Reads := by
  refine Prog.reads_get.bind fun s => ?_
  split
  · exact Prog.reads_pure _
  · exact Prog.reads_undefined

theorem query_reads (startOffset endOffset : Int32) (q : TioData) : (query startOffset endOffset q).Reads := by
  unfold query
  split
  · exact Prog.reads_throw _
  refine Prog.reads_get.bind fun s => ?_
  dsimp only
  split_ifs
  · exact Prog.reads_pure _
  · exact (Prog.reads_ofExcept _).bind fun first => (advance_reads first).bind fun _ => Prog.reads_pure _
  · exact (Prog.reads_ofExcept _).bind fun p => (advance_reads p.1).bind fun _ => (advance_reads p.2).bind fun _ =>
      Prog.reads_pure _

end MapStorage

namespace GuardedMap

variable (m : Mutex)

/-- Without its locks, the call throws before it changes anything, and announces itself if it is one that has to. -/
def Clean (announces : Bool) (x : MapL Returned) : Prop :=
  ∃ y, Erases x y ∧ y.Atomic ∧ (announces → Announces MapStorage.announced y)

theorem clean_read {α : Type} {x : MapL α} {y : Prog Exc MapStorage α} (k : α → Returned) (hx : Erases x y)
    (hy : y.Reads) : Clean false (x >>= fun a => pure (k a)) :=
  ⟨y >>= fun a => pure (k a), hx.bind fun _ _ => rfl, (hy.bind fun _ => Prog.reads_pure _).atomic, nofun⟩

theorem clean_change {x : MapL Unit} {y : Prog Exc MapStorage Unit} (hx : Erases x y) (hy : y.Atomic)
    (ha : Announces MapStorage.announced y) : Clean true (x >>= fun _ => pure .nothing) :=
  ⟨y >>= fun _ => pure .nothing, hx.bind fun _ _ => rfl, hy.bind_neverThrows fun _ => Prog.neverThrows_pure _,
    fun _ => ha.then fun _ => (Prog.reads_pure _).keeps _⟩

theorem clean_refused {α : Type} (k : α → Returned) (e : Exc) (b : Bool) :
    Clean b (lift (throw e : Prog Exc MapStorage α) >>= fun a => pure (k a)) :=
  ⟨throw e >>= fun a => pure (k a), (erasesAll_lift _).erases.bind fun _ _ => rfl,
    ((Prog.reads_throw _).bind fun _ => Prog.reads_pure _).atomic, fun _ => .of_throws fun _ => ⟨e, rfl⟩⟩

theorem clean_subscribe (sink : Bool) : Clean false (setSubscriber m sink >>= fun _ => pure .nothing) :=
  ⟨(modify fun s => { s with sink := sink }) >>= fun _ => pure .nothing,
    ((erasesAll_lift _).lockGuard_free m).bind fun _ _ => rfl,
    ((Prog.neverThrows_modify _).bind fun _ => Prog.neverThrows_pure _).atomic, nofun⟩

theorem call_clean (id : UInt64) (c : StorageCall) : Clean c.mutates (exec m id c) := by
  have hsection {α : Type} (y : Prog Exc MapStorage α) : Erases (lockGuard m (lift y)) y :=
    (erasesAll_lift y).lockGuard_free m
  have hfree {α : Type} (y : Prog Exc MapStorage α) : Erases (lift y) y := (erasesAll_lift y).erases
  cases c with
  | getRecordCount => exact clean_read _ (hsection _) (Prog.reads_get.bind fun _ => Prog.reads_pure _)
  | pushBack k v md => exact clean_refused _ _ _
  | pushFront k v md => exact clean_refused _ _ _
  | popBack k v md => exact clean_refused _ _ _
  | popFront k v md => exact clean_refused _ _ _
  | getRecord k => exact clean_read _ (getRecord_erases m k) (MapStorage.getRecord_reads k)
  | set k v md =>
    exact clean_change (set_erases m k v md) (MapStorage.set_atomic k v md) (MapStorage.set_announces k v md)
  | insert k v md =>
    exact clean_change (insert_erases m k v md) (MapStorage.insert_atomic k v md) (MapStorage.insert_announces k v md)
  | delete k v md =>
    exact clean_change (delete_erases m k v md) (MapStorage.delete_atomic k v md) (MapStorage.delete_announces k v md)
  | clear => exact clean_change (clear_erases m) MapStorage.clear_neverThrows.atomic MapStorage.clear_announces
  | query startOffset endOffset q => exact clean_read _ (query_erases m _ _ q) (MapStorage.query_reads _ _ q)
  | getRevNum => exact clean_read _ (hsection _) (Prog.reads_get.bind fun _ => Prog.reads_pure _)
  | getType => exact clean_read _ (hfree _) (Prog.reads_get.bind fun _ => Prog.reads_pure _)
  | getName => exact clean_read _ (hfree _) (Prog.reads_get.bind fun _ => Prog.reads_pure _)
  | command b => exact clean_refused _ _ _
  | setSubscriber sink => exact clean_subscribe m sink
  | removeSubscriber => exact clean_subscribe m false
  | getId => exact ⟨pure _, fun _ => rfl, (Prog.reads_pure _).atomic, nofun⟩

theorem Clean.throws {b : Bool} {x : MapL Returned} (h : Clean b x) {s : MapStorage} {e : Fault Exc}
    {t : Locked MapStorage} (ht : x.run ⟨s, 0⟩ = .throws e t) : t = ⟨s, 0⟩ := by
  obtain ⟨y, hy, hatomic, -⟩ := h
  exact (lift_atomic hatomic) ⟨s, 0⟩ t e ((hy s).symm.trans ht)

theorem Clean.returns {x : MapL Returned} (h : Clean true x) {s : MapStorage} {r : Returned}
    {t : Locked MapStorage} (ht : x.run ⟨s, 0⟩ = .ok r t) : ∃ e, t.state.announced = s.announced.next e := by
  obtain ⟨y, hy, -, ha⟩ := h
  rw [hy s] at ht
  cases hr : y.run s with
  | ok a s' =>
    rw [hr] at ht
    obtain ⟨-, rfl⟩ := Outcome.ok.inj ht
    exact ha rfl s a s' hr
  | throws e s' =>
    rw [hr] at ht
    cases ht
  | undefined =>
    rw [hr] at ht
    cases ht

end GuardedMap

/-! ## Every storage and every call -/

/-- A call that throws leaves records, revision and events as they were; a call of the list or of the map that
changes something and returns counts one revision and tells one event. The vector counts no revisions. -/
theorem failed_call_changes_nothing (id : UInt64) (c : StorageCall) :
    (∀ s e s', (ListStorage.exec id c).run s = .throws e s' → s' = s) ∧
    (∀ s e t, (GuardedVector.exec .recursive id c).run ⟨s, 0⟩ = .throws e t → t = ⟨s, 0⟩) ∧
    (∀ s e t, (GuardedMap.exec .recursive id c).run ⟨s, 0⟩ = .throws e t → t = ⟨s, 0⟩) ∧
    (c.mutates →
      (∀ s r s', (ListStorage.exec id c).run s = .ok r s' →
        s'.revNum = s.revNum + 1 ∧ ∃ e, s'.published = if s.sink then s.published ++ [e] else s.published) ∧
      ∀ s r t, (GuardedMap.exec .recursive id c).run ⟨s, 0⟩ = .ok r t →
        t.state.revNum = s.revNum + 1 ∧
        ∃ e, t.state.published = if s.sink then s.published ++ [e] else s.published) := by
  refine ⟨fun s e s' h => ListStorage.call_atomic id c s s' e h,
    fun s e t h => GuardedVector.call_atomic id c ⟨s, 0⟩ t e h,
    fun s e t h => (GuardedMap.call_clean .recursive id c).throws h, fun hc => ⟨fun s r s' h => ?_, fun s r t h => ?_⟩⟩
  · obtain ⟨e, he⟩ := ListStorage.call_announces id hc s r s' h
    exact ⟨congrArg Announced.revNum he, e, congrArg Announced.published he⟩
  · have hclean := GuardedMap.call_clean .recursive id c
    rw [hc] at hclean
    obtain ⟨e, he⟩ := hclean.returns h
    exact ⟨congrArg Announced.revNum he, e, congrArg Announced.published he⟩

end Tiodb
