import Tiodb.Storage.Guards

/-!
# The discipline of the mutexes

Which calls lock a plain mutex that they hold: `Insert`, `Delete` and `Query` of the
vector, once they are past what they check before.
-/

namespace Tiodb

open Lib LockProg

/-! ## The vector -/

namespace GuardedVector

variable (m : Mutex)

theorem publish_erasable (code : ContainerEventCode) (k v md : TioData) : Erasable (publish m code k v md) :=
  (erasable_section m _).bind fun _ => erasable_lift _

/-- `GetRecordNumber` gives a number for the key. -/
def Numbered (s : VectorStorage) : TioData → Prop
  | .int index => ¬(index < 0 ∧ Int32.ofNat s.data.length < -index)
  | _ => False

instance (s : VectorStorage) : DecidablePred (Numbered s)
  | .int index => inferInstanceAs (Decidable ¬(index < 0 ∧ Int32.ofNat s.data.length < -index))
  | .none => inferInstanceAs (Decidable False)
  | .double _ => inferInstanceAs (Decidable False)
  | .string _ => inferInstanceAs (Decidable False)

/-- The call gets to the section that locks the mutex twice. -/
def LocksTwice (s : VectorStorage) : StorageCall → Prop
  | .insert key value _ => value.isNull = false ∧ Numbered s key
  | .delete key _ _ => Numbered s key
  | .query _ _ query => query.isNull = true
  | _ => False

theorem getRecordNumber_numbered {s : VectorStorage} {key : TioData} (h : Numbered s key) :
    ∃ n, (VectorStorage.getRecordNumber key).run s = .ok n s := by
  cases key with
  | int index =>
    simp only [VectorStorage.getRecordNumber, TioData.asInt_int, Prog.run_bind, Prog.run_ofExcept_ok, Prog.run_get]
    unfold Numbered at h
    split_ifs with hneg hfar
    · exact absurd ⟨hneg, hfar⟩ h
    · exact ⟨_, rfl⟩
    · exact ⟨_, rfl⟩
  | _ => exact h.elim

theorem getRecordNumber_not_numbered {s : VectorStorage} {key : TioData} (h : ¬Numbered s key) :
    ∃ e, (VectorStorage.getRecordNumber key).run s = .throws e s := by
  cases key with
  | int index =>
    obtain ⟨hneg, hfar⟩ := not_not.mp h
    simp only [VectorStorage.getRecordNumber, TioData.asInt_int, Prog.run_bind, Prog.run_ofExcept_ok, Prog.run_get]
    rw [if_pos hneg, if_pos hfar]
    exact ⟨_, rfl⟩
  | _ => exact ⟨_, rfl⟩

variable (s : VectorStorage) (key value metadata : TioData)

/-- The call of `GetRecord` inside the section that holds the mutex. -/
theorem relocks_getRecord {f : Record → VectorL Unit} :
    (getRecord .plain key >>= f).run ⟨s, 1⟩ = .throws .relocks ⟨s, 1⟩ := by
  rw [getRecord, Prog.run_bind_throws _ _ (run_lockGuard_held _ s Nat.one_pos)]

theorem checkValue_run :
    (VectorStorage.checkValue value).run s =
      if value.isNull then .throws (invalidArgument "value??") s else .ok () s := by
  unfold VectorStorage.checkValue
  split <;> rfl

theorem insert_relocks (hv : value.isNull = false) (hk : Numbered s key) :
    (insert .plain key value metadata).run ⟨s, 0⟩ = .throws .relocks ⟨s, 0⟩ := by
  obtain ⟨n, hn⟩ := getRecordNumber_numbered hk
  have hcheck : (VectorStorage.checkValue value).run s = .ok () s := by simp [checkValue_run, hv]
  rw [insert, Prog.run_bind_ok _ _ (run_lift_ok hcheck 0)]
  apply Prog.run_bind_throws
  apply run_lockGuard_fault
  rw [Prog.run_bind_ok _ _ (run_lift_ok hn 1), relocks_getRecord]

theorem delete_relocks (hk : Numbered s key) :
    (delete .plain key value metadata).run ⟨s, 0⟩ = .throws .relocks ⟨s, 0⟩ := by
  obtain ⟨n, hn⟩ := getRecordNumber_numbered hk
  rw [delete, Prog.run_bind_ok _ _ (run_lift_ok hn 0)]
  apply Prog.run_bind_throws
  exact run_lockGuard_fault .plain (relocks_getRecord s key)

theorem query_relocks {q : TioData} (hq : q.isNull = true) (startOffset endOffset : Int32) :
    (query .plain startOffset endOffset q).run ⟨s, 0⟩ = .throws .relocks ⟨s, 0⟩ := by
  rw [query, if_neg (by simp [hq]), Prog.run_bind_ok _ _ (run_lift_ok rfl 0)]
  apply run_lockGuard_fault
  exact Prog.run_bind_throws _ _ (run_lockGuard_held _ s Nat.one_pos)

/-! What throws before the section keeps the discipline. -/

theorem insert_throws (h : ¬(value.isNull = false ∧ Numbered s key)) :
    ∃ e, (insert .plain key value metadata).run ⟨s, 0⟩ = .throws (.thrown e) ⟨s, 0⟩ := by
  by_cases hv : value.isNull = true
  · have hcheck : (VectorStorage.checkValue value).run s = .throws (invalidArgument "value??") s := by
      simp [checkValue_run, hv]
    exact ⟨_, Prog.run_bind_throws _ _ (run_lift_throws hcheck 0)⟩
  · obtain ⟨e, he⟩ := @getRecordNumber_not_numbered s key (by simpa [hv] using h)
    have hcheck : (VectorStorage.checkValue value).run s = .ok () s := by simp [checkValue_run, hv]
    refine ⟨e, ?_⟩
    rw [insert, Prog.run_bind_ok _ _ (run_lift_ok hcheck 0)]
    apply Prog.run_bind_throws
    apply run_lockGuard_fault
    exact Prog.run_bind_throws _ _ (run_lift_throws he 1)

theorem delete_throws (h : ¬Numbered s key) :
    ∃ e, (delete .plain key value metadata).run ⟨s, 0⟩ = .throws (.thrown e) ⟨s, 0⟩ := by
  obtain ⟨e, he⟩ := getRecordNumber_not_numbered h
  exact ⟨e, Prog.run_bind_throws _ _ (run_lift_throws he 0)⟩

theorem query_throws {q : TioData} (hq : ¬q.isNull = true) (startOffset endOffset : Int32) :
    ∃ e, (query .plain startOffset endOffset q).run ⟨s, 0⟩ = .throws (.thrown e) ⟨s, 0⟩ := by
  refine ⟨runtimeError "query type not supported by this container", ?_⟩
  rw [query, if_pos (by simp [hq])]
  exact Prog.run_bind_throws _ _ (run_lift_throws rfl 0)

variable (id : UInt64)

theorem exec_relocks {c : StorageCall} (h : LocksTwice s c) :
    (exec .plain id c).run ⟨s, 0⟩ = .throws .relocks ⟨s, 0⟩ := by
  cases c with
  | insert key value metadata => exact Prog.run_bind_throws _ _ (insert_relocks s key value metadata h.1 h.2)
  | delete key value metadata => exact Prog.run_bind_throws _ _ (delete_relocks s key value metadata h)
  | query startOffset endOffset q => exact Prog.run_bind_throws _ _ (query_relocks s h startOffset endOffset)
  | _ => exact h.elim

theorem exec_disciplined {c : StorageCall} (h : ¬LocksTwice s c) : Disciplined (exec .plain id c) s := by
  cases c with
  | insert key value metadata =>
    obtain ⟨e, he⟩ := insert_throws s key value metadata h
    exact .of_thrown (Prog.run_bind_throws _ _ he)
  | delete key value metadata =>
    obtain ⟨e, he⟩ := delete_throws s key value metadata h
    exact .of_thrown (Prog.run_bind_throws _ _ he)
  | query startOffset endOffset q =>
    obtain ⟨e, he⟩ := query_throws s h startOffset endOffset
    exact .of_thrown (Prog.run_bind_throws _ _ he)
  | pushBack key value metadata =>
    exact (((erasable_lift _).bind fun _ => (erasable_section _ _).bind fun _ => (erasable_lift _).bind fun _ =>
      publish_erasable _ _ _ _ _).bind fun _ => erasable_pure _).disciplined s
  | pushFront key value metadata =>
    exact (((erasable_lift _).bind fun _ => (erasable_section _ _).bind fun _ =>
      publish_erasable _ _ _ _ _).bind fun _ => erasable_pure _).disciplined s
  | popBack key value metadata =>
    exact (((erasable_lift _).bind fun _ => (erasable_lift _).bind fun _ => (erasable_section _ _).bind fun _ =>
      (publish_erasable _ _ _ _ _).bind fun _ => erasable_pure _).bind fun _ => erasable_pure _).disciplined s
  | popFront key value metadata =>
    exact (((erasable_lift _).bind fun _ => (erasable_section _ _).bind fun _ =>
      (publish_erasable _ _ _ _ _).bind fun _ => erasable_pure _).bind fun _ => erasable_pure _).disciplined s
  | set key value metadata =>
    exact (((erasable_lift _).bind fun _ => (erasable_section _ _).bind fun _ =>
      publish_erasable _ _ _ _ _).bind fun _ => erasable_pure _).disciplined s
  | clear =>
    exact (((erasable_section _ _).bind fun _ => publish_erasable _ _ _ _ _).bind fun _ =>
      erasable_pure _).disciplined s
  | getType => exact ((erasable_lift _).bind fun _ => erasable_pure _).disciplined s
  | command c => exact ((erasable_lift _).bind fun _ => erasable_pure _).disciplined s
  | getId => exact (erasable_pure _).disciplined s
  | _ => exact ((erasable_section _ _).bind fun _ => erasable_pure _).disciplined s

end GuardedVector

/-! ## The vector of the other modules

`VectorStorage` keeps in its state whether the mutex is held, and takes a second lock for undefined behaviour.
-/

namespace VectorStorage

def getRevNum : VectorM UInt64 := lockGuard (pure 0)

def getType : VectorM Bytes := return (← get).type

def command (_command : Bytes) : VectorM Unit := throw (invalidArgument "command not supported")

def setSubscriber (sink : Bool) : VectorM Unit := lockGuard (modify fun s => { s with sink := sink })

/-- A `PopFront` gives the key back as the caller had it. -/
def exec (id : UInt64) : StorageCall → VectorM Returned
  | .getRecordCount => return .count (← getRecordCount)
  | .pushBack k v md => do pushBack k v md; return .nothing
  | .pushFront k v md => do pushFront k v md; return .nothing
  | .popBack k v md => return .record (← popBack k.isSome v.isSome md.isSome)
  | .popFront k v md => return .record { ← popFront v.isSome md.isSome with key := k.getD .none }
  | .getRecord k => return .record (← getRecord k)
  | .set k v md => do set k v md; return .nothing
  | .insert k v md => do insert k v md; return .nothing
  | .delete k v md => do delete k v md; return .nothing
  | .clear => do clear; return .nothing
  | .query startOffset endOffset q => return .records (← query startOffset endOffset q)
  | .getRevNum => return .number (← getRevNum)
  | .getType => return .text (← getType)
  | .getName => return .text (← getName)
  | .command c => do command c; return .nothing
  | .setSubscriber sink => do setSubscriber sink; return .nothing
  | .removeSubscriber => do setSubscriber false; return .nothing
  | .getId => return .number id

end VectorStorage

namespace GuardedVector

open VectorStorage (VectorM)

def withLocked (b : Bool) (s : VectorStorage) : VectorStorage := { s with locked := b }

def forget {α : Type} : Outcome (Fault Exc) (Locked VectorStorage) α → Outcome Exc VectorStorage α
  | .ok a t => .ok a (withLocked (0 < t.held) t.state)
  | .throws (.thrown e) t => .throws e (withLocked (0 < t.held) t.state)
  | .throws .relocks _ => .undefined
  | .undefined => .undefined

/-- The two programs do the same, and the first unlocks as often as it locks. -/
def Matches {α : Type} (x : VectorL α) (y : VectorM α) : Prop :=
  ∀ s held, y.run (withLocked (0 < held) s) = forget (x.run ⟨s, held⟩) ∧
    ∀ t, (x.run ⟨s, held⟩).next = some t → t.held = held

variable {α β : Type}

/-- Code that does not look at the mutex. -/
def Blind (y : VectorM α) : Prop := ∀ s b, y.run (withLocked b s) = (y.run s).mapState (withLocked b)

theorem Blind.bind {y : VectorM α} {g : α → VectorM β} (hy : Blind y) (hg : ∀ a, Blind (g a)) : Blind (y >>= g) := by
  intro s b
  rw [Prog.run_bind, Prog.run_bind, hy s b]
  cases y.run s with
  | ok a t => exact hg a t b
  | _ => rfl

theorem matches_lift {y : VectorM α} (h : Blind y) : Matches (lift y) y := by
  intro s held
  rw [h]
  change _ = forget (lifted held (y.run s)) ∧ ∀ t, (lifted held (y.run s)).next = some t → t.held = held
  cases y.run s with
  | undefined => exact ⟨rfl, fun t ht => nomatch ht⟩
  | _ =>
    refine ⟨rfl, fun t ht => ?_⟩
    obtain rfl := Option.some.inj ht
    rfl

theorem matches_pure (a : α) : Matches (pure a) (pure a) :=
  fun _ _ => ⟨rfl, fun _ ht => by rw [← Option.some.inj ht]⟩

theorem Matches.bind {x : VectorL α} {y : VectorM α} {f : α → VectorL β} {g : α → VectorM β} (hx : Matches x y)
    (hf : ∀ a, Matches (f a) (g a)) : Matches (x >>= f) (y >>= g) := by
  intro s held
  obtain ⟨hrun, hheld⟩ := hx s held
  rw [Prog.run_bind, Prog.run_bind, hrun]
  cases hr : x.run ⟨s, held⟩ with
  | ok a t =>
    obtain rfl : t.held = held := hheld t (by rw [hr]; rfl)
    exact hf a t.state t.held
  | throws e t =>
    have ht : t.held = held := hheld t (by rw [hr]; rfl)
    refine ⟨?_, fun t' ht' => by rw [← Option.some.inj ht', ht]⟩
    cases e <;> rfl
  | undefined => exact ⟨rfl, fun t ht => nomatch ht⟩

theorem matches_lockGuard {x : VectorL α} {y : VectorM α} (h : Matches x y) :
    Matches (lockGuard .plain x) (VectorStorage.lockGuard y) := by
  intro s held
  by_cases hheld : 0 < held
  · rw [run_lockGuard_held x s hheld, VectorStorage.run_lockGuard_locked _ _ (by simpa [withLocked] using hheld)]
    exact ⟨rfl, fun t ht => by rw [← Option.some.inj ht]⟩
  · obtain rfl : held = 0 := by omega
    obtain ⟨hrun, hone⟩ := h s 1
    rw [run_lockGuard x s (by simp), VectorStorage.run_lockGuard _ _ (by simp [withLocked])]
    have hlocked : { withLocked (decide (0 < 0)) s with locked := true } = withLocked (decide (0 < 1)) s := rfl
    rw [hlocked, hrun]
    cases hr : x.run ⟨s, 1⟩ with
    | undefined => exact ⟨rfl, fun t ht => nomatch ht⟩
    | ok a t =>
      have ht : t.held = 1 := hone t (by rw [hr]; rfl)
      refine ⟨?_, fun t' ht' => by simp [← Option.some.inj ht', ht]⟩
      simp [forget, withLocked, ht]
    | throws e t =>
      have ht : t.held = 1 := hone t (by rw [hr]; rfl)
      refine ⟨?_, fun t' ht' => by simp [← Option.some.inj ht', ht]⟩
      cases e <;> simp [forget, withLocked, ht]

theorem matches_read (f : VectorStorage → α) (hf : ∀ s b, f (withLocked b s) = f s) {k : α → VectorL β}
    {k' : α → VectorM β} (hk : ∀ a, Matches (k a) (k' a)) :
    Matches (lift (do return f (← get)) >>= k) (get >>= fun s => k' (f s)) := by
  intro s held
  rw [Prog.run_get_bind, hf]
  exact hk (f s) s held

theorem matches_change (f : List ValueAndMetadata → List ValueAndMetadata) :
    Matches (lockGuard .plain (lift (modify fun s => { s with data := f s.data })))
      (VectorStorage.lockGuard (modify fun s => { s with data := f s.data })) :=
  matches_lockGuard (matches_lift fun _ _ => rfl)

theorem checkValue_blind (value : TioData) : Blind (VectorStorage.checkValue value) := by
  intro s b
  rw [checkValue_run, checkValue_run]
  split <;> rfl

theorem getRecordNumber_blind (key : TioData) : Blind (VectorStorage.getRecordNumber key) := by
  intro s b
  cases key with
  | int k =>
    simp only [VectorStorage.getRecordNumber, TioData.asInt_int, Prog.run_bind, Prog.run_ofExcept_ok, Prog.run_get,
      withLocked]
    split_ifs <;> rfl
  | _ => rfl

theorem recordAt_blind (n : Nat) : Blind (VectorStorage.recordAt n) := by
  intro s b
  have hdata : (withLocked b s).data = s.data := rfl
  rw [VectorStorage.recordAt_state, VectorStorage.recordAt_state, hdata]
  cases s.data[n]? <;> rfl

theorem publish_matches (code : ContainerEventCode) (k v md : TioData) :
    Matches (publish .plain code k v md) (VectorStorage.publish code k v md) := by
  refine (matches_lockGuard (matches_lift fun _ _ => rfl)).bind fun sink => matches_lift fun s b => ?_
  cases sink <;> rfl

theorem matches_popRecord {end? : List ValueAndMetadata → Option ValueAndMetadata} {k : ValueAndMetadata → VectorL α}
    {k' : ValueAndMetadata → VectorM α} (hk : ∀ r, Matches (k r) (k' r)) :
    Matches (lift (popRecord end?) >>= k) (do
      match end? (← get).data with
      | none => throw (invalidArgument "empty")
      | some r => k' r) := by
  intro s held
  have hdata : (withLocked (0 < held) s).data = s.data := rfl
  rw [Prog.run_get_bind, hdata]
  cases hend : end? s.data with
  | none =>
    have hpop : (popRecord end?).run s = .throws (invalidArgument "empty") s := by
      simp [popRecord, hend]
    rw [Prog.run_bind_throws _ _ (run_lift_throws hpop held)]
    exact ⟨rfl, fun t ht => by rw [← Option.some.inj ht]⟩
  | some r =>
    have hpop : (popRecord end?).run s = .ok r s := by
      simp [popRecord, hend]
    rw [Prog.run_bind_ok _ _ (run_lift_ok hpop held)]
    exact hk r s held

theorem getRecord_matches (searchKey : TioData) :
    Matches (getRecord .plain searchKey) (VectorStorage.getRecord searchKey) := by
  refine matches_lockGuard (matches_lift (Blind.bind ?_ fun _ _ _ => rfl))
  exact (getRecordNumber_blind searchKey).bind recordAt_blind

theorem getRecordCount_matches : Matches (getRecordCount .plain) VectorStorage.getRecordCount :=
  matches_lockGuard (matches_lift fun _ _ => rfl)

theorem pushBack_matches (key value metadata : TioData) :
    Matches (pushBack .plain key value metadata) (VectorStorage.pushBack key value metadata) := by
  refine (matches_lift (checkValue_blind value)).bind fun _ => (matches_change (· ++ [⟨value, metadata⟩])).bind fun _ => ?_
  exact matches_read (fun s => s.data.length) (fun _ _ => rfl) fun _ => publish_matches _ _ _ _

theorem pushFront_matches (key value metadata : TioData) :
    Matches (pushFront .plain key value metadata) (VectorStorage.pushFront key value metadata) :=
  (matches_lift (checkValue_blind value)).bind fun _ => (matches_change _).bind fun _ => publish_matches _ _ _ _

theorem popBack_matches (key value metadata : Bool) :
    Matches (popBack .plain key value metadata) (VectorStorage.popBack key value metadata) := by
  exact matches_popRecord fun _ => matches_read (fun s => TioData.int (Int32.ofNat (s.data.length - 1)))
    (fun _ _ => rfl) fun _ => (matches_change _).bind fun _ => (publish_matches _ _ _ _).bind fun _ => matches_pure _

theorem popFront_matches (value metadata : Bool) :
    Matches (popFront .plain none value metadata) (VectorStorage.popFront value metadata) :=
  matches_popRecord fun _ => (matches_change _).bind fun _ => (publish_matches _ _ _ _).bind fun _ => matches_pure _

theorem popFront_key (key : Option TioData) (value metadata : Bool) :
    popFront .plain key value metadata =
      popFront .plain none value metadata >>= fun r => pure { r with key := key.getD .none } := by
  simp only [popFront, Prog.bind_assoc]
  rfl

theorem set_matches (key value metadata : TioData) :
    Matches (set .plain key value metadata) (VectorStorage.set key value metadata) := by
  refine (matches_lift (checkValue_blind value)).bind fun _ => Matches.bind ?_ fun _ => publish_matches _ _ _ _
  refine matches_lockGuard (matches_lift ?_)
  exact (getRecordNumber_blind key).bind fun n => (recordAt_blind n).bind fun _ _ _ => rfl

theorem insert_matches (key value metadata : TioData) :
    Matches (insert .plain key value metadata) (VectorStorage.insert key value metadata) := by
  refine (matches_lift (checkValue_blind value)).bind fun _ => Matches.bind ?_ fun _ => publish_matches _ _ _ _
  refine matches_lockGuard ((matches_lift (getRecordNumber_blind key)).bind fun n => ?_)
  exact (getRecord_matches key).bind fun _ => matches_lift fun _ _ => rfl

theorem delete_matches (key value metadata : TioData) :
    Matches (delete .plain key value metadata) (VectorStorage.delete key value metadata) := by
  refine (matches_lift (getRecordNumber_blind key)).bind fun n => Matches.bind ?_ fun _ => publish_matches _ _ _ _
  exact matches_lockGuard ((getRecord_matches key).bind fun _ => matches_lift fun _ _ => rfl)

theorem clear_matches : Matches (clear .plain) VectorStorage.clear :=
  (matches_change fun _ => []).bind fun _ => publish_matches _ _ _ _

theorem matches_locked_twice (f : Nat → VectorL α) (g : Nat → VectorM α) :
    Matches (lockGuard .plain (getRecordCount .plain >>= f))
      (VectorStorage.lockGuard (VectorStorage.getRecordCount >>= g)) := by
  intro s held
  by_cases hheld : 0 < held
  · rw [run_lockGuard_held _ s hheld, VectorStorage.run_lockGuard_locked _ _ (by simpa [withLocked] using hheld)]
    exact ⟨rfl, fun t ht => by rw [← Option.some.inj ht]⟩
  · obtain rfl : held = 0 := by omega
    have hcount : (getRecordCount .plain).run ⟨s, 1⟩ = .throws .relocks ⟨s, 1⟩ := run_lockGuard_held _ s Nat.one_pos
    rw [run_lockGuard_fault .plain (Prog.run_bind_throws _ f hcount)]
    exact ⟨rfl, fun t ht => by rw [← Option.some.inj ht]⟩

theorem query_matches (startOffset endOffset : Int32) (q : TioData) :
    Matches (query .plain startOffset endOffset q) (VectorStorage.query startOffset endOffset q) := by
  unfold query VectorStorage.query
  cases hq : q.isNull with
  | false =>
    rw [if_pos (by simp), if_pos (by simp)]
    intro s held
    rw [Prog.run_bind_throws _ _ (run_lift_throws rfl held)]
    exact ⟨rfl, fun t ht => by rw [← Option.some.inj ht]⟩
  | true =>
    rw [if_neg (by simp), if_neg (by simp)]
    intro s held
    rw [Prog.run_bind_ok _ _ (run_lift_ok rfl held)]
    exact matches_locked_twice _ _ s held

/-- Each call does the same on both, and leaves the mutex as often held as it was. -/
theorem exec_matches (id : UInt64) (c : StorageCall) : Matches (exec .plain id c) (VectorStorage.exec id c) := by
  cases c with
  | getRecordCount => exact getRecordCount_matches.bind fun _ => matches_pure _
  | pushBack key value metadata => exact (pushBack_matches key value metadata).bind fun _ => matches_pure _
  | pushFront key value metadata => exact (pushFront_matches key value metadata).bind fun _ => matches_pure _
  | popBack key value metadata => exact (popBack_matches _ _ _).bind fun _ => matches_pure _
  | popFront key value metadata =>
    rw [exec, popFront_key, Prog.bind_assoc]
    exact (popFront_matches _ _).bind fun _ => matches_pure _
  | getRecord searchKey => exact (getRecord_matches searchKey).bind fun _ => matches_pure _
  | set key value metadata => exact (set_matches key value metadata).bind fun _ => matches_pure _
  | insert key value metadata => exact (insert_matches key value metadata).bind fun _ => matches_pure _
  | delete key value metadata => exact (delete_matches key value metadata).bind fun _ => matches_pure _
  | clear => exact clear_matches.bind fun _ => matches_pure _
  | query startOffset endOffset q => exact (query_matches startOffset endOffset q).bind fun _ => matches_pure _
  | getRevNum => exact (matches_lockGuard (matches_lift fun _ _ => rfl)).bind fun _ => matches_pure _
  | getType => exact (matches_lift fun _ _ => rfl).bind fun _ => matches_pure _
  | getName => exact (matches_lockGuard (matches_lift fun _ _ => rfl)).bind fun _ => matches_pure _
  | command c => exact (matches_lift fun _ _ => rfl).bind fun _ => matches_pure _
  | setSubscriber sink => exact (matches_lockGuard (matches_lift fun _ _ => rfl)).bind fun _ => matches_pure _
  | removeSubscriber => exact (matches_lockGuard (matches_lift fun _ _ => rfl)).bind fun _ => matches_pure _
  | getId => exact matches_pure _

end GuardedVector

/-! ## The map -/

namespace GuardedMap

variable (m : Mutex)

theorem updateRevNumAndPublish_erases (code : ContainerEventCode) (k v md : TioData) :
    Erases (updateRevNumAndPublish m code k v md) (MapStorage.updateRevNumAndPublish code k v md) := by
  have herase := ((erasesAll_lift (ε := Exc) (σ := MapStorage) (do
    modify fun s => { s with revNum := s.revNum + 1 }
    return (← get).sink)).lockGuard_free m).bind fun sink =>
      (erasesAll_lift (if sink then modify fun s => { s with published := s.published ++ [⟨code, k, v, md⟩] }
        else pure ())).erases
  intro s
  rw [updateRevNumAndPublish, herase s]
  obtain ⟨data, name, type, sink, revNum, published⟩ := s
  cases sink <;> rfl

theorem set_erases (key value metadata : TioData) :
    Erases (set m key value metadata) (MapStorage.set key value metadata) := by
  rw [MapStorage.set, MapStorage.setRecord, Prog.bind_assoc]
  refine (erasesAll_lift _).erases.bind fun _ => ?_
  exact ((erasesAll_lift _).lockGuard_free m).bind fun _ => updateRevNumAndPublish_erases m .set key value metadata

theorem insert_erases (key value metadata : TioData) :
    Erases (insert m key value metadata) (MapStorage.insert key value metadata) := by
  rw [MapStorage.insert, MapStorage.insertRecord, Prog.bind_assoc]
  refine (erasesAll_lift _).erases.bind fun _ => ?_
  rw [Prog.bind_assoc]
  refine (erasesAll_lift _).erases.bind fun _ => ?_
  exact ((erasesAll_lift _).lockGuard_free m).bind fun _ => updateRevNumAndPublish_erases m .set key value metadata

theorem delete_erases (key value metadata : TioData) :
    Erases (delete m key value metadata) (MapStorage.delete key value metadata) := by
  rw [MapStorage.delete, MapStorage.deleteRecord, Prog.bind_assoc]
  refine (erasesAll_lift _).erases.bind fun _ => ?_
  rw [Prog.bind_assoc]
  refine (erasesAll_lift _).erases.bind fun _ => ?_
  exact ((erasesAll_lift _).lockGuard_free m).bind fun _ => updateRevNumAndPublish_erases m .delete key value metadata

theorem clear_erases : Erases (clear m) MapStorage.clear :=
  ((erasesAll_lift _).lockGuard_free m).bind fun _ => updateRevNumAndPublish_erases m .clear .none .none .none

theorem getRecord_erases (searchKey : TioData) : Erases (getRecord m searchKey) (MapStorage.getRecord searchKey) :=
  ((erasesAll_lift _).lockGuard_free m).bind fun _ => fun _ => rfl

theorem query_erases (startOffset endOffset : Int32) (q : TioData) :
    Erases (query m startOffset endOffset q) (MapStorage.query startOffset endOffset q) := by
  intro s
  cases hq : q.isNull with
  | false => simp [query, MapStorage.query, hq, Prog.run_bind, lift, lifted]
  | true =>
    obtain rfl : q = .none := by
      cases q <;> first | rfl | cases hq
    have hsection := (erasesAll_lift (MapStorage.query startOffset endOffset .none)).lockGuard_free m
    rw [query, Prog.run_bind_ok _ _ (run_lift_ok rfl 0)]
    exact hsection s

theorem exec_disciplined (id : UInt64) (c : StorageCall) (s : MapStorage) : Disciplined (exec m id c) s := by
  apply Erasable.disciplined
  cases c with
  | set key value metadata => exact (set_erases m key value metadata).erasable.bind fun _ => erasable_pure _
  | insert key value metadata => exact (insert_erases m key value metadata).erasable.bind fun _ => erasable_pure _
  | delete key value metadata => exact (delete_erases m key value metadata).erasable.bind fun _ => erasable_pure _
  | clear => exact (clear_erases m).erasable.bind fun _ => erasable_pure _
  | getRecord searchKey => exact (getRecord_erases m searchKey).erasable.bind fun _ => erasable_pure _
  | query startOffset endOffset q => exact (query_erases m startOffset endOffset q).erasable.bind fun _ => erasable_pure _
  | getId => exact erasable_pure _
  | getRecordCount => exact (erasable_section _ _).bind fun _ => erasable_pure _
  | getRevNum => exact (erasable_section _ _).bind fun _ => erasable_pure _
  | setSubscriber sink => exact (erasable_section _ _).bind fun _ => erasable_pure _
  | removeSubscriber => exact (erasable_section _ _).bind fun _ => erasable_pure _
  | _ => exact (erasable_lift _).bind fun _ => erasable_pure _

end GuardedMap

/-! ## The list -/

namespace ListStorage

theorem keeps_lockGuard {α : Type} {x : ListM α} (h : x.Keeps mutex) : (lockGuard x).Keeps mutex := by
  intro s s' hs
  rw [run_lockGuard] at hs
  cases hr : x.run { s with mutex := s.mutex + 1 } with
  | undefined => simp [hr, Outcome.next] at hs
  | ok a t =>
    have ht : t.mutex = s.mutex + 1 := h _ t (by rw [hr]; rfl)
    rw [hr] at hs
    obtain rfl := Option.some.inj hs
    simp [ht]
  | throws e t =>
    have ht : t.mutex = s.mutex + 1 := h _ t (by rw [hr]; rfl)
    rw [hr] at hs
    obtain rfl := Option.some.inj hs
    simp [ht]

theorem checkValue_keeps (value : TioData) : (checkValue value).Keeps mutex := by
  unfold checkValue
  split
  · exact (Prog.reads_throw _).keeps _
  · exact (Prog.reads_pure _).keeps _

theorem updateRevNumAndPublish_keeps (code : ContainerEventCode) (k v m : TioData) :
    (updateRevNumAndPublish code k v m).Keeps mutex := Prog.keeps_modify fun _ => rfl

theorem change_keeps (f : ListStorage → List ValueAndMetadata) :
    (modify fun s => { s with data := f s } : ListM Unit).Keeps mutex := Prog.keeps_modify fun _ => rfl

theorem get_keeps : (get : ListM ListStorage).Keeps mutex := Prog.reads_get.keeps _

variable (key value metadata : TioData)

theorem pushBack_keeps : (pushBack key value metadata).Keeps mutex := by
  refine (checkValue_keeps value).bind fun _ => keeps_lockGuard ?_
  exact (change_keeps _).bind fun _ => get_keeps.bind fun _ => updateRevNumAndPublish_keeps _ _ _ _

theorem pushFront_keeps : (pushFront key value metadata).Keeps mutex := by
  refine (checkValue_keeps value).bind fun _ => keeps_lockGuard ?_
  exact (change_keeps _).bind fun _ => updateRevNumAndPublish_keeps _ _ _ _

theorem popBack_keeps (v m : Option TioData) : (popBack v m).Keeps mutex := by
  refine keeps_lockGuard (get_keeps.bind fun s => ?_)
  cases s.data.getLast? with
  | none => exact (Prog.reads_throw _).keeps _
  | some r =>
    exact (change_keeps _).bind fun _ => get_keeps.bind fun _ => (updateRevNumAndPublish_keeps _ _ _ _).bind fun _ =>
      (Prog.reads_pure _).keeps _

theorem popFront_keeps (v m : Option TioData) : (popFront v m).Keeps mutex := by
  refine keeps_lockGuard (get_keeps.bind fun s => ?_)
  cases s.data.head? with
  | none => exact (Prog.reads_throw _).keeps _
  | some r =>
    exact (change_keeps _).bind fun _ => (updateRevNumAndPublish_keeps _ _ _ _).bind fun _ =>
      (Prog.reads_pure _).keeps _

theorem set_keeps : (set key value metadata).Keeps mutex := by
  refine keeps_lockGuard (((getOffset_reads key).keeps _).bind fun r => get_keeps.bind fun s => ?_)
  split_ifs
  · exact Prog.reads_undefined.keeps _
  · exact (updateRevNumAndPublish_keeps _ _ _ _).bind fun _ => change_keeps _

theorem insert_keeps : (insert key value metadata).Keeps mutex := by
  refine ((Prog.reads_ofExcept _).keeps _).bind fun k => keeps_lockGuard ?_
  split_ifs
  · exact (change_keeps _).bind fun _ => updateRevNumAndPublish_keeps _ _ _ _
  · refine get_keeps.bind fun s => ?_
    split_ifs
    · exact (change_keeps _).bind fun _ => updateRevNumAndPublish_keeps _ _ _ _
    · exact ((getOffset_reads key).keeps _).bind fun r =>
        (change_keeps _).bind fun _ => updateRevNumAndPublish_keeps _ _ _ _

theorem delete_keeps : (delete key value metadata).Keeps mutex := by
  refine keeps_lockGuard (((getOffset_reads key).keeps _).bind fun r => get_keeps.bind fun s => ?_)
  split_ifs
  · exact (Prog.reads_throw _).keeps _
  · exact (change_keeps _).bind fun _ => updateRevNumAndPublish_keeps _ _ _ _

theorem clear_keeps : clear.Keeps mutex :=
  keeps_lockGuard ((change_keeps _).bind fun _ => updateRevNumAndPublish_keeps _ _ _ _)

theorem queryOffset_reads (offset recordCount : Int32) : (queryOffset offset recordCount).Reads := by
  unfold queryOffset
  split_ifs
  · exact Prog.reads_pure _
  · exact Prog.reads_get.bind fun _ => Prog.reads_pure _
  · exact (getOffset_reads _).bind fun _ => Prog.reads_pure _

theorem query_reads (startOffset endOffset : Int32) (q : TioData) : (query startOffset endOffset q).Reads := by
  unfold query
  split_ifs
  · exact Prog.reads_throw _
  · refine reads_lockGuard (Prog.reads_get.bind fun s => ?_)
    split_ifs
    · exact Prog.reads_pure _
    · refine (Prog.reads_ofExcept _).bind fun limits => (queryOffset_reads _ _).bind fun first =>
        (queryOffset_reads _ _).bind fun last => ?_
      split_ifs
      · exact Prog.reads_undefined
      · exact Prog.reads_pure _

theorem setSubscriber_keeps (sink : Bool) : (setSubscriber sink).Keeps mutex := Prog.keeps_modify fun _ => rfl

theorem exec_keeps (id : UInt64) (c : StorageCall) : (exec id c).Keeps mutex := by
  have hpure {β : Type} (b : β) : (pure b : ListM β).Keeps mutex := (Prog.reads_pure b).keeps _
  cases c with
  | pushBack key value metadata => exact (pushBack_keeps key value metadata).bind fun _ => hpure _
  | pushFront key value metadata => exact (pushFront_keeps key value metadata).bind fun _ => hpure _
  | popBack key value metadata => exact (popBack_keeps value metadata).bind fun _ => hpure _
  | popFront key value metadata => exact (popFront_keeps value metadata).bind fun _ => hpure _
  | set key value metadata => exact (set_keeps key value metadata).bind fun _ => hpure _
  | insert key value metadata => exact (insert_keeps key value metadata).bind fun _ => hpure _
  | delete key value metadata => exact (delete_keeps key value metadata).bind fun _ => hpure _
  | clear => exact clear_keeps.bind fun _ => hpure _
  | getRecord searchKey => exact ((getRecord_reads searchKey).keeps _).bind fun _ => hpure _
  | query startOffset endOffset q => exact ((query_reads startOffset endOffset q).keeps _).bind fun _ => hpure _
  | getRecordCount => exact (keeps_lockGuard (get_keeps.bind fun _ => hpure _)).bind fun _ => hpure _
  | getRevNum => exact (keeps_lockGuard (get_keeps.bind fun _ => hpure _)).bind fun _ => hpure _
  | getType => exact (get_keeps.bind fun _ => hpure _).bind fun _ => hpure _
  | getName => exact (get_keeps.bind fun _ => hpure _).bind fun _ => hpure _
  | command c => exact ((Prog.reads_throw _).keeps _).bind fun _ => hpure _
  | setSubscriber sink => exact (setSubscriber_keeps sink).bind fun _ => hpure _
  | removeSubscriber => exact (setSubscriber_keeps false).bind fun _ => hpure _
  | getId => exact hpure _

end ListStorage

/-! ## All three -/

/-- A call from a state with the mutex free keeps the discipline on every map and every list, and on a vector exactly if
it does not get to a section that locks the mutex twice. -/
theorem lock_discipline (id : UInt64) (c : StorageCall) :
    (∀ s : VectorStorage, Disciplined (GuardedVector.exec .plain id c) s ↔ ¬GuardedVector.LocksTwice s c) ∧
    (∀ s : MapStorage, Disciplined (GuardedMap.exec .plain id c) s) ∧
    (∀ s s' : ListStorage, s.mutex = 0 → ((ListStorage.exec id c).run s).next = some s' → s'.mutex = 0) := by
  refine ⟨fun s => ⟨fun h htwice => ?_, fun h => ?_⟩, fun s => ?_, fun s s' hfree hs => ?_⟩
  · exact not_disciplined_of_relocks (GuardedVector.exec_relocks s id htwice) h
  · exact GuardedVector.exec_disciplined s id h
  · exact GuardedMap.exec_disciplined .plain id c s
  · exact (ListStorage.exec_keeps id c s s' hs).trans hfree

theorem lock_discipline_pop :
    let v : VectorStorage := { VectorStorage.new [] [] with data := [⟨.int 5, .none⟩] }
    let l : ListStorage := { ListStorage.new [] [] with data := [⟨.int 5, .none⟩] }
    Disciplined (GuardedVector.exec .plain 0 (.popBack none none none)) v ∧
    (∀ l', ((ListStorage.exec 0 (.popBack none none none)).run l).next = some l' → l'.mutex = 0) := by
  intro v l
  have h := lock_discipline 0 (.popBack none none none)
  exact ⟨(h.1 v).mpr id, fun l' => h.2.2 l l' rfl⟩

/-- `Insert` calls `GetRecord` while it holds the mutex. -/
theorem insert_locks_twice :
    let v : VectorStorage := { VectorStorage.new [] [] with data := [⟨.int 5, .none⟩] }
    (GuardedVector.exec .plain 0 (.insert (.int 0) (.int 6) .none)).run ⟨v, 0⟩ = .throws .relocks ⟨v, 0⟩ ∧
    ¬Disciplined (GuardedVector.exec .plain 0 (.insert (.int 0) (.int 6) .none)) v := by
  intro v
  have hrun : (GuardedVector.exec .plain 0 (.insert (.int 0) (.int 6) .none)).run ⟨v, 0⟩ = .throws .relocks ⟨v, 0⟩ := by
    decide
  exact ⟨hrun, not_disciplined_of_relocks hrun⟩

end Tiodb
