import Tiodb.Storage.Discipline
import Tiodb.Storage.Positions

/-!
# The vector and the list as sequences

What a client sees of a call to a vector, with its locks left out, and of the same
call to a list, in terms of the records that it holds.
-/

namespace Tiodb

open Lib LockProg

/-- The calls that a client makes to a sequence. Each output parameter of a pop is given, and holds nothing yet. -/
inductive SequenceCall where
  | pushBack (value metadata : TioData)
  | pushFront (value metadata : TioData)
  | popBack
  | popFront
  | set (key : Int32) (value metadata : TioData)
  | insert (key : Int32) (value metadata : TioData)
  | delete (key : Int32) (value metadata : TioData)
  | clear
  | getRecord (key : Int32)
  | getRecordCount
  | query (startOffset endOffset : Int32) (query : TioData)
  deriving DecidableEq, Repr

def SequenceCall.storageCall : SequenceCall → StorageCall
  | .pushBack value metadata => .pushBack .none value metadata
  | .pushFront value metadata => .pushFront .none value metadata
  | .popBack => .popBack (some .none) (some .none) (some .none)
  | .popFront => .popFront (some .none) (some .none) (some .none)
  | .set key value metadata => .set (.int key) value metadata
  | .insert key value metadata => .insert (.int key) value metadata
  | .delete key value metadata => .delete (.int key) value metadata
  | .clear => .clear
  | .getRecord key => .getRecord (.int key)
  | .getRecordCount => .getRecordCount
  | .query startOffset endOffset q => .query startOffset endOffset q

/-- What a client sees of a call: what it returns with the records after it, or that it raises an error. -/
inductive Effect where
  | returns (r : Returned) (data : List ValueAndMetadata)
  | raises (data : List ValueAndMetadata)
  | undefined
  deriving DecidableEq, Repr

def Effect.records : Effect → List ValueAndMetadata
  | .returns _ data => data
  | .raises data => data
  | .undefined => []

def effect {σ : Type} (data : σ → List ValueAndMetadata) : Outcome Exc σ Returned → Effect
  | .ok r s => .returns r (data s)
  | .throws _ s => .raises (data s)
  | .undefined => .undefined

/-! ## The vector without its locks -/

namespace GuardedVector

/-- With a mutex that may be locked again, a lock does nothing. -/
def freeEffect (c : SequenceCall) (s : VectorStorage) : Effect :=
  effect VectorStorage.data (unlocked ((exec .recursive 0 c.storageCall).run ⟨s, 0⟩))

/-- What a call of the vector does to its records. -/
def effectOn (data : List ValueAndMetadata) : SequenceCall → Effect
  | .pushBack value metadata =>
    if value.isNull then .raises data else .returns .nothing (data ++ [⟨value, metadata⟩])
  | .pushFront value metadata =>
    if value.isNull then .raises data else .returns .nothing (⟨value, metadata⟩ :: data)
  | .popBack =>
    match data.getLast? with
    | none => .raises data
    | some r => .returns (.record ⟨.int (Int32.ofNat (data.length - 1)), r.value, r.metadata⟩) data.dropLast
  | .popFront =>
    match data.head? with
    | none => .raises data
    | some r => .returns (.record ⟨.none, r.value, r.metadata⟩) data.tail
  | .set key value metadata =>
    match value.isNull, pyIndex key.toInt data.length with
    | false, some i => .returns .nothing (data.set i ⟨value, metadata⟩)
    | _, _ => .raises data
  | .insert key value metadata =>
    match value.isNull, pyIndex key.toInt data.length with
    | false, some i => .returns .nothing (data.insertIdx i ⟨value, metadata⟩)
    | _, _ => .raises data
  | .delete key _ _ =>
    match pyIndex key.toInt data.length with
    | some i => .returns .nothing (data.eraseIdx i)
    | none => .raises data
  | .clear => .returns .nothing []
  | .getRecord key =>
    match (pyIndex key.toInt data.length).bind fun i => data[i]? with
    | some r => .returns (.record ⟨.int key, r.value, r.metadata⟩) data
    | none => .raises data
  | .getRecordCount => .returns (.count data.length) data
  | .query startOffset endOffset q =>
    if q.isNull = false then .raises data
    else if data = [] ∧ endOffset < 0 then .raises data
    else if data = [] ∧ endOffset ≠ 0 then .undefined
    else .returns (.records (pySlice (data.zipIdx.map fun (r, i) => ⟨.int (Int32.ofNat i), r.value, r.metadata⟩)
      startOffset.toInt (queryStop endOffset))) data

variable (s : VectorStorage)

theorem publish_ok (code : ContainerEventCode) (k v md : TioData) :
    ∃ t, (publish .recursive code k v md).run ⟨s, 0⟩ = .ok () ⟨t, 0⟩ ∧ t.data = s.data := by
  obtain ⟨data, name, type, sink, locked, published⟩ := s
  cases sink
  · exact ⟨_, rfl, rfl⟩
  · exact ⟨_, rfl, rfl⟩

theorem effect_ok {x : VectorL Unit} {t : VectorStorage} (h : x.run ⟨s, 0⟩ = .ok () ⟨t, 0⟩) :
    effect VectorStorage.data (unlocked ((x >>= fun _ => pure Returned.nothing).run ⟨s, 0⟩)) =
      .returns .nothing t.data := by
  rw [Prog.run_bind_ok _ _ h]
  rfl

theorem effect_throws {α : Type} {x : VectorL α} {f : α → Returned} {e : Exc} {t : VectorStorage}
    (h : x.run ⟨s, 0⟩ = .throws (.thrown e) ⟨t, 0⟩) :
    effect VectorStorage.data (unlocked ((x >>= fun a => pure (f a)).run ⟨s, 0⟩)) = .raises t.data := by
  rw [Prog.run_bind_throws _ _ h]
  rfl

variable (value metadata : TioData)

theorem effect_null {f : Unit → VectorL Unit} (hv : value.isNull = true) :
    effect VectorStorage.data (unlocked (((lift (VectorStorage.checkValue value) >>= f) >>= fun _ =>
      pure Returned.nothing).run ⟨s, 0⟩)) = .raises s.data := by
  have hcheck : (VectorStorage.checkValue value).run s = .throws (invalidArgument "value??") s := by
    simp [checkValue_run, hv]
  exact effect_throws s (Prog.run_bind_throws _ _ (run_lift_throws hcheck 0))

theorem run_checked {f : Unit → VectorL Unit} (hv : value.isNull = false) :
    (lift (VectorStorage.checkValue value) >>= f).run ⟨s, 0⟩ = (f ()).run ⟨s, 0⟩ := by
  have hcheck : (VectorStorage.checkValue value).run s = .ok () s := by simp [checkValue_run, hv]
  exact Prog.run_bind_ok _ _ (run_lift_ok hcheck 0)

theorem pushBack_effect : freeEffect (.pushBack value metadata) s = effectOn s.data (.pushBack value metadata) := by
  simp only [effectOn]
  split_ifs with hv
  · exact effect_null s value hv
  · let pushed : VectorStorage := { s with data := s.data ++ [⟨value, metadata⟩] }
    obtain ⟨t, ht, hdata⟩ := publish_ok pushed .insert (.int (Int32.ofNat (pushed.data.length - 1))) value metadata
    have hrun : (pushBack .recursive .none value metadata).run ⟨s, 0⟩ = .ok () ⟨t, 0⟩ := by
      rw [pushBack, run_checked s value (by simpa using hv)]
      exact ht
    exact (effect_ok s hrun).trans (congrArg _ hdata)

theorem pushFront_effect : freeEffect (.pushFront value metadata) s = effectOn s.data (.pushFront value metadata) := by
  simp only [effectOn]
  split_ifs with hv
  · exact effect_null s value hv
  · obtain ⟨t, ht, hdata⟩ := publish_ok { s with data := ⟨value, metadata⟩ :: s.data } .insert (.int 0) value metadata
    have hrun : (pushFront .recursive .none value metadata).run ⟨s, 0⟩ = .ok () ⟨t, 0⟩ := by
      rw [pushFront, run_checked s value (by simpa using hv)]
      exact ht
    exact (effect_ok s hrun).trans (congrArg _ hdata)

theorem popRecord_run (end? : List ValueAndMetadata → Option ValueAndMetadata) :
    (popRecord end?).run s =
      match end? s.data with
      | none => .throws (invalidArgument "empty") s
      | some r => .ok r s := by
  rw [popRecord, Prog.run_get_bind]
  cases end? s.data <;> rfl

theorem popBack_effect : freeEffect .popBack s = effectOn s.data .popBack := by
  have hpop := popRecord_run s List.getLast?
  simp only [effectOn]
  cases hlast : s.data.getLast? with
  | none =>
    rw [hlast] at hpop
    exact effect_throws s (Prog.run_bind_throws _ _ (run_lift_throws hpop 0))
  | some r =>
    rw [hlast] at hpop
    let index := TioData.int (Int32.ofNat (s.data.length - 1))
    obtain ⟨t, ht, hdata⟩ := publish_ok { s with data := s.data.dropLast } .delete index r.value r.metadata
    have hrun : (popBack .recursive true true true).run ⟨s, 0⟩ = .ok ⟨index, r.value, r.metadata⟩ ⟨t, 0⟩ := by
      rw [popBack, Prog.run_bind_ok _ _ (run_lift_ok hpop 0)]
      exact Prog.run_bind_ok _ _ ht
    change effect VectorStorage.data (unlocked ((popBack .recursive true true true >>= fun r =>
      pure (Returned.record r)).run ⟨s, 0⟩)) = _
    rw [Prog.run_bind_ok _ _ hrun]
    exact congrArg _ hdata

theorem popFront_effect : freeEffect .popFront s = effectOn s.data .popFront := by
  have hpop := popRecord_run s List.head?
  simp only [effectOn]
  cases hhead : s.data.head? with
  | none =>
    rw [hhead] at hpop
    exact effect_throws s (Prog.run_bind_throws _ _ (run_lift_throws hpop 0))
  | some r =>
    rw [hhead] at hpop
    obtain ⟨t, ht, hdata⟩ := publish_ok { s with data := s.data.tail } .delete (.int 0) r.value r.metadata
    have hrun : (popFront .recursive (some .none) true true).run ⟨s, 0⟩ = .ok ⟨.none, r.value, r.metadata⟩ ⟨t, 0⟩ := by
      rw [popFront, Prog.run_bind_ok _ _ (run_lift_ok hpop 0)]
      exact Prog.run_bind_ok _ _ ht
    change effect VectorStorage.data (unlocked ((popFront .recursive (some .none) true true >>= fun r =>
      pure (Returned.record r)).run ⟨s, 0⟩)) = _
    rw [Prog.run_bind_ok _ _ hrun]
    exact congrArg _ hdata

theorem clear_effect : freeEffect .clear s = effectOn s.data .clear := by
  obtain ⟨t, ht, hdata⟩ := publish_ok { s with data := [] } .clear .none .none .none
  have hrun : (clear .recursive).run ⟨s, 0⟩ = .ok () ⟨t, 0⟩ := ht
  exact (effect_ok s hrun).trans (congrArg _ hdata)

/-! The operations with a key. -/

theorem getRecordNumber_neg {k : Int32} (hlen : s.data.length < 2 ^ 31) (hneg : k.toInt < 0) :
    (VectorStorage.getRecordNumber (.int k)).run s =
      if k.toInt ≠ -2 ^ 31 ∧ s.data.length + k.toInt < 0 then .throws (invalidArgument "invalid subscript") s
      else .ok ((s.data.length + k.toInt) % 2 ^ 64).toNat s := by
  have hk := toInt_bounds k
  have hsize := Int32.toInt_ofNat_of_lt hlen
  have hsum : (Int32.ofNat s.data.length + k).toInt = s.data.length + k.toInt := by
    rw [Int32.toInt_add, hsize, Int.bmod_eq_of_le] <;> omega
  have hfar : Int32.ofNat s.data.length < -k ↔ k.toInt ≠ -2 ^ 31 ∧ s.data.length + k.toInt < 0 := by
    rw [Int32.lt_iff_toInt_lt, hsize, Int32.toInt_neg, Int.bmod_eq_emod]
    split_ifs <;> omega
  have hless : k < 0 := by
    rw [Int32.lt_iff_toInt_lt]
    exact hneg
  simp only [VectorStorage.getRecordNumber, TioData.asInt_int, Prog.run_bind, Prog.run_ofExcept_ok, Prog.run_get]
  rw [if_pos hless, hsum]
  simp only [hfar]
  split_ifs <;> rfl

/-- A key that names a record has its number; any other has none, or one behind the last record. -/
theorem getRecordNumber_cases (k : Int32) (hlen : s.data.length < 2 ^ 31) :
    (∃ i, pyIndex k.toInt s.data.length = some i ∧ (VectorStorage.getRecordNumber (.int k)).run s = .ok i s) ∨
    (pyIndex k.toInt s.data.length = none ∧
      ((∃ e, (VectorStorage.getRecordNumber (.int k)).run s = .throws e s) ∨
        ∃ n, s.data.length ≤ n ∧ (VectorStorage.getRecordNumber (.int k)).run s = .ok n s)) := by
  have hk := toInt_bounds k
  by_cases hneg : k.toInt < 0
  · rw [getRecordNumber_neg s hlen hneg]
    unfold pyIndex
    rw [if_neg (by omega : ¬(0 ≤ k.toInt ∧ k.toInt < s.data.length))]
    by_cases hin : 0 ≤ (s.data.length : Int) + k.toInt
    · left
      refine ⟨_, if_pos ⟨hneg, hin⟩, ?_⟩
      rw [if_neg (by omega)]
      congr 1
      omega
    · right
      refine ⟨if_neg (by omega), ?_⟩
      by_cases hmin : k.toInt = -2 ^ 31
      · right
        exact ⟨_, by omega, if_neg (by omega)⟩
      · left
        exact ⟨_, if_pos ⟨hmin, by omega⟩⟩
  · have hrun : (VectorStorage.getRecordNumber (.int k)).run s = .ok k.toInt.toNat s := by
      have hless : ¬k < 0 := by
        rw [Int32.lt_iff_toInt_lt]
        exact hneg
      simp only [VectorStorage.getRecordNumber, TioData.asInt_int, Prog.run_bind, Prog.run_ofExcept_ok, Prog.run_get]
      rw [if_neg hless]
      rfl
    rw [hrun]
    unfold pyIndex
    by_cases hin : k.toInt < s.data.length
    · exact Or.inl ⟨_, if_pos ⟨by omega, hin⟩, rfl⟩
    · right
      refine ⟨?_, Or.inr ⟨_, by omega, rfl⟩⟩
      rw [if_neg (by omega), if_neg (by omega)]

theorem getInternalRecord_run (k : Int32) (hlen : s.data.length < 2 ^ 31) :
    (∃ i r, pyIndex k.toInt s.data.length = some i ∧ s.data[i]? = some r ∧
      (VectorStorage.getRecordNumber (.int k)).run s = .ok i s ∧
      (VectorStorage.getInternalRecord (.int k)).run s = .ok r s) ∨
    (pyIndex k.toInt s.data.length = none ∧ ∃ e, (VectorStorage.getInternalRecord (.int k)).run s = .throws e s) := by
  rcases getRecordNumber_cases s k hlen with ⟨i, hp, hi⟩ | ⟨hp, ⟨e, he⟩ | ⟨n, hn, hrun⟩⟩
  · left
    have hr := List.getElem?_eq_getElem (pyIndex_lt hp)
    refine ⟨i, _, hp, hr, hi, ?_⟩
    rw [VectorStorage.getInternalRecord, Prog.run_bind_ok _ _ hi, VectorStorage.recordAt_state, hr]
  · right
    exact ⟨hp, e, Prog.run_bind_throws _ _ he⟩
  · right
    refine ⟨hp, ⟨.outOfRange, ascii "vector"⟩, ?_⟩
    rw [VectorStorage.getInternalRecord, Prog.run_bind_ok _ _ hrun, VectorStorage.recordAt_state,
      List.getElem?_eq_none hn]

theorem getRecord_cases (k : Int32) (hlen : s.data.length < 2 ^ 31) :
    (∃ i r, pyIndex k.toInt s.data.length = some i ∧ s.data[i]? = some r ∧
      (VectorStorage.getRecordNumber (.int k)).run s = .ok i s ∧
      ∀ held, (getRecord .recursive (.int k)).run ⟨s, held⟩ = .ok ⟨.int k, r.value, r.metadata⟩ ⟨s, held⟩) ∨
    (pyIndex k.toInt s.data.length = none ∧
      ∃ e, ∀ held, (getRecord .recursive (.int k)).run ⟨s, held⟩ = .throws (.thrown e) ⟨s, held⟩) := by
  have herase : ErasesAll (getRecord .recursive (.int k)) (do
      let r ← VectorStorage.getInternalRecord (.int k)
      return ⟨.int k, r.value, r.metadata⟩) := (erasesAll_lift _).lockGuard_recursive
  rcases getInternalRecord_run s k hlen with ⟨i, r, hp, hr, hi, hrun⟩ | ⟨hp, e, he⟩
  · refine Or.inl ⟨i, r, hp, hr, hi, fun held => ?_⟩
    rw [herase s held, Prog.run_bind_ok _ _ hrun]
    rfl
  · refine Or.inr ⟨hp, e, fun held => ?_⟩
    rw [herase s held, Prog.run_bind_throws _ _ he]
    rfl

theorem getRecord_effect (k : Int32) (hlen : s.data.length < 2 ^ 31) :
    freeEffect (.getRecord k) s = effectOn s.data (.getRecord k) := by
  simp only [effectOn]
  rcases getRecord_cases s k hlen with ⟨i, r, hp, hr, -, hrun⟩ | ⟨hp, e, he⟩
  · rw [hp, Option.bind_some, hr]
    change effect VectorStorage.data (unlocked ((getRecord .recursive (.int k) >>= fun r =>
      pure (Returned.record r)).run ⟨s, 0⟩)) = _
    rw [Prog.run_bind_ok _ _ (hrun 0)]
    rfl
  · rw [hp]
    exact effect_throws s (he 0)

theorem effect_change {x : VectorL Unit} {t : VectorStorage} {code : ContainerEventCode} {k v md : TioData}
    (h : x.run ⟨s, 1⟩ = .ok () ⟨t, 1⟩) :
    effect VectorStorage.data (unlocked (((lockGuard .recursive x >>= fun _ => publish .recursive code k v md) >>=
      fun _ => pure Returned.nothing).run ⟨s, 0⟩)) = .returns .nothing t.data := by
  obtain ⟨u, hu, hdata⟩ := publish_ok t code k v md
  have hrun : (lockGuard .recursive x >>= fun _ => publish .recursive code k v md).run ⟨s, 0⟩ = .ok () ⟨u, 0⟩ := by
    rw [Prog.run_bind_ok _ _ (run_lockGuard_ok .recursive h)]
    exact hu
  rw [effect_ok s hrun, hdata]

theorem effect_refused {x : VectorL Unit} {e : Exc} {code : ContainerEventCode} {k v md : TioData}
    (h : x.run ⟨s, 1⟩ = .throws (.thrown e) ⟨s, 1⟩) :
    effect VectorStorage.data (unlocked (((lockGuard .recursive x >>= fun _ => publish .recursive code k v md) >>=
      fun _ => pure Returned.nothing).run ⟨s, 0⟩)) = .raises s.data :=
  effect_throws s (Prog.run_bind_throws _ _ (run_lockGuard_fault .recursive h))

theorem effect_checked {f : Unit → VectorL Unit} (hv : value.isNull = false) :
    effect VectorStorage.data (unlocked (((lift (VectorStorage.checkValue value) >>= f) >>= fun _ =>
      pure Returned.nothing).run ⟨s, 0⟩)) =
    effect VectorStorage.data (unlocked ((f () >>= fun _ => pure Returned.nothing).run ⟨s, 0⟩)) := by
  have hcheck : (VectorStorage.checkValue value).run s = .ok () s := by simp [checkValue_run, hv]
  rw [Prog.bind_assoc, Prog.run_bind_ok _ _ (run_lift_ok hcheck 0)]

theorem set_effect (k : Int32) (hlen : s.data.length < 2 ^ 31) :
    freeEffect (.set k value metadata) s = effectOn s.data (.set k value metadata) := by
  simp only [effectOn]
  cases hv : value.isNull with
  | true => exact effect_null s value hv
  | false =>
    refine (effect_checked s value hv).trans ?_
    rcases getRecordNumber_cases s k hlen with ⟨i, hp, hi⟩ | ⟨hp, ⟨e, he⟩ | ⟨n, hn, hrun⟩⟩
    · rw [hp]
      have hr := List.getElem?_eq_getElem (pyIndex_lt hp)
      refine effect_change (t := { s with data := s.data.set i ⟨value, metadata⟩ }) s (run_lift_ok ?_ 1)
      rw [Prog.run_bind_ok _ _ hi, Prog.run_bind, VectorStorage.recordAt_state, hr]
      rfl
    · rw [hp]
      exact effect_refused s (run_lift_throws (Prog.run_bind_throws _ _ he) 1)
    · rw [hp]
      refine effect_refused (e := ⟨.outOfRange, ascii "vector"⟩) s (run_lift_throws ?_ 1)
      rw [Prog.run_bind_ok _ _ hrun, Prog.run_bind, VectorStorage.recordAt_state, List.getElem?_eq_none hn]

/-- The check of the bounds that `Insert` and `Delete` make, which is all that `GetRecord` is for there. -/
theorem checkBounds_refuses {k : Int32} (hlen : s.data.length < 2 ^ 31) (hp : pyIndex k.toInt s.data.length = none)
    (f : Nat → Record → VectorL Unit) :
    ∃ e, (do
      let n ← lift (VectorStorage.getRecordNumber (.int k))
      let r ← getRecord .recursive (.int k)
      f n r : VectorL Unit).run ⟨s, 1⟩ = .throws (.thrown e) ⟨s, 1⟩ := by
  rcases getRecordNumber_cases s k hlen with ⟨i, hp', -⟩ | ⟨-, ⟨e, he⟩ | ⟨n, -, hrun⟩⟩
  · rw [hp] at hp'
    cases hp'
  · exact ⟨e, Prog.run_bind_throws _ _ (run_lift_throws he 1)⟩
  · rcases getRecord_cases s k hlen with ⟨i, r, hp', -⟩ | ⟨-, e, he⟩
    · rw [hp] at hp'
      cases hp'
    · refine ⟨e, ?_⟩
      rw [Prog.run_bind_ok _ _ (run_lift_ok hrun 1), Prog.run_bind_throws _ _ (he 1)]

theorem insert_effect (k : Int32) (hlen : s.data.length < 2 ^ 31) :
    freeEffect (.insert k value metadata) s = effectOn s.data (.insert k value metadata) := by
  simp only [effectOn]
  cases hv : value.isNull with
  | true => exact effect_null s value hv
  | false =>
    refine (effect_checked s value hv).trans ?_
    rcases getRecord_cases s k hlen with ⟨i, r, hp, hr, hi, hrun⟩ | ⟨hp, -⟩
    · rw [hp]
      refine effect_change (t := { s with data := s.data.insertIdx i ⟨value, metadata⟩ }) s ?_
      rw [Prog.run_bind_ok _ _ (run_lift_ok hi 1), Prog.run_bind_ok _ _ (hrun 1)]
      rfl
    · rw [hp]
      obtain ⟨e, he⟩ := checkBounds_refuses s hlen hp fun n _ =>
        lift (modify fun s => { s with data := s.data.insertIdx n ⟨value, metadata⟩ })
      exact effect_refused s he

theorem delete_effect (k : Int32) (hlen : s.data.length < 2 ^ 31) :
    freeEffect (.delete k value metadata) s = effectOn s.data (.delete k value metadata) := by
  simp only [effectOn]
  rcases getRecordNumber_cases s k hlen with ⟨i, hp, hi⟩ | ⟨hp, ⟨e, he⟩ | ⟨n, -, hn⟩⟩
  · rcases getRecord_cases s k hlen with ⟨i', r, hp', -, -, hrun⟩ | ⟨hp', -⟩
    · rw [hp]
      change effect VectorStorage.data (unlocked ((delete .recursive (.int k) value metadata >>= fun _ =>
        pure Returned.nothing).run ⟨s, 0⟩)) = _
      rw [delete, Prog.bind_assoc, Prog.run_bind_ok _ _ (run_lift_ok hi 0)]
      refine effect_change (t := { s with data := s.data.eraseIdx i }) s ?_
      rw [Prog.run_bind_ok _ _ (hrun 1)]
      rfl
    · rw [hp] at hp'
      cases hp'
  · rw [hp]
    exact effect_throws s (Prog.run_bind_throws _ _ (run_lift_throws he 0))
  · rcases getRecord_cases s k hlen with ⟨i, r, hp', -⟩ | ⟨-, e, he⟩
    · rw [hp] at hp'
      cases hp'
    · rw [hp]
      change effect VectorStorage.data (unlocked ((delete .recursive (.int k) value metadata >>= fun _ =>
        pure Returned.nothing).run ⟨s, 0⟩)) = _
      rw [delete, Prog.bind_assoc, Prog.run_bind_ok _ _ (run_lift_ok hn 0)]
      exact effect_refused s (Prog.run_bind_throws _ _ (he 1))

theorem readRecords_run (startOffset endOffset : Int32) :
    (readRecords startOffset endOffset).run s =
      if endOffset < startOffset then .throws ⟨.lengthError, ascii "vector::reserve"⟩ s
      else if s.data.length < endOffset.toNatClampNeg then .undefined
      else .ok (ListStorage.resultSet s.data startOffset startOffset.toNatClampNeg endOffset.toNatClampNeg) s := by
  rw [readRecords, Prog.run_get_bind]
  dsimp only
  split_ifs <;> rfl

theorem readRecords_empty (endOffset : Int32) (h : s.data = []) :
    (readRecords 0 endOffset).run s =
      if endOffset < 0 then .throws ⟨.lengthError, ascii "vector::reserve"⟩ s
      else if endOffset = 0 then .ok [] s
      else .undefined := by
  have hclamp : (0 < endOffset.toNatClampNeg) ↔ 0 < endOffset.toInt := by
    rw [Int32.toNatClampNeg]
    omega
  rw [readRecords_run, h]
  simp only [Int32.lt_iff_toInt_lt, zero_toInt, List.length_nil, hclamp, zero_iff]
  split_ifs with hneg hpos hzero
  · rfl
  · omega
  · rfl
  · simp [ListStorage.resultSet]
  · omega

theorem readRecords_within {first last : Nat} (hfirst : first ≤ last) (hlast : last ≤ s.data.length)
    (hlen : s.data.length < 2 ^ 31) :
    (readRecords (Int32.ofNat first) (Int32.ofNat last)).run s =
      .ok (ListStorage.resultSet s.data (Int32.ofNat first) first last) s := by
  have hf : (Int32.ofNat first).toInt = first := Int32.toInt_ofNat_of_lt (by omega)
  have hl : (Int32.ofNat last).toInt = last := Int32.toInt_ofNat_of_lt (by omega)
  have hf' : (Int32.ofNat first).toNatClampNeg = first := by rw [Int32.toNatClampNeg, hf, Int.toNat_natCast]
  have hl' : (Int32.ofNat last).toNatClampNeg = last := by rw [Int32.toNatClampNeg, hl, Int.toNat_natCast]
  have horder : ¬Int32.ofNat last < Int32.ofNat first := by
    rw [Int32.lt_iff_toInt_lt, hf, hl]
    omega
  rw [readRecords_run, hf', hl', if_neg horder, if_neg (by omega)]

/-- The section of `Query`, which calls `GetRecordCount` under the lock. -/
theorem query_section (startOffset endOffset : Int32) (hlen : s.data.length < 2 ^ 31) :
    (do
      let count ← getRecordCount .recursive
      if count = 0 then lift (readRecords 0 endOffset)
      else
        let recordCount ← getRecordCount .recursive
        lift do
          let (startOffset, endOffset) ←
            Prog.ofExcept (normalizeQueryLimits startOffset endOffset (Int32.ofNat recordCount))
          readRecords startOffset endOffset : VectorL (List Record)).run ⟨s, 1⟩ =
      lifted 1 (if s.data = [] ∧ endOffset < 0 then .throws ⟨.lengthError, ascii "vector::reserve"⟩ s
        else if s.data = [] ∧ endOffset ≠ 0 then .undefined
        else .ok (pySlice (s.data.zipIdx.map fun (r, i) => ⟨.int (Int32.ofNat i), r.value, r.metadata⟩)
          startOffset.toInt (queryStop endOffset)) s) := by
  have hcount : (getRecordCount .recursive).run ⟨s, 1⟩ = .ok s.data.length ⟨s, 1⟩ := rfl
  rw [Prog.run_bind_ok _ _ hcount]
  by_cases hempty : s.data = []
  · rw [if_pos (by simp [hempty])]
    change lifted 1 ((readRecords 0 endOffset).run s) = _
    rw [readRecords_empty s endOffset hempty]
    by_cases hneg : endOffset < 0
    · simp [hneg, hempty]
    by_cases hend : endOffset = 0
    · simp [hend, hempty, pySlice]
    · simp [hneg, hend, hempty]
  · let first := min (pyBound startOffset.toInt s.data.length) (lastOf endOffset s.data.length)
    let last := lastOf endOffset s.data.length
    have hlimits := normalizeQueryLimits_spec startOffset endOffset hlen
    have hread := readRecords_within s (min_le_right _ _ : first ≤ last) (lastOf_le endOffset _) hlen
    have hslice := ListStorage.resultSet_eq { ListStorage.new [] [] with data := s.data } first last
    rw [drop_take_min] at hslice
    rw [if_neg (by simpa using hempty), Prog.run_bind_ok _ _ hcount, if_neg (by simp [hempty]),
      if_neg (by simp [hempty])]
    apply run_lift_ok
    rw [hlimits, Prog.run_bind_ok _ _ (Prog.run_ofExcept_ok _ _), hread, hslice]
    unfold pySlice
    rw [List.length_map, List.length_zipIdx]
    rfl

theorem query_effect (startOffset endOffset : Int32) (q : TioData) (hlen : s.data.length < 2 ^ 31) :
    freeEffect (.query startOffset endOffset q) s = effectOn s.data (.query startOffset endOffset q) := by
  simp only [effectOn]
  change effect VectorStorage.data (unlocked ((query .recursive startOffset endOffset q >>= fun rs =>
    pure (Returned.records rs)).run ⟨s, 0⟩)) = _
  cases hq : q.isNull with
  | false =>
    rw [if_pos rfl, query, if_pos (by simp [hq])]
    exact effect_throws s (Prog.run_bind_throws _ _ (run_lift_throws rfl 0))
  | true =>
    rw [if_neg (by simp), query, if_neg (by simp [hq]), Prog.bind_assoc, Prog.run_bind_ok _ _ (run_lift_ok rfl 0),
      Prog.run_bind, run_lockGuard _ s (by simp), query_section s startOffset endOffset hlen]
    split_ifs <;> rfl

theorem effectOn_spec (c : SequenceCall) (hlen : s.data.length < 2 ^ 31) : freeEffect c s = effectOn s.data c := by
  cases c with
  | pushBack value metadata => exact pushBack_effect s value metadata
  | pushFront value metadata => exact pushFront_effect s value metadata
  | popBack => exact popBack_effect s
  | popFront => exact popFront_effect s
  | set key value metadata => exact set_effect s value metadata key hlen
  | insert key value metadata => exact insert_effect s value metadata key hlen
  | delete key value metadata => exact delete_effect s value metadata key hlen
  | clear => exact clear_effect s
  | getRecord key => exact getRecord_effect s key hlen
  | getRecordCount => rfl
  | query startOffset endOffset q => exact query_effect s startOffset endOffset q hlen

end GuardedVector

/-! ## The list -/

namespace ListStorage

def callEffect (c : SequenceCall) (s : ListStorage) : Effect := effect data ((exec 0 c.storageCall).run s)

/-- What a call of the list does to its records. -/
def effectOn (data : List ValueAndMetadata) : SequenceCall → Effect
  | .pushBack value metadata =>
    if value.isNull then .raises data else .returns .nothing (data ++ [⟨value, metadata⟩])
  | .pushFront value metadata =>
    if value.isNull then .raises data else .returns .nothing (⟨value, metadata⟩ :: data)
  | .popBack =>
    match data.getLast? with
    | none => .raises data
    | some r => .returns (.record ⟨.int (Int32.ofNat (data.length - 1)), r.value, r.metadata⟩) data.dropLast
  | .popFront =>
    match data.head? with
    | none => .raises data
    | some r => .returns (.record ⟨.int 0, r.value, r.metadata⟩) data.tail
  | .set key value metadata =>
    match offsetOf key data.length with
    | some i => if data.length ≤ i then .undefined else .returns .nothing (data.modify i (assign value metadata))
    | none => .raises data
  | .insert key value metadata =>
    if key.toInt = 0 then .returns .nothing (⟨value, metadata⟩ :: data)
    else if key.toInt = data.length then .returns .nothing (data ++ [⟨value, metadata⟩])
    else match offsetOf key data.length with
      | some i => .returns .nothing (data.insertIdx i ⟨value, metadata⟩)
      | none => .raises data
  | .delete key _ _ =>
    match offsetOf key data.length with
    | some i => if i = data.length then .raises data else .returns .nothing (data.eraseIdx i)
    | none => .raises data
  | .clear => .returns .nothing []
  | .getRecord key =>
    match offsetOf key data.length with
    | some i =>
      match data[i]? with
      | some r => .returns (.record ⟨.int (Int32.ofNat i), r.value, r.metadata⟩) data
      | none => .undefined
    | none => .raises data
  | .getRecordCount => .returns (.count data.length) data
  | .query startOffset endOffset q =>
    if q.isNull = false then .raises data
    else .returns (.records (pySlice (data.zipIdx.map fun (r, i) => ⟨.int (Int32.ofNat i), r.value, r.metadata⟩)
      startOffset.toInt (queryStop endOffset))) data

variable (s : ListStorage)

theorem effectOn_spec (c : SequenceCall) (hlen : s.data.length < 2 ^ 31) : callEffect c s = effectOn s.data c := by
  unfold callEffect
  cases c with
  | pushBack value metadata =>
    change effect data ((pushBack .none value metadata >>= fun _ => pure Returned.nothing).run s) = _
    rw [Prog.run_bind, pushBack_spec]
    simp only [effectOn]
    split_ifs <;> rfl
  | pushFront value metadata =>
    change effect data ((pushFront .none value metadata >>= fun _ => pure Returned.nothing).run s) = _
    rw [Prog.run_bind, pushFront_spec]
    simp only [effectOn]
    split_ifs <;> rfl
  | popBack =>
    change effect data ((popBack (some .none) (some .none) >>= fun r => pure (Returned.record r)).run s) = _
    rw [Prog.run_bind, popBack_spec]
    simp only [effectOn]
    cases s.data.getLast? <;> rfl
  | popFront =>
    change effect data ((popFront (some .none) (some .none) >>= fun r => pure (Returned.record r)).run s) = _
    rw [Prog.run_bind, popFront_spec]
    simp only [effectOn]
    cases s.data.head? <;> rfl
  | set key value metadata =>
    change effect data ((set (.int key) value metadata >>= fun _ => pure Returned.nothing).run s) = _
    rw [Prog.run_bind, set_spec s value metadata key hlen]
    simp only [effectOn]
    cases offsetOf key s.data.length with
    | none => rfl
    | some i =>
      dsimp only
      split_ifs <;> rfl
  | insert key value metadata =>
    change effect data ((insert (.int key) value metadata >>= fun _ => pure Returned.nothing).run s) = _
    rw [Prog.run_bind, insert_spec s value metadata key hlen]
    simp only [effectOn]
    split_ifs
    · rfl
    · rfl
    · cases offsetOf key s.data.length <;> rfl
  | delete key value metadata =>
    change effect data ((delete (.int key) value metadata >>= fun _ => pure Returned.nothing).run s) = _
    rw [Prog.run_bind, delete_spec s value metadata key hlen]
    simp only [effectOn]
    cases offsetOf key s.data.length with
    | none => rfl
    | some i =>
      dsimp only
      split_ifs <;> rfl
  | clear => rfl
  | getRecord key =>
    change effect data ((getRecord (.int key) >>= fun r => pure (Returned.record r)).run s) = _
    rw [Prog.run_bind, getRecord_spec s key hlen]
    simp only [effectOn]
    cases offsetOf key s.data.length with
    | none => rfl
    | some i =>
      dsimp only
      rw [readAt, records_getElem?]
      cases s.data[i]? <;> rfl
  | getRecordCount => rfl
  | query startOffset endOffset q =>
    change effect data ((query startOffset endOffset q >>= fun rs => pure (Returned.records rs)).run s) = _
    simp only [effectOn]
    cases q with
    | none =>
      rw [Prog.run_bind, query_spec s startOffset endOffset hlen, if_neg (by simp [TioData.isNull])]
      rfl
    | _ => rfl

end ListStorage

end Tiodb
