import Tiodb.Lib.Agree
import Tiodb.Server.DataCommand

/-!
# Containers but for what they publish

Whether a storage has a sink, and what it told it, says nothing about its records.
Every data command does the same to two containers that differ in nothing else, and
no command changes the name, the type and the kind of a container.
-/

namespace Tiodb

open Lib

namespace ListStorage

def quiet (s : ListStorage) : ListStorage := { s with sink := false, published := [] }

def label (s : ListStorage) : Bytes × Bytes := (s.name, s.type)

theorem quiet_eq_iff {s t : ListStorage} :
    s.quiet = t.quiet ↔
      s.data = t.data ∧ s.name = t.name ∧ s.type = t.type ∧ s.revNum = t.revNum ∧ s.mutex = t.mutex := by
  simp [quiet]

theorem quiet_data {s t : ListStorage} (h : s.quiet = t.quiet) : s.data = t.data := (quiet_eq_iff.mp h).1

theorem matches_withData (g : List ValueAndMetadata → List ValueAndMetadata) :
    Prog.Matches quiet label (modify fun s => { s with data := g s.data } : ListM Unit)
      (modify fun s => { s with data := g s.data }) := by
  refine Prog.matches_modify (fun s t h => ?_) fun _ => rfl
  simp only [quiet_eq_iff] at h ⊢
  simp [h]

theorem matches_publish (code code' : ContainerEventCode) (k v m k' v' m' : TioData) :
    Prog.Matches quiet label (updateRevNumAndPublish code k v m) (updateRevNumAndPublish code' k' v' m') := by
  refine Prog.matches_modify (fun s t h => ?_) fun _ => rfl
  simp only [quiet_eq_iff] at h ⊢
  simp [h]

theorem matches_lockGuard {α : Type} {x y : ListM α} (h : Prog.Matches quiet label x y) :
    Prog.Matches quiet label (lockGuard x) (lockGuard y) := by
  have hrun (x : ListM α) (s : ListStorage) : (lockGuard x).run s =
      (x.run { s with mutex := s.mutex + 1 }).mapState fun s => { s with mutex := s.mutex - 1 } := by
    rw [run_lockGuard]
    cases x.run { s with mutex := s.mutex + 1 } <;> rfl
  constructor
  · intro s t hst
    rw [hrun, hrun]
    refine Outcome.mapState_congr (fun s t h => ?_) (h.agree _ _ ?_)
    · simp only [quiet_eq_iff] at h ⊢
      simp [h]
    · simp only [quiet_eq_iff] at hst ⊢
      simp [hst]
  · intro s s' hs
    rw [hrun, Outcome.mapState_next] at hs
    obtain ⟨t, ht, rfl⟩ := Option.map_eq_some_iff.mp hs
    exact h.keeps { s with mutex := s.mutex + 1 } t ht

theorem matches_checkValue (value : TioData) : Prog.Matches quiet label (checkValue value) (checkValue value) := by
  unfold checkValue
  split
  · exact Prog.matches_throw _
  · exact Prog.matches_pure _

theorem matches_getOffset (key : TioData) : Prog.Matches quiet label (getOffset key) (getOffset key) := by
  refine (Prog.matches_ofExcept _).bind fun index => Prog.matches_get_bind fun s t h => ?_
  rw [quiet_data h]
  exact (Prog.matches_ofExcept _).bind fun _ => Prog.matches_pure _

variable (key value metadata : TioData)

theorem matches_pushBack : Prog.Matches quiet label (pushBack key value metadata) (pushBack key value metadata) := by
  refine (matches_checkValue value).bind fun _ => matches_lockGuard
    ((matches_withData (· ++ [⟨value, metadata⟩])).bind fun _ => ?_)
  exact Prog.matches_get_bind fun s t _ => matches_publish _ _ _ _ _ _ _ _

theorem matches_pushFront : Prog.Matches quiet label (pushFront key value metadata) (pushFront key value metadata) :=
  (matches_checkValue value).bind fun _ => matches_lockGuard
    ((matches_withData (⟨value, metadata⟩ :: ·)).bind fun _ => matches_publish _ _ _ _ _ _ _ _)

theorem matches_popBack (v m : Option TioData) : Prog.Matches quiet label (popBack v m) (popBack v m) := by
  refine matches_lockGuard (Prog.matches_get_bind fun s t h => ?_)
  rw [quiet_data h]
  cases t.data.getLast? with
  | none => exact Prog.matches_throw _
  | some r =>
    refine (matches_withData List.dropLast).bind fun _ => Prog.matches_get_bind fun s t h => ?_
    rw [quiet_data h]
    exact (matches_publish _ _ _ _ _ _ _ _).bind fun _ => Prog.matches_pure _

theorem matches_popFront (v m : Option TioData) : Prog.Matches quiet label (popFront v m) (popFront v m) := by
  refine matches_lockGuard (Prog.matches_get_bind fun s t h => ?_)
  rw [quiet_data h]
  cases t.data.head? with
  | none => exact Prog.matches_throw _
  | some r =>
    refine (matches_withData List.tail).bind fun _ => ?_
    exact (matches_publish _ _ _ _ _ _ _ _).bind fun _ => Prog.matches_pure _

theorem matches_set : Prog.Matches quiet label (set key value metadata) (set key value metadata) := by
  refine matches_lockGuard ((matches_getOffset key).bind fun r => Prog.matches_get_bind fun s t h => ?_)
  rw [quiet_data h]
  split
  · exact Prog.matches_undefined
  · exact (matches_publish _ _ _ _ _ _ _ _).bind fun _ => matches_withData (·.modify r.1 (assign value metadata))

theorem matches_insert : Prog.Matches quiet label (insert key value metadata) (insert key value metadata) := by
  have hchange (g : List ValueAndMetadata → List ValueAndMetadata) := (matches_withData g).bind
    fun _ => matches_publish .insert .insert key value metadata key value metadata
  refine (Prog.matches_ofExcept _).bind fun k => matches_lockGuard ?_
  split
  · exact hchange (⟨value, metadata⟩ :: ·)
  refine Prog.matches_get_bind fun s t h => ?_
  rw [quiet_data h]
  split
  · exact hchange (· ++ [⟨value, metadata⟩])
  · exact (matches_getOffset key).bind fun r => hchange (·.insertIdx r.1 ⟨value, metadata⟩)

/-- What a delete publishes besides the key is what it was given. -/
theorem matches_delete (value' metadata' : TioData) :
    Prog.Matches quiet label (delete key value metadata) (delete key value' metadata') := by
  refine matches_lockGuard ((matches_getOffset key).bind fun r => Prog.matches_get_bind fun s t h => ?_)
  rw [quiet_data h]
  split
  · exact Prog.matches_throw _
  · exact (matches_withData (·.eraseIdx r.1)).bind fun _ => matches_publish _ _ _ _ _ _ _ _

theorem matches_clear : Prog.Matches quiet label clear clear :=
  matches_lockGuard ((matches_withData fun _ => []).bind fun _ => matches_publish _ _ _ _ _ _ _ _)

end ListStorage

namespace MapStorage

def quiet (s : MapStorage) : MapStorage := { s with sink := false, published := [] }

def label (s : MapStorage) : Bytes × Bytes := (s.name, s.type)

theorem quiet_eq_iff {s t : MapStorage} :
    s.quiet = t.quiet ↔ s.data = t.data ∧ s.name = t.name ∧ s.type = t.type ∧ s.revNum = t.revNum := by
  simp [quiet]

theorem quiet_data {s t : MapStorage} (h : s.quiet = t.quiet) : s.data = t.data := (quiet_eq_iff.mp h).1

theorem matches_withData (g : StringMap ValueAndMetadata → StringMap ValueAndMetadata) :
    Prog.Matches quiet label (modify fun s => { s with data := g s.data } : MapM Unit)
      (modify fun s => { s with data := g s.data }) := by
  refine Prog.matches_modify (fun s t h => ?_) fun _ => rfl
  simp only [quiet_eq_iff] at h ⊢
  simp [h]

theorem matches_publish (code code' : ContainerEventCode) (k v m k' v' m' : TioData) :
    Prog.Matches quiet label (updateRevNumAndPublish code k v m) (updateRevNumAndPublish code' k' v' m') := by
  refine Prog.matches_modify (fun s t h => ?_) fun _ => rfl
  simp only [quiet_eq_iff] at h ⊢
  simp [h]

theorem matches_checkKey (key : TioData) : Prog.Matches quiet label (checkKey key) (checkKey key) := by
  unfold checkKey
  split
  · exact Prog.matches_throw _
  · exact Prog.matches_pure _

variable (key value metadata : TioData)

theorem matches_set : Prog.Matches quiet label (set key value metadata) (set key value metadata) :=
  Prog.Matches.bind ((matches_checkKey key).bind fun _ => (Prog.matches_ofExcept _).bind fun k =>
    matches_withData (·.insert k ⟨value, metadata⟩)) fun _ => matches_publish _ _ _ _ _ _ _ _

theorem matches_insert : Prog.Matches quiet label (insert key value metadata) (insert key value metadata) := by
  have hrecord : Prog.Matches quiet label (insertRecord key value metadata) (insertRecord key value metadata) := by
    refine (matches_checkKey key).bind fun _ => (Prog.matches_ofExcept _).bind fun k =>
      Prog.matches_get_bind fun s t h => ?_
    rw [quiet_data h]
    split
    · exact Prog.matches_throw _
    · exact matches_withData (·.insert k ⟨value, metadata⟩)
  exact hrecord.bind fun _ => matches_publish _ _ _ _ _ _ _ _

theorem matches_delete (value' metadata' : TioData) :
    Prog.Matches quiet label (delete key value metadata) (delete key value' metadata') := by
  have hrecord : Prog.Matches quiet label (deleteRecord key) (deleteRecord key) := by
    refine (matches_checkKey key).bind fun _ => (Prog.matches_ofExcept _).bind fun k =>
      Prog.matches_get_bind fun s t h => ?_
    rw [quiet_data h]
    split
    · exact matches_withData (·.erase k)
    · exact Prog.matches_throw _
  exact hrecord.bind fun _ => matches_publish _ _ _ _ _ _ _ _

theorem matches_clear : Prog.Matches quiet label clear clear :=
  (matches_withData fun _ => ∅).bind fun _ => matches_publish _ _ _ _ _ _ _ _

end MapStorage

namespace VectorStorage

def quiet (s : VectorStorage) : VectorStorage := { s with sink := false, published := [] }

def label (s : VectorStorage) : Bytes × Bytes := (s.name, s.type)

theorem quiet_eq_iff {s t : VectorStorage} :
    s.quiet = t.quiet ↔ s.data = t.data ∧ s.name = t.name ∧ s.type = t.type ∧ s.locked = t.locked := by
  simp [quiet]

theorem quiet_data {s t : VectorStorage} (h : s.quiet = t.quiet) : s.data = t.data := (quiet_eq_iff.mp h).1

theorem matches_withData (g : List ValueAndMetadata → List ValueAndMetadata) :
    Prog.Matches quiet label (modify fun s => { s with data := g s.data } : VectorM Unit)
      (modify fun s => { s with data := g s.data }) := by
  refine Prog.matches_modify (fun s t h => ?_) fun _ => rfl
  simp only [quiet_eq_iff] at h ⊢
  simp [h]

theorem matches_lockGuard {α : Type} {x y : VectorM α} (h : Prog.Matches quiet label x y) :
    Prog.Matches quiet label (lockGuard x) (lockGuard y) := by
  have hrun (x : VectorM α) (s : VectorStorage) (hl : s.locked = false) : (lockGuard x).run s =
      (x.run { s with locked := true }).mapState fun s => { s with locked := false } := by
    rw [run_lockGuard s x hl]
    cases x.run { s with locked := true } <;> rfl
  constructor
  · intro s t hst
    have hlock : s.locked = t.locked := (quiet_eq_iff.mp hst).2.2.2
    cases hl : t.locked with
    | true => rw [run_lockGuard_locked t y hl, run_lockGuard_locked s x (hlock.trans hl)]
    | false =>
      rw [hrun y t hl, hrun x s (hlock.trans hl)]
      refine Outcome.mapState_congr (fun s t h => ?_) (h.agree _ _ ?_)
      · simp only [quiet_eq_iff] at h ⊢
        simp [h]
      · simp only [quiet_eq_iff] at hst ⊢
        simp [hst]
  · intro s s' hs
    cases hl : s.locked with
    | true =>
      rw [run_lockGuard_locked s x hl] at hs
      cases hs
    | false =>
      rw [hrun x s hl, Outcome.mapState_next] at hs
      obtain ⟨t, ht, rfl⟩ := Option.map_eq_some_iff.mp hs
      exact h.keeps { s with locked := true } t ht

theorem matches_publish (code code' : ContainerEventCode) (k v m k' v' m' : TioData) :
    Prog.Matches quiet label (publish code k v m) (publish code' k' v' m') := by
  have hlocked (code : ContainerEventCode) (k v m : TioData) (s : VectorStorage) (hl : s.locked = true) :
      (publish code k v m).run s = .undefined := by
    unfold publish
    rw [Prog.run_bind, run_lockGuard_locked s _ hl]
  constructor
  · intro s t hst
    have hlock : s.locked = t.locked := (quiet_eq_iff.mp hst).2.2.2
    cases hl : t.locked with
    | true => rw [hlocked _ _ _ _ t hl, hlocked _ _ _ _ s (hlock.trans hl)]
    | false =>
      rw [publish_spec t _ _ _ _ hl, publish_spec s _ _ _ _ (hlock.trans hl)]
      refine congrArg (Outcome.ok ()) ?_
      simp only [quiet_eq_iff] at hst ⊢
      simp [hst]
  · intro s s' hs
    cases hl : s.locked with
    | true =>
      rw [hlocked _ _ _ _ s hl] at hs
      cases hs
    | false =>
      rw [publish_spec s _ _ _ _ hl] at hs
      obtain rfl := Option.some.inj hs
      rfl

theorem matches_checkValue (value : TioData) : Prog.Matches quiet label (checkValue value) (checkValue value) := by
  unfold checkValue
  split
  · exact Prog.matches_throw _
  · exact Prog.matches_pure _

theorem matches_getRecordNumber (key : TioData) :
    Prog.Matches quiet label (getRecordNumber key) (getRecordNumber key) := by
  refine (Prog.matches_ofExcept _).bind fun index => Prog.matches_get_bind fun s t h => ?_
  rw [quiet_data h]
  dsimp only
  split
  · split
    · exact Prog.matches_throw _
    · exact Prog.matches_pure _
  · exact Prog.matches_pure _

theorem matches_recordAt (n : Nat) : Prog.Matches quiet label (recordAt n) (recordAt n) := by
  refine Prog.matches_get_bind fun s t h => ?_
  rw [quiet_data h]
  cases t.data[n]? with
  | none => exact Prog.matches_throw _
  | some r => exact Prog.matches_pure _

theorem matches_getRecord (key : TioData) : Prog.Matches quiet label (getRecord key) (getRecord key) :=
  matches_lockGuard (((matches_getRecordNumber key).bind matches_recordAt).bind fun _ => Prog.matches_pure _)

variable (key value metadata : TioData)

theorem matches_pushBack : Prog.Matches quiet label (pushBack key value metadata) (pushBack key value metadata) := by
  refine (matches_checkValue value).bind fun _ =>
    (matches_lockGuard (matches_withData (· ++ [⟨value, metadata⟩]))).bind fun _ => ?_
  exact Prog.matches_get_bind fun s t _ => matches_publish _ _ _ _ _ _ _ _

theorem matches_pushFront : Prog.Matches quiet label (pushFront key value metadata) (pushFront key value metadata) :=
  (matches_checkValue value).bind fun _ =>
    (matches_lockGuard (matches_withData (⟨value, metadata⟩ :: ·))).bind fun _ => matches_publish _ _ _ _ _ _ _ _

theorem matches_popBack (k v m : Bool) : Prog.Matches quiet label (popBack k v m) (popBack k v m) := by
  refine Prog.matches_get_bind fun s t h => ?_
  rw [quiet_data h]
  cases t.data.getLast? with
  | none => exact Prog.matches_throw _
  | some r =>
    refine Prog.matches_get_bind fun s t h => ?_
    rw [quiet_data h]
    refine (matches_lockGuard (matches_withData List.dropLast)).bind fun _ => ?_
    exact (matches_publish _ _ _ _ _ _ _ _).bind fun _ => Prog.matches_pure _

theorem matches_popFront (v m : Bool) : Prog.Matches quiet label (popFront v m) (popFront v m) := by
  refine Prog.matches_get_bind fun s t h => ?_
  rw [quiet_data h]
  cases t.data.head? with
  | none => exact Prog.matches_throw _
  | some r =>
    refine (matches_lockGuard (matches_withData List.tail)).bind fun _ => ?_
    exact (matches_publish _ _ _ _ _ _ _ _).bind fun _ => Prog.matches_pure _

theorem matches_set : Prog.Matches quiet label (set key value metadata) (set key value metadata) := by
  refine (matches_checkValue value).bind fun _ =>
    Prog.Matches.bind (matches_lockGuard ?_) fun _ => matches_publish _ _ _ _ _ _ _ _
  exact (matches_getRecordNumber key).bind fun n => (matches_recordAt n).bind fun _ =>
    matches_withData (·.set n ⟨value, metadata⟩)

theorem matches_insert : Prog.Matches quiet label (insert key value metadata) (insert key value metadata) := by
  refine (matches_checkValue value).bind fun _ =>
    Prog.Matches.bind (matches_lockGuard ?_) fun _ => matches_publish _ _ _ _ _ _ _ _
  exact (matches_getRecordNumber key).bind fun n => (matches_getRecord key).bind fun _ =>
    matches_withData (·.insertIdx n ⟨value, metadata⟩)

theorem matches_delete (value' metadata' : TioData) :
    Prog.Matches quiet label (delete key value metadata) (delete key value' metadata') := by
  refine (matches_getRecordNumber key).bind fun n =>
    Prog.Matches.bind (matches_lockGuard ?_) fun _ => matches_publish _ _ _ _ _ _ _ _
  exact (matches_getRecord key).bind fun _ => matches_withData (·.eraseIdx n)

theorem matches_clear : Prog.Matches quiet label clear clear :=
  (matches_lockGuard (matches_withData fun _ => [])).bind fun _ => matches_publish _ _ _ _ _ _ _ _

end VectorStorage

/-! ## Containers -/

namespace Container

def quiet (c : Container) : Container :=
  match c.storage with
  | .list s => { c with storage := .list s.quiet }
  | .map s => { c with storage := .map s.quiet }
  | .vector s => { c with storage := .vector s.quiet }

def isMap (c : Container) : Bool :=
  match c.storage with
  | .map _ => true
  | _ => false

def label (c : Container) : Bytes × Bytes × Bool := (c.getName, c.getType, c.isMap)

theorem matches_call {α : Type} {l l' : ListStorage.ListM α} {m m' : MapStorage.MapM α} {v v' : VectorStorage.VectorM α}
    (hl : Prog.Matches ListStorage.quiet ListStorage.label l l')
    (hm : Prog.Matches MapStorage.quiet MapStorage.label m m')
    (hv : Prog.Matches VectorStorage.quiet VectorStorage.label v v') :
    Prog.Matches quiet label (call l m v) (call l' m' v') := by
  constructor
  · rintro ⟨storage, properties⟩ ⟨storage', properties'⟩ h
    cases storage <;> cases storage' <;>
      simp only [quiet, Container.mk.injEq, Storage.list.injEq, Storage.map.injEq, Storage.vector.injEq, reduceCtorEq,
        false_and] at h
    · obtain ⟨h, rfl⟩ := h
      exact Outcome.mapState_congr (fun s t hst => by simp [quiet, hst]) (hl.agree _ _ h)
    · obtain ⟨h, rfl⟩ := h
      exact Outcome.mapState_congr (fun s t hst => by simp [quiet, hst]) (hm.agree _ _ h)
    · obtain ⟨h, rfl⟩ := h
      exact Outcome.mapState_congr (fun s t hst => by simp [quiet, hst]) (hv.agree _ _ h)
  · rintro ⟨storage, properties⟩ c' h
    cases storage with
    | list s =>
      obtain ⟨s', hs, rfl⟩ := Option.map_eq_some_iff.mp ((Outcome.mapState_next _ _).symm.trans h)
      have hlabel := hl.keeps s s' hs
      exact congrArg (fun l : Bytes × Bytes => (l.1, l.2, false)) hlabel
    | map s =>
      obtain ⟨s', hs, rfl⟩ := Option.map_eq_some_iff.mp ((Outcome.mapState_next _ _).symm.trans h)
      have hlabel := hm.keeps s s' hs
      exact congrArg (fun l : Bytes × Bytes => (l.1, l.2, true)) hlabel
    | vector s =>
      obtain ⟨s', hs, rfl⟩ := Option.map_eq_some_iff.mp ((Outcome.mapState_next _ _).symm.trans h)
      have hlabel := hv.keeps s s' hs
      exact congrArg (fun l : Bytes × Bytes => (l.1, l.2, false)) hlabel

theorem matches_setProperty (key value : Bytes) :
    Prog.Matches quiet label (setProperty key value) (setProperty key value) := by
  refine Prog.matches_modify ?_ fun c => ?_
  · rintro ⟨storage, properties⟩ ⟨storage', properties'⟩ h
    cases storage <;> cases storage' <;> simp_all [quiet]
  · rfl

end Container

end Tiodb
