import Tiodb.Storage.Container

/-!
# Data commands

What `OnBinaryCommand` of `TioTcpServer.cpp` does to a container for the commands
that change one. A command that throws has changed nothing.
-/

namespace Tiodb

open Lib

inductive CommandCode where
  | pushBack
  | pushFront
  | popBack
  | popFront
  | set
  | insert
  | delete
  | clear
  | propset
  deriving DecidableEq, Repr

/-- The command with the three data of its message. -/
structure DataCommand where
  code : CommandCode
  key : TioData
  value : TioData
  metadata : TioData
  deriving DecidableEq, Repr

namespace DataCommand

def setProperty (key value : TioData) : Container.ContainerM Unit :=
  match key, value with
  | .string k, .string v => Container.setProperty (cstr k) (cstr v)
  | _, _ => throw (runtimeError "properties key and value should be strings")

/-- The call of the container. What a pop gives goes into the answer. -/
def exec (c : DataCommand) : Container.ContainerM Unit :=
  match c.code with
  | .pushBack => Container.pushBack c.key c.value c.metadata
  | .pushFront => Container.pushFront c.key c.value c.metadata
  | .popBack => do let _ ← Container.popBack
  | .popFront => do let _ ← Container.popFront
  | .set => Container.set c.key c.value c.metadata
  | .insert => Container.insert c.key c.value c.metadata
  | .delete => Container.delete c.key c.value c.metadata
  | .clear => Container.clear
  | .propset => setProperty c.key c.value

/-- The container after the command, which is `none` if the command throws or does not return. -/
def apply (c : Container) (cmd : DataCommand) : Option Container :=
  match cmd.exec.run c with
  | .ok () c' => some c'
  | _ => none

end DataCommand

/-! ## A command that throws changes nothing -/

namespace MapStorage

variable (key value metadata : TioData)

theorem updateRevNumAndPublish_neverThrows (code : ContainerEventCode) (k v m : TioData) :
    (updateRevNumAndPublish code k v m).NeverThrows := Prog.neverThrows_modify _

theorem checkKey_reads : (checkKey key).Reads := by
  unfold checkKey
  split
  · exact Prog.reads_throw _
  · exact Prog.reads_pure _

theorem set_atomic : (set key value metadata).Atomic := by
  have hrecord : (setRecord key value metadata).Atomic :=
    (checkKey_reads key).bind_atomic fun _ => (Prog.reads_ofExcept _).bind_atomic fun _ =>
      (Prog.neverThrows_modify _).atomic
  exact hrecord.bind_neverThrows fun _ => updateRevNumAndPublish_neverThrows _ _ _ _

theorem insert_atomic : (insert key value metadata).Atomic := by
  have hrecord : (insertRecord key value metadata).Atomic := by
    refine (checkKey_reads key).bind_atomic fun _ => (Prog.reads_ofExcept _).bind_atomic fun k =>
      Prog.reads_get.bind_atomic fun s => ?_
    split
    · exact (Prog.reads_throw _).atomic
    · exact (Prog.neverThrows_modify _).atomic
  exact hrecord.bind_neverThrows fun _ => updateRevNumAndPublish_neverThrows _ _ _ _

theorem delete_atomic : (delete key value metadata).Atomic := by
  have hrecord : (deleteRecord key).Atomic := by
    refine (checkKey_reads key).bind_atomic fun _ => (Prog.reads_ofExcept _).bind_atomic fun k =>
      Prog.reads_get.bind_atomic fun s => ?_
    split
    · exact (Prog.neverThrows_modify _).atomic
    · exact (Prog.reads_throw _).atomic
  exact hrecord.bind_neverThrows fun _ => updateRevNumAndPublish_neverThrows _ _ _ _

theorem clear_neverThrows : clear.NeverThrows :=
  (Prog.neverThrows_modify _).bind fun _ => updateRevNumAndPublish_neverThrows _ _ _ _

end MapStorage

namespace ListStorage

theorem exec_atomic (op : Op) : op.exec.Atomic := fun s s' e h => exec_throws s op s' e h

end ListStorage

namespace VectorStorage

variable (key value metadata : TioData)

theorem lockGuard_atomic {α : Type} {x : VectorM α} (h : x.Atomic) : (lockGuard x).Atomic := by
  intro s s' e hs
  by_cases hl : s.locked = true
  · rw [run_lockGuard_locked s x hl] at hs
    cases hs
  rw [run_lockGuard s x (by simpa using hl)] at hs
  cases hr : x.run { s with locked := true } with
  | ok a t => simp [hr] at hs
  | undefined => simp [hr] at hs
  | throws e' t =>
    obtain rfl := h _ _ _ hr
    simp only [hr, Outcome.throws.injEq] at hs
    obtain ⟨data, name, type, sink, locked, published⟩ := s
    simp_all

theorem lockGuard_neverThrows {α : Type} {x : VectorM α} (h : x.NeverThrows) : (lockGuard x).NeverThrows := by
  intro s s' e hs
  by_cases hl : s.locked = true
  · rw [run_lockGuard_locked s x hl] at hs
    cases hs
  rw [run_lockGuard s x (by simpa using hl)] at hs
  cases hr : x.run { s with locked := true } with
  | ok a t => simp [hr] at hs
  | undefined => simp [hr] at hs
  | throws e' t => exact h _ _ _ hr

theorem publish_neverThrows (code : ContainerEventCode) (k v m : TioData) : (publish code k v m).NeverThrows := by
  have hsink : (lockGuard (do return (← get).sink) : VectorM Bool).NeverThrows :=
    lockGuard_neverThrows fun _ _ _ h => nomatch h
  refine hsink.bind fun sink => ?_
  split
  · exact Prog.neverThrows_modify _
  · exact Prog.neverThrows_pure _

theorem checkValue_reads : (checkValue value).Reads := by
  unfold checkValue
  split
  · exact Prog.reads_throw _
  · exact Prog.reads_pure _

theorem change_neverThrows (f : VectorStorage → VectorStorage) (x : VectorM Unit) (hx : x.NeverThrows) :
    (lockGuard (modify f) >>= fun _ => x).NeverThrows :=
  (lockGuard_neverThrows (Prog.neverThrows_modify f)).bind fun _ => hx

theorem pushBack_atomic : (pushBack key value metadata).Atomic := by
  refine (checkValue_reads value).bind_atomic fun _ => Prog.NeverThrows.atomic ?_
  refine change_neverThrows _ _ (Prog.NeverThrows.bind (fun _ _ _ h => nomatch h) fun _ => ?_)
  exact publish_neverThrows _ _ _ _

theorem pushFront_atomic : (pushFront key value metadata).Atomic := by
  refine (checkValue_reads value).bind_atomic fun _ => Prog.NeverThrows.atomic ?_
  exact change_neverThrows _ _ (publish_neverThrows _ _ _ _)

theorem popBack_atomic (k v m : Bool) : (popBack k v m).Atomic := by
  refine Prog.reads_get.bind_atomic fun s => ?_
  cases s.data.getLast? with
  | none => exact (Prog.reads_throw _).atomic
  | some r =>
    refine Prog.reads_get.bind_atomic fun _ => Prog.NeverThrows.atomic ?_
    refine (lockGuard_neverThrows (Prog.neverThrows_modify _)).bind fun _ => ?_
    exact (publish_neverThrows _ _ _ _).bind fun _ => Prog.neverThrows_pure _

theorem popFront_atomic (v m : Bool) : (popFront v m).Atomic := by
  refine Prog.reads_get.bind_atomic fun s => ?_
  cases s.data.head? with
  | none => exact (Prog.reads_throw _).atomic
  | some r =>
    refine Prog.NeverThrows.atomic ?_
    refine (lockGuard_neverThrows (Prog.neverThrows_modify _)).bind fun _ => ?_
    exact (publish_neverThrows _ _ _ _).bind fun _ => Prog.neverThrows_pure _

theorem set_atomic : (set key value metadata).Atomic := by
  refine (checkValue_reads value).bind_atomic fun _ => ?_
  refine Prog.Atomic.bind_neverThrows (lockGuard_atomic ?_) fun _ => publish_neverThrows _ _ _ _
  exact (getRecordNumber_reads key).bind_atomic fun n => (recordAt_reads n).bind_atomic fun _ =>
    (Prog.neverThrows_modify _).atomic

theorem insert_atomic : (insert key value metadata).Atomic := by
  refine (checkValue_reads value).bind_atomic fun _ => ?_
  refine Prog.Atomic.bind_neverThrows (lockGuard_atomic ?_) fun _ => publish_neverThrows _ _ _ _
  exact (getRecordNumber_reads key).bind_atomic fun n => (getRecord_reads key).bind_atomic fun _ =>
    (Prog.neverThrows_modify _).atomic

theorem delete_atomic : (delete key value metadata).Atomic := by
  refine (getRecordNumber_reads key).bind_atomic fun n => ?_
  refine Prog.Atomic.bind_neverThrows (lockGuard_atomic ?_) fun _ => publish_neverThrows _ _ _ _
  exact (getRecord_reads key).bind_atomic fun _ => (Prog.neverThrows_modify _).atomic

theorem clear_neverThrows : clear.NeverThrows := change_neverThrows _ _ (publish_neverThrows _ _ _ _)

end VectorStorage

namespace Container

theorem call_atomic {α : Type} {l : ListStorage.ListM α} {m : MapStorage.MapM α} {v : VectorStorage.VectorM α}
    (hl : l.Atomic) (hm : m.Atomic) (hv : v.Atomic) : (call l m v).Atomic := by
  rintro ⟨storage, properties⟩ c' e h
  cases storage with
  | list s =>
    obtain ⟨s', hs, rfl⟩ := Outcome.mapState_throws h
    rw [hl s s' e hs]
  | map s =>
    obtain ⟨s', hs, rfl⟩ := Outcome.mapState_throws h
    rw [hm s s' e hs]
  | vector s =>
    obtain ⟨s', hs, rfl⟩ := Outcome.mapState_throws h
    rw [hv s s' e hs]

end Container

namespace DataCommand

theorem exec_atomic (cmd : DataCommand) : cmd.exec.Atomic := by
  obtain ⟨code, key, value, metadata⟩ := cmd
  have hpop {α : Type} {x : ListStorage.ListM α} (op : ListStorage.Op) (hx : op.exec = x >>= fun _ => pure ()) :
      x.Atomic := by
    intro s s' e h
    refine ListStorage.exec_atomic op s s' e ?_
    rw [hx, Prog.run_bind_throws _ _ h]
  have hnot {α : Type} (name : String) : (MapStorage.notSupported name : MapStorage.MapM α).Atomic :=
    (Prog.reads_throw _).atomic
  cases code with
  | pushBack =>
    exact Container.call_atomic (ListStorage.exec_atomic (.pushBack key value metadata)) (hnot "push_back")
      (VectorStorage.pushBack_atomic key value metadata)
  | pushFront =>
    exact Container.call_atomic (ListStorage.exec_atomic (.pushFront key value metadata)) (hnot "push_front")
      (VectorStorage.pushFront_atomic key value metadata)
  | popBack =>
    refine Prog.Atomic.bind_neverThrows ?_ fun _ => Prog.neverThrows_pure _
    exact Container.call_atomic (hpop (.popBack (some .none) (some .none)) rfl) (hnot "pop_back")
      (VectorStorage.popBack_atomic true true true)
  | popFront =>
    refine Prog.Atomic.bind_neverThrows ?_ fun _ => Prog.neverThrows_pure _
    exact Container.call_atomic (hpop (.popFront (some .none) (some .none)) rfl) (hnot "pop_front")
      (VectorStorage.popFront_atomic true true)
  | set =>
    exact Container.call_atomic (ListStorage.exec_atomic (.set key value metadata))
      (MapStorage.set_atomic key value metadata) (VectorStorage.set_atomic key value metadata)
  | insert =>
    exact Container.call_atomic (ListStorage.exec_atomic (.insert key value metadata))
      (MapStorage.insert_atomic key value metadata) (VectorStorage.insert_atomic key value metadata)
  | delete =>
    exact Container.call_atomic (ListStorage.exec_atomic (.delete key value metadata))
      (MapStorage.delete_atomic key value metadata) (VectorStorage.delete_atomic key value metadata)
  | clear =>
    exact Container.call_atomic (ListStorage.exec_atomic .clear) MapStorage.clear_neverThrows.atomic
      VectorStorage.clear_neverThrows.atomic
  | propset =>
    show (setProperty key value).Atomic
    unfold setProperty
    split
    · exact (Prog.neverThrows_modify _).atomic
    · exact (Prog.reads_throw _).atomic

end DataCommand

end Tiodb
