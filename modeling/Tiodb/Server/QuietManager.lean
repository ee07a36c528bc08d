import Tiodb.Server.ManagerCalls
import Tiodb.Server.Quiet
import Tiodb.Server.TransactionLog

/-!
# Managers but for what their containers publish

Two managers that differ in the sinks, in what was published and in the aliases of the
types do the same for the same call. So does a data command, and the command that the
replay sends for it, as long as it has no metadata to lose.
-/

namespace Tiodb

open Lib

namespace DataCommand

/-- The commands whose metadata a container keeps. -/
def KeepsMetadata : CommandCode → Prop
  | .pushBack | .pushFront | .set | .insert => True
  | _ => False

instance : DecidablePred KeepsMetadata
  | .pushBack | .pushFront | .set | .insert => isTrue trivial
  | .popBack | .popFront | .delete | .clear | .propset => isFalse id

theorem matches_notSupported {α : Type} (name : String) :
    Prog.Matches MapStorage.quiet MapStorage.label (MapStorage.notSupported name : MapStorage.MapM α)
      (MapStorage.notSupported name) := Prog.matches_throw _

/-- The command that is sent does what the command did. -/
theorem matches_sent {cmd : DataCommand} (h : KeepsMetadata cmd.code → cmd.metadata = .none) :
    Prog.Matches Container.quiet Container.label cmd.exec (sent cmd.code cmd.key cmd.value).exec := by
  obtain ⟨code, key, value, metadata⟩ := cmd
  cases code with
  | pushBack =>
    obtain rfl : metadata = .none := h trivial
    exact Container.matches_call (ListStorage.matches_pushBack key value .none) (matches_notSupported _)
      (VectorStorage.matches_pushBack key value .none)
  | pushFront =>
    obtain rfl : metadata = .none := h trivial
    exact Container.matches_call (ListStorage.matches_pushFront key value .none) (matches_notSupported _)
      (VectorStorage.matches_pushFront key value .none)
  | popBack =>
    exact (Container.matches_call (ListStorage.matches_popBack _ _) (matches_notSupported _)
      (VectorStorage.matches_popBack _ _ _)).bind fun _ => Prog.matches_pure _
  | popFront =>
    exact (Container.matches_call (ListStorage.matches_popFront _ _) (matches_notSupported _)
      (VectorStorage.matches_popFront _ _)).bind fun _ => Prog.matches_pure _
  | set =>
    obtain rfl : metadata = .none := h trivial
    exact Container.matches_call (ListStorage.matches_set key value .none) (MapStorage.matches_set key value .none)
      (VectorStorage.matches_set key value .none)
  | insert =>
    obtain rfl : metadata = .none := h trivial
    exact Container.matches_call (ListStorage.matches_insert key value .none)
      (MapStorage.matches_insert key value .none) (VectorStorage.matches_insert key value .none)
  | delete =>
    exact Container.matches_call (ListStorage.matches_delete key value metadata .none .none)
      (MapStorage.matches_delete key value metadata .none .none)
      (VectorStorage.matches_delete key value metadata .none .none)
  | clear => exact Container.matches_call ListStorage.matches_clear MapStorage.matches_clear VectorStorage.matches_clear
  | propset =>
    change Prog.Matches Container.quiet Container.label (setProperty key value) (setProperty key value)
    unfold setProperty
    split
    · exact Container.matches_setProperty _ _
    · exact Prog.matches_throw _

end DataCommand

namespace ContainerManager

def quiet (s : ContainerManager) : ContainerManager :=
  { s with heap := s.heap.map Container.quiet, sink := false, aliases := ∅ }

variable {s t : ContainerManager} {type name : Bytes}

theorem quiet_eq_iff : s.quiet = t.quiet ↔
    s.heap.map Container.quiet = t.heap.map Container.quiet ∧ s.containers = t.containers ∧ s.objects = t.objects ∧
      s.openContainers = t.openContainers ∧ s.metaContainers = t.metaContainers ∧
      s.metaAvailableTypes = t.metaAvailableTypes ∧ s.held = t.held := by
  simp [quiet]

theorem quiet_heap (h : s.quiet = t.quiet) (i : Nat) :
    (s.heap[i]?).map Container.quiet = (t.heap[i]?).map Container.quiet := by
  rw [← List.getElem?_map, ← List.getElem?_map, (quiet_eq_iff.mp h).1]

theorem quiet_length (h : s.quiet = t.quiet) : s.heap.length = t.heap.length := by
  have hlength := congrArg List.length (quiet_eq_iff.mp h).1
  rwa [List.length_map, List.length_map] at hlength

theorem quiet_setSubscriber (sink : Bool) (c : Container) : (setSubscriber sink c).quiet = c.quiet := by
  obtain ⟨storage, properties⟩ := c
  cases storage <;> rfl

theorem quiet_containerOf (h : s.quiet = t.quiet) (o : Nat) :
    (s.containerOf o).map Container.quiet = (t.containerOf o).map Container.quiet := by
  unfold containerOf
  rw [(quiet_eq_iff.mp h).2.2.1, Option.map_bind, Option.map_bind]
  exact congrArg _ (funext fun i => quiet_heap h i)

theorem quiet_openObject (h : s.quiet = t.quiet) (name : Bytes) : s.openObject name = t.openObject name := by
  obtain ⟨-, -, -, hopen, hmeta, htypes, hheld⟩ := quiet_eq_iff.mp h
  unfold openObject expired
  rw [hopen, hmeta, htypes, hheld]

theorem withObject_ok {α : Type} {x : Container.ContainerM α} {o : Nat} {a : α}
    (h : (withObject o x).run s = .ok a t) :
    ∃ c c', s.containerOf o = some c ∧ x.run c = .ok a c' ∧ t.containerOf o = some c' := by
  unfold withObject at h
  dsimp only at h
  split at h
  · cases h
  · rename_i i hi
    split at h
    · cases h
    · rename_i c hc
      obtain ⟨c', hc', rfl⟩ := Outcome.mapState_ok h
      have hlt : i < s.heap.length := (List.getElem?_eq_some_iff.mp hc).1
      exact ⟨c, c', by simp [containerOf, hi, hc], hc', by simp [containerOf, hi, hlt]⟩

theorem withObject_throws {α : Type} {x : Container.ContainerM α} (hx : x.Atomic) {o : Nat} {e : Exc}
    (h : (withObject o x).run s = .throws e t) : t = s := by
  unfold withObject at h
  dsimp only at h
  split at h
  · cases h
  · split at h
    · cases h
    · rename_i i _ _ c hc
      obtain ⟨c', hc', rfl⟩ := Outcome.mapState_throws h
      obtain rfl := hx c c' e hc'
      obtain ⟨hlt, rfl⟩ := List.getElem?_eq_some_iff.mp hc
      rw [List.set_getElem_self]

theorem agree_withObject {α : Type} {x y : Container.ContainerM α} (o : Nat) (h : Prog.Agree Container.quiet x y) :
    Prog.Agree quiet (withObject o x) (withObject o y) := by
  intro s t hst
  have hobjects : t.objects[o]? = s.objects[o]? := by rw [(quiet_eq_iff.mp hst).2.2.1]
  unfold withObject
  dsimp only
  rw [hobjects]
  cases s.objects[o]? with
  | none => rfl
  | some i =>
    have hi := quiet_heap hst i
    dsimp only
    cases hs : s.heap[i]? with
    | none =>
      rw [hs, Option.map_none, eq_comm, Option.map_eq_none_iff] at hi
      rw [hi]
    | some c =>
      rw [hs, Option.map_some, eq_comm, Option.map_eq_some_iff] at hi
      obtain ⟨c', ht, hc⟩ := hi
      rw [ht]
      refine Outcome.mapState_congr (fun c c' hcc => ?_) (h c c' hc.symm)
      rw [quiet_eq_iff] at hst ⊢
      refine ⟨?_, hst.2⟩
      dsimp only
      rw [List.map_set, List.map_set, hst.1, hcc]

theorem map_quiet_modify (heap : List Container) (i : Nat) (sink : Bool) :
    (heap.modify i (setSubscriber sink)).map Container.quiet = heap.map Container.quiet := by
  apply List.ext_getElem?
  intro j
  rw [List.getElem?_map, List.getElem?_map, List.getElem?_modify]
  cases heap[j]? with
  | none => rfl
  | some c =>
    by_cases h : i = j
    · simp [h, quiet_setSubscriber]
    · simp [h]

theorem agree_subscribe (i : Nat) : Prog.Agree quiet (subscribe i) (subscribe i) := by
  refine Prog.agree_modify fun s t h => ?_
  rw [quiet_eq_iff] at h ⊢
  refine ⟨?_, h.2⟩
  dsimp only
  rw [map_quiet_modify, map_quiet_modify]
  exact h.1

theorem agree_createStorage (type name : Bytes) :
    Prog.Agree quiet (createStorage type name) (createStorage type name) := by
  unfold createStorage
  cases supportedTypes type with
  | none => exact Prog.agree_throw _
  | some make =>
    refine Prog.agree_get_bind fun s t h => ?_
    rw [(quiet_eq_iff.mp h).2.1]
    split
    · exact (agree_subscribe _).bind fun _ => Prog.agree_pure _
    · refine Prog.agree_get_bind fun s t h => ?_
      rw [quiet_length h]
      refine Prog.Agree.bind (Prog.agree_modify fun s t h => ?_) fun _ =>
        (agree_subscribe _).bind fun _ => Prog.agree_pure _
      rw [quiet_eq_iff] at h ⊢
      simp [h]

theorem agree_listType (type name : Bytes) : Prog.Agree quiet (listType type name) (listType type name) := by
  refine Prog.agree_get_bind fun s t h => ?_
  rw [(quiet_eq_iff.mp h).2.2.2.2.1]
  cases t.metaContainers with
  | none => exact Prog.agree_pure _
  | some o =>
    exact agree_withObject o (Container.matches_call (ListStorage.matches_set _ _ _) (MapStorage.matches_set _ _ _)
      (VectorStorage.matches_set _ _ _)).agree

theorem agree_newObject (name : Bytes) (storage : Nat) :
    Prog.Agree quiet (newObject name storage) (newObject name storage) := by
  refine Prog.agree_get_bind fun s t h => ?_
  rw [(quiet_eq_iff.mp h).2.2.1]
  refine Prog.Agree.bind (Prog.agree_modify fun s t h => ?_) fun _ => Prog.agree_pure _
  rw [quiet_eq_iff] at h ⊢
  simp [h]

/-- `create` after the check of the type, which asks for aliases. -/
def createChecked (type name : Bytes) : ManagerM Nat := do
  let storage ← createStorage type name
  listType type name
  newObject name storage

theorem create_run {type : Bytes} (name : Bytes) (h : s.resolveAlias type ∈ managerByType) :
    (create type name).run s = (createChecked type name).run s := by
  have hcheck : (getStorageManagerByType type).run s = .ok () s := by
    unfold getStorageManagerByType
    rw [Prog.run_get_bind]
    dsimp only
    rw [if_pos h]
    rfl
  exact Prog.run_bind_ok _ _ hcheck

theorem agree_createChecked (type name : Bytes) :
    Prog.Agree quiet (createChecked type name) (createChecked type name) :=
  (agree_createStorage type name).bind fun storage =>
    (agree_listType type name).bind fun _ => agree_newObject name storage

/-! ## What the containers are called -/

/-- The manager, with no more of its containers than their labels. -/
def outline (s : ContainerManager) : ContainerManager × List (Bytes × Bytes × Bool) :=
  ({ s with heap := [] }, s.heap.map Container.label)

theorem outline_eq_iff : s.outline = t.outline ↔
    s.heap.map Container.label = t.heap.map Container.label ∧ s.containers = t.containers ∧ s.sink = t.sink ∧
      s.aliases = t.aliases ∧ s.objects = t.objects ∧ s.openContainers = t.openContainers ∧
      s.metaContainers = t.metaContainers ∧ s.metaAvailableTypes = t.metaAvailableTypes ∧ s.held = t.held := by
  simp only [outline, Prod.mk.injEq, ContainerManager.mk.injEq, true_and]
  exact and_comm

theorem outline_heap (h : s.outline = t.outline) (i : Nat) :
    (s.heap[i]?).map Container.label = (t.heap[i]?).map Container.label := by
  rw [← List.getElem?_map, ← List.getElem?_map, (outline_eq_iff.mp h).1]

theorem outline_containerOf (h : s.outline = t.outline) (o : Nat) :
    (s.containerOf o).map Container.label = (t.containerOf o).map Container.label := by
  unfold containerOf
  rw [(outline_eq_iff.mp h).2.2.2.2.1, Option.map_bind, Option.map_bind]
  exact congrArg _ (funext fun i => outline_heap h i)

theorem containerOf_label (s : ContainerManager) (o : Nat) :
    (s.containerOf o).map Container.label = (s.objects[o]?).bind fun i => (s.heap.map Container.label)[i]? := by
  unfold containerOf
  rw [Option.map_bind]
  exact congrArg _ (funext fun i => List.getElem?_map.symm)

theorem outline_entries (h : s.outline = t.outline) (he : Entries t) : Entries s := by
  intro key info hinfo
  have htype := congrArg (Option.map fun l : Bytes × Bytes × Bool => l.2.1) (outline_heap h info.storage)
  rw [Option.map_map, Option.map_map] at htype
  rw [(outline_eq_iff.mp h).2.1] at hinfo
  obtain ⟨hmem, hkey, ht⟩ := he key info hinfo
  exact ⟨hmem, hkey, htype.trans ht⟩

theorem isSome_mapData (c : Container) : (mapData c).isSome = c.isMap := by
  obtain ⟨storage, properties⟩ := c
  cases storage <;> rfl

theorem outline_metaData (h : s.outline = t.outline) (hd : t.metaData.isSome) : s.metaData.isSome := by
  obtain ⟨data, hd⟩ := Option.isSome_iff_exists.mp hd
  obtain ⟨o, i, c, hm, ho, hi, hc⟩ := metaData_eq_some hd
  have hlabel := outline_heap h i
  rw [hi, Option.map_some, Option.map_eq_some_iff] at hlabel
  obtain ⟨c', hi', hl⟩ := hlabel
  have hmap : c'.isMap = c.isMap := congrArg (·.2.2) hl
  obtain ⟨-, -, -, -, hobjects, -, hmeta, -⟩ := outline_eq_iff.mp h
  rw [metaData, hmeta, hm, Option.bind_some, hobjects, ho, Option.bind_some, hi', Option.bind_some, isSome_mapData,
    hmap, ← isSome_mapData, hc]
  rfl

theorem keeps_withObject {α : Type} {x : Container.ContainerM α} (o : Nat) (hx : x.Keeps Container.label) :
    (withObject o x).Keeps outline := by
  intro s s' h
  unfold withObject at h
  dsimp only at h
  split at h
  · cases h
  · split at h
    · cases h
    · rename_i i _ _ c hc
      rw [Outcome.mapState_next] at h
      obtain ⟨c', hc', rfl⟩ := Option.map_eq_some_iff.mp h
      have hlabel := hx c c' hc'
      refine outline_eq_iff.mpr ⟨?_, rfl, rfl, rfl, rfl, rfl, rfl, rfl, rfl⟩
      dsimp only
      rw [List.map_set, hlabel]
      obtain ⟨hlt, rfl⟩ := List.getElem?_eq_some_iff.mp hc
      rw [← List.getElem_map (Container.label) (h := by rwa [List.length_map]), List.set_getElem_self]

theorem keeps_listType (type name : Bytes) : (listType type name).Keeps outline := by
  refine (Prog.reads_get.keeps _).bind fun s => ?_
  cases s.metaContainers with
  | none => exact (Prog.reads_pure _).keeps _
  | some o =>
    exact keeps_withObject o (Container.matches_call (ListStorage.matches_set _ _ _) (MapStorage.matches_set _ _ _)
      (VectorStorage.matches_set _ _ _)).keeps

theorem keeps_createChecked (type name : Bytes) : (createChecked type name).Keeps ContainerManager.aliases := by
  have hsubscribe (i : Nat) : (subscribe i).Keeps ContainerManager.aliases := Prog.keeps_modify fun _ => rfl
  have hstorage : (createStorage type name).Keeps ContainerManager.aliases := by
    unfold createStorage
    cases supportedTypes type with
    | none => exact (Prog.reads_throw _).keeps _
    | some make =>
      refine (Prog.reads_get.keeps _).bind fun s => ?_
      split
      · exact (hsubscribe _).bind fun _ => (Prog.reads_pure _).keeps _
      · refine (Prog.reads_get.keeps _).bind fun s => Prog.Keeps.bind (Prog.keeps_modify fun _ => ?_) fun _ => ?_
        · rfl
        · exact (hsubscribe _).bind fun _ => (Prog.reads_pure _).keeps _
  refine hstorage.bind fun storage => Prog.Keeps.bind (fun s s' h => ?_) fun _ => ?_
  · exact (outline_eq_iff.mp (keeps_listType type name s s' h)).2.2.2.1
  · refine (Prog.reads_get.keeps _).bind fun _ => Prog.Keeps.bind (Prog.keeps_modify fun _ => ?_) fun _ => ?_
    · rfl
    · exact (Prog.reads_pure _).keeps _

theorem label_setSubscriber (sink : Bool) (c : Container) : (setSubscriber sink c).label = c.label := by
  obtain ⟨storage, properties⟩ := c
  cases storage <;> rfl

theorem supportedTypes_label (h : type ∈ managerByType) :
    ∃ make, supportedTypes type = some make ∧ ∀ name, ∃ isMap, (make name type).label = (name, type, isMap) := by
  simp only [managerByType, List.mem_cons, List.not_mem_nil, or_false] at h
  obtain rfl | rfl | rfl := h
  · exact ⟨_, rfl, fun _ => ⟨_, rfl⟩⟩
  · exact ⟨_, rfl, fun _ => ⟨_, rfl⟩⟩
  · exact ⟨_, rfl, fun _ => ⟨_, rfl⟩⟩

/-- The manager with one more storage, and an object of it. -/
def withNew (s : ContainerManager) (type name : Bytes) (heap : List Container) : ContainerManager :=
  { s with
    heap := heap
    containers := s.containers.insert (generateName type name) ⟨name, type, s.heap.length⟩
    objects := s.objects ++ [s.heap.length]
    openContainers := s.openContainers.insert name s.objects.length }

theorem createChecked_new {data : StringMap ValueAndMetadata} (hname : name ≠ []) (hmem : type ∈ managerByType)
    (hnew : s.containers[generateName type name]? = none) (hd : s.metaData = some data) :
    ∃ heap isMap, heap.map Container.label = s.heap.map Container.label ++ [(name, type, isMap)] ∧
      (createChecked type name).run s = .ok s.objects.length (s.withNew type name heap) := by
  obtain ⟨make, hmake, hlabel⟩ := supportedTypes_label hmem
  obtain ⟨isMap, hlabel⟩ := hlabel name
  let s₁ : ContainerManager := { s with
    heap := (s.heap ++ [make name type]).modify s.heap.length (setSubscriber s.sink)
    containers := s.containers.insert (generateName type name) ⟨name, type, s.heap.length⟩ }
  have hstorage : (createStorage type name).run s = .ok s.heap.length s₁ := by
    unfold createStorage
    rw [hmake]
    simp only [if_neg hname, Prog.run_get_bind, hnew]
    rfl
  have hd₁ : s₁.metaData = some data :=
    metaData_kept hd rfl (fun _ _ h => h) ((kept_append _ _).trans (kept_modify _ _ _))
  obtain ⟨h, hlist, -⟩ := listType_run type name hd₁
  have hkept := keeps_listType type name s₁ _ (by rw [hlist]; rfl)
  refine ⟨h, isMap, ?_, ?_⟩
  · have hheap : h.map Container.label = s₁.heap.map Container.label := (outline_eq_iff.mp hkept).1
    rw [hheap]
    simp [s₁, List.modify_eq_set_getElem?, hlabel, label_setSubscriber]
  · unfold createChecked
    rw [Prog.run_bind_ok _ _ hstorage, Prog.run_bind_ok _ _ hlist]
    rfl

end ContainerManager

end Tiodb
