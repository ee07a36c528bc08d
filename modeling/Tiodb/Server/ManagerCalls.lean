import Tiodb.Lib.Lists
import Tiodb.Lib.Tables
import Tiodb.Server.ContainerManager

/-!
# What a call of the container manager can do

One lemma for each call says all that it can do to the tables; the proofs about
runs use these and never the calls themselves.
-/

namespace Tiodb

open Lib

namespace ContainerManager

def Registered (s : ContainerManager) (type name : Bytes) (i : Nat) : Prop :=
  s.containers[generateName type name]? = some ⟨name, type, i⟩

def typeAt (s : ContainerManager) (i : Nat) : Option Bytes := (s.heap[i]?).map Container.getType

def mapData (c : Container) : Option (StringMap ValueAndMetadata) :=
  match c.storage with
  | .map m => some m.data
  | _ => none

def metaData (s : ContainerManager) : Option (StringMap ValueAndMetadata) :=
  s.metaContainers.bind fun o => (s.objects[o]?).bind fun i => (s.heap[i]?).bind mapData

def listed (s : ContainerManager) (name : Bytes) : Option TioData :=
  s.metaData.bind fun data => (data[name]?).map ValueAndMetadata.value

def typeOf (s : ContainerManager) (o : Nat) : Option Bytes := (s.objects[o]?).bind s.typeAt

/-- The object is one of the storage registered under the type and the name, which has that type. -/
def Backed (s : ContainerManager) (type name : Bytes) (o : Nat) : Prop :=
  ∃ i, s.objects[o]? = some i ∧ s.Registered type name i ∧ s.typeAt i = some type

theorem Backed.typeOf {s : ContainerManager} {type name : Bytes} {o : Nat} (h : s.Backed type name o) :
    s.typeOf o = some type := by
  obtain ⟨i, hi, -, ht⟩ := h
  rw [ContainerManager.typeOf, hi]
  exact ht

variable {s s' : ContainerManager} {type name n : Bytes} {o i : Nat} {data : StringMap ValueAndMetadata}

/-! ## Names -/

theorem generateName_inj {t t' m m' : Bytes} (ht : 47 ∉ t) (ht' : 47 ∉ t')
    (h : generateName t m = generateName t' m') : t = t' ∧ m = m' :=
  append_cons_inj ht ht' h

theorem no_slash_of_manager (h : type ∈ managerByType) : 47 ∉ type := by
  revert type
  decide

theorem supportedTypes_cases (h : type ∈ managerByType) :
    ∃ make, supportedTypes type = some make ∧ ∀ name, (make name type).getType = type := by
  simp only [managerByType, List.mem_cons, List.not_mem_nil, or_false] at h
  obtain rfl | rfl | rfl := h
  · exact ⟨_, rfl, fun _ => rfl⟩
  · exact ⟨_, rfl, fun _ => rfl⟩
  · exact ⟨_, rfl, fun _ => rfl⟩

theorem mem_manager_of_supported {make : Bytes → Bytes → Container} (h : supportedTypes type = some make) :
    type ∈ managerByType := by
  unfold supportedTypes at h
  simp only [managerByType, List.mem_cons, List.not_mem_nil, or_false]
  grind

/-! ## The heap -/

/-- Every storage is still there, with its type and the records it has if it is a map. -/
def Kept (h h' : List Container) : Prop :=
  ∀ (i : Nat) (c : Container), h[i]? = some c → ∃ c', h'[i]? = some c' ∧ c'.getType = c.getType ∧ mapData c' = mapData c

theorem kept_modify (h : List Container) (i : Nat) (sink : Bool) : Kept h (h.modify i (setSubscriber sink)) := by
  intro j c hc
  refine ⟨if i = j then setSubscriber sink c else c, by simp [List.getElem?_modify, hc], ?_⟩
  obtain ⟨storage, p⟩ := c
  split
  · cases storage <;> exact ⟨rfl, rfl⟩
  · exact ⟨rfl, rfl⟩

theorem kept_append (h : List Container) (c : Container) : Kept h (h ++ [c]) := fun _ _ hj =>
  ⟨_, getElem?_append_some hj [c], rfl, rfl⟩

theorem Kept.refl (h : List Container) : Kept h h := fun _ c hc => ⟨c, hc, rfl, rfl⟩

theorem Kept.trans {h₁ h₂ h₃ : List Container} (h : Kept h₁ h₂) (h' : Kept h₂ h₃) : Kept h₁ h₃ := by
  intro i c hc
  obtain ⟨c₂, hc₂, ht₂, hd₂⟩ := h i c hc
  obtain ⟨c₃, hc₃, ht₃, hd₃⟩ := h' i c₂ hc₂
  exact ⟨c₃, hc₃, ht₃.trans ht₂, hd₃.trans hd₂⟩

theorem Kept.typeAt {h h' : List Container} (hk : Kept h h') (ht : (h[i]?).map Container.getType = some type) :
    (h'[i]?).map Container.getType = some type := by
  obtain ⟨c, hc, rfl⟩ := Option.map_eq_some_iff.mp ht
  obtain ⟨c', hc', ht', -⟩ := hk i c hc
  exact Option.map_eq_some_iff.mpr ⟨c', hc', ht'⟩

theorem metaData_eq_some (h : s.metaData = some data) :
    ∃ o i c, s.metaContainers = some o ∧ s.objects[o]? = some i ∧ s.heap[i]? = some c ∧ mapData c = some data := by
  simp only [metaData, Option.bind_eq_some_iff] at h
  obtain ⟨o, ho, i, hi, c, hc, h⟩ := h
  exact ⟨o, i, c, ho, hi, hc, h⟩

theorem metaData_kept (hd : s.metaData = some data) (hm : s'.metaContainers = s.metaContainers)
    (ho : ∀ (o i : Nat), s.objects[o]? = some i → s'.objects[o]? = some i) (h : Kept s.heap s'.heap) :
    s'.metaData = some data := by
  obtain ⟨o, i, c, hmo, hoi, hic, hcd⟩ := metaData_eq_some hd
  obtain ⟨c', hc', -, hd'⟩ := h i c hic
  simp [metaData, hm, hmo, ho o i hoi, hc', hd', hcd]

theorem withObject_call {α : Type} (l : ListStorage.ListM α) (x : MapStorage.MapM α) (v : VectorStorage.VectorM α)
    (hm : s.metaContainers = some o) (hd : s.metaData = some data) :
    ∃ i m p, s.objects[o]? = some i ∧ s.heap[i]? = some ⟨.map m, p⟩ ∧ m.data = data ∧
      (withObject o (Container.call l x v)).run s =
        (x.run m).mapState fun m => { s with heap := s.heap.set i ⟨.map m, p⟩ } := by
  obtain ⟨o', i, ⟨storage, p⟩, hmo, hoi, hic, hcd⟩ := metaData_eq_some hd
  obtain rfl : o = o' := Option.some.inj (hm.symm.trans hmo)
  cases storage with
  | map m =>
    refine ⟨i, m, p, hoi, hic, Option.some.inj hcd, ?_⟩
    simp only [withObject, hoi, hic, Container.call]
    cases x.run m <;> rfl
  | list l => cases hcd
  | vector v => cases hcd

theorem set_map {m m' : MapStorage} {p : StringMap Bytes} (hm : s.metaContainers = some o) (ho : s.objects[o]? = some i)
    (hi : s.heap[i]? = some ⟨.map m, p⟩) (ht : m'.type = m.type) :
    (∀ j, typeAt { s with heap := s.heap.set i ⟨.map m', p⟩ } j = s.typeAt j) ∧
      metaData { s with heap := s.heap.set i ⟨.map m', p⟩ } = some m'.data := by
  have hlt : i < s.heap.length := (List.getElem?_eq_some_iff.mp hi).1
  constructor
  · intro j
    by_cases hj : i = j
    · subst hj
      rw [typeAt, typeAt, List.getElem?_set_self hlt, hi]
      simp [Container.getType, ht]
    · simp [typeAt, List.getElem?_set_ne hj]
  · simp [metaData, hm, ho, hlt, mapData]

theorem listType_run (type name : Bytes) (hd : s.metaData = some data) :
    ∃ h, (listType type name).run s = .ok () { s with heap := h } ∧
      (∀ j, typeAt { s with heap := h } j = s.typeAt j) ∧
      metaData { s with heap := h } = some (data.insert (cstr name) ⟨.string type, .none⟩) := by
  obtain ⟨o, -, -, hm, -⟩ := metaData_eq_some hd
  obtain ⟨i, m, p, ho, hi, rfl, hrun⟩ := withObject_call
    (ListStorage.set (.string name) (.string type) .none) (MapStorage.set (.string name) (.string type) .none)
    (VectorStorage.set (.string name) (.string type) .none) hm hd
  obtain ⟨m', hset, ht, hdata⟩ : ∃ m', (MapStorage.set (.string name) (.string type) .none).run m = .ok () m' ∧
      m'.type = m.type ∧ m'.data = m.data.insert (cstr name) ⟨.string type, .none⟩ := ⟨_, rfl, rfl, rfl⟩
  rw [hset] at hrun
  obtain ⟨htypes, hmeta⟩ := set_map hm ho hi ht
  have hlist : (listType type name).run s =
      (withObject o (Container.set (.string name) (.string type) .none)).run s := by
    unfold listType
    rw [Prog.run_get_bind, hm]
  exact ⟨_, hlist.trans hrun, htypes, hmeta.trans (congrArg some hdata)⟩

/-- The record is gone afterwards, also when the call throws as there was none. -/
theorem unlist_next (name : Bytes) (hd : s.metaData = some data) :
    ∃ h, ((unlist name).run s).next = some { s with heap := h } ∧
      (∀ j, typeAt { s with heap := h } j = s.typeAt j) ∧
      metaData { s with heap := h } = some (data.erase (cstr name)) := by
  obtain ⟨o, -, -, hm, -⟩ := metaData_eq_some hd
  obtain ⟨i, m, p, ho, hi, rfl, hrun⟩ := withObject_call (ListStorage.delete (.string name) .none .none)
    (MapStorage.delete (.string name) .none .none) (VectorStorage.delete (.string name) .none .none) hm hd
  obtain ⟨m', hdel, ht, hdata⟩ : ∃ m', ((MapStorage.delete (.string name) .none .none).run m).next = some m' ∧
      m'.type = m.type ∧ m'.data = m.data.erase (cstr name) := by
    unfold MapStorage.delete
    rw [Prog.run_bind, MapStorage.deleteRecord_spec]
    by_cases hc : m.data.contains (cstr name)
    · rw [if_pos hc]
      exact ⟨_, rfl, rfl, rfl⟩
    · rw [if_neg hc]
      exact ⟨m, rfl, rfl, (erase_of_not_contains hc).symm⟩
  obtain ⟨htypes, hmeta⟩ := set_map hm ho hi ht
  have hunlist : (unlist name).run s = (withObject o (Container.delete (.string name) .none .none)).run s := by
    unfold unlist
    rw [Prog.run_get_bind, hm]
  refine ⟨_, ?_, htypes, hmeta.trans (congrArg some hdata)⟩
  rw [hunlist, Container.delete, hrun, Outcome.mapState_next, hdel]
  rfl

theorem withObject_reads {α : Type} {x : Container.ContainerM α} (hx : x.Reads) (o : Nat) : (withObject o x).Reads := by
  intro s s' h
  unfold withObject at h
  dsimp only at h
  split at h
  · cases h
  · split at h
    · cases h
    · rename_i i _ _ c hc
      rw [Outcome.mapState_next] at h
      obtain ⟨c', hc', rfl⟩ := Option.map_eq_some_iff.mp h
      obtain rfl := hx c c' hc'
      have hset : s.heap.set i c' = s.heap := by
        obtain ⟨hlt, rfl⟩ := List.getElem?_eq_some_iff.mp hc
        exact List.set_getElem_self hlt
      rw [hset]

theorem typeToOpen_cases (type name : Bytes) (hd : s.metaData = some data) :
    (∃ e, (typeToOpen type name).run s = .throws e s) ∨
      ∃ t, (typeToOpen type name).run s = .ok t s ∧ (type ≠ [] → t = type) := by
  unfold typeToOpen
  by_cases ht : type = []
  · obtain ⟨o, -, -, hm, -⟩ := metaData_eq_some hd
    rw [if_pos ht, Prog.run_get_bind, hm]
    dsimp only
    have hreads := withObject_reads (Container.getRecord_reads (.string name)) o s
    cases hr : (withObject o (Container.getRecord (.string name))).run s with
    | ok record s' =>
      obtain rfl := hreads s' (by rw [hr]; rfl)
      rw [Prog.run_bind_ok _ _ hr]
      cases record.value.asSz with
      | ok t => exact .inr ⟨t, rfl, fun h => absurd ht h⟩
      | error e => exact .inl ⟨e, rfl⟩
    | throws e s' =>
      obtain rfl := hreads s' (by rw [hr]; rfl)
      exact .inl ⟨e, Prog.run_bind_throws _ _ hr⟩
    | undefined =>
      obtain ⟨i, m, p, -, -, -, hrun⟩ := withObject_call (ListStorage.getRecord (.string name))
        (MapStorage.getRecord (.string name)) (VectorStorage.getRecord (.string name)) hm hd
      rw [← Container.getRecord, hr, MapStorage.getRecord_string] at hrun
      cases hg : m.data[cstr name]? with
      | none => simp [hg, Outcome.mapState] at hrun
      | some r => simp [hg, Outcome.mapState] at hrun
  · rw [if_neg ht]
    exact .inr ⟨type, rfl, fun _ => rfl⟩

/-! ## What a call can do -/

def Entries (s : ContainerManager) : Prop :=
  ∀ (key : Bytes) (info : StorageInfoEx), s.containers[key]? = some info →
    info.type ∈ managerByType ∧ key = generateName info.type info.name ∧ s.typeAt info.storage = some info.type

theorem Entries.eq_of_key (he : Entries s) (ht : type ∈ managerByType) {info : StorageInfoEx}
    (h : s.containers[generateName type name]? = some info) : info = ⟨name, type, info.storage⟩ := by
  obtain ⟨hti, hkey, -⟩ := he _ _ h
  obtain ⟨htype, hname⟩ := generateName_inj (no_slash_of_manager ht) (no_slash_of_manager hti) hkey
  rw [htype, hname]

/-- The call has made the object of storage `i`, which is registered under the type and the name. -/
structure Opened (s : ContainerManager) (type name : Bytes) (i : Nat) (s' : ContainerManager) : Prop where
  manager : type ∈ managerByType
  objects : s'.objects = s.objects ++ [i]
  openContainers : s'.openContainers = s.openContainers.insert name s.objects.length
  types : ∀ j t, s.typeAt j = some t → s'.typeAt j = some t
  typeAt : s'.typeAt i = some type
  entry : s'.Registered type name i
  other : ∀ key, key ≠ generateName type name → s'.containers[key]? = s.containers[key]?
  same : ∀ j, s.Registered type name j → j = i

theorem getStorageManagerByType_cases (type : Bytes) (s : ContainerManager) :
    (∃ e, (getStorageManagerByType type).run s = .throws e s) ∨
      s.resolveAlias type ∈ managerByType ∧ (getStorageManagerByType type).run s = .ok () s := by
  unfold getStorageManagerByType
  rw [Prog.run_get_bind]
  dsimp only
  split
  · exact .inr ⟨by assumption, rfl⟩
  · exact .inl ⟨_, rfl⟩

theorem createStorage_cases (type : Bytes) (he : Entries s) (hname : name ≠ []) :
    (∃ e, (createStorage type name).run s = .throws e s) ∨
      ∃ i h t, (createStorage type name).run s = .ok i { s with heap := h, containers := t } ∧ Kept s.heap h ∧
        Opened s type name i { s with
          heap := h
          containers := t
          objects := s.objects ++ [i]
          openContainers := s.openContainers.insert name s.objects.length } := by
  unfold createStorage
  cases hsup : supportedTypes type with
  | none => exact .inl ⟨_, rfl⟩
  | some make =>
    have hmem := mem_manager_of_supported hsup
    simp only [if_neg hname, Prog.run_get_bind]
    cases hentry : s.containers[generateName type name]? with
    | some info =>
      have hinfo := he.eq_of_key hmem hentry
      have hkept := kept_modify s.heap info.storage s.sink
      refine .inr ⟨_, _, _, rfl, hkept, ⟨hmem, rfl, rfl, ?_, ?_, ?_, fun _ _ => rfl, ?_⟩⟩
      · exact fun _ _ => hkept.typeAt
      · have h := (he _ _ hentry).2.2
        rw [show info.type = type by rw [hinfo]] at h
        exact hkept.typeAt h
      · exact hentry.trans (congrArg some hinfo)
      · intro j hj
        have h := Option.some.inj (hentry.symm.trans hj)
        rw [h]
    | none =>
      have hkept : Kept s.heap ((s.heap ++ [make name type]).modify s.heap.length (setSubscriber s.sink)) :=
        (kept_append _ _).trans (kept_modify _ _ _)
      refine .inr ⟨_, _, _, rfl, hkept, ⟨hmem, rfl, rfl, ?_, ?_, ?_, ?_, ?_⟩⟩
      · exact fun _ _ => hkept.typeAt
      · obtain ⟨make', hmake, htype⟩ := supportedTypes_cases hmem
        obtain rfl : make = make' := Option.some.inj (hsup.symm.trans hmake)
        refine (kept_modify _ _ _).typeAt ?_
        simp [htype]
      · exact Std.ExtTreeMap.getElem?_insert_self
      · intro key hkey
        exact insert_of_ne _ _ (Ne.symm hkey)
      · intro j hj
        cases hentry.symm.trans hj

/-- Where the name has no object, `CreateContainer` throws and changes nothing, or lists the type. -/
theorem create_cases (type : Bytes) (he : Entries s) (hname : name ≠ []) (hd : s.metaData = some data) :
    (∃ e, (create type name).run s = .throws e s) ∨
      ∃ i s', (create type name).run s = .ok s.objects.length s' ∧ Opened s type name i s' ∧
        s'.metaData = some (data.insert (cstr name) ⟨.string type, .none⟩) := by
  unfold create
  obtain ⟨e, hg⟩ | ⟨-, hg⟩ := getStorageManagerByType_cases type s
  · exact .inl ⟨e, Prog.run_bind_throws _ _ hg⟩
  rw [Prog.run_bind_ok _ _ hg]
  obtain ⟨e, hc⟩ | ⟨i, h, t, hc, hkept, hopened⟩ := createStorage_cases type he hname
  · exact .inl ⟨e, Prog.run_bind_throws _ _ hc⟩
  rw [Prog.run_bind_ok _ _ hc]
  have hd₁ : metaData { s with heap := h, containers := t } = some data :=
    metaData_kept hd rfl (fun _ _ h => h) hkept
  obtain ⟨h', hrun, htypes, hmeta⟩ := listType_run type name hd₁
  rw [Prog.run_bind_ok _ _ hrun]
  refine .inr ⟨i, { s with
    heap := h'
    containers := t
    objects := s.objects ++ [i]
    openContainers := s.openContainers.insert name s.objects.length }, rfl, ?_, ?_⟩
  · exact { hopened with
      types := fun j t ht => (htypes j).trans (hopened.types j t ht)
      typeAt := (htypes i).trans hopened.typeAt }
  · exact metaData_kept hmeta rfl (fun _ _ ho => getElem?_append_some ho [i]) (Kept.refl h')

theorem openExisting_cases (type name : Bytes) (he : Entries s) (hd : s.metaData = some data) :
    (∃ e, (openExisting type name).run s = .throws e s) ∨
      ∃ t i s', (openExisting type name).run s = .ok s.objects.length s' ∧ Opened s t name i s' ∧
        s'.containers = s.containers ∧ s'.metaData = some data ∧ (type ≠ [] → t = type) := by
  unfold openExisting
  obtain ⟨e, ht⟩ | ⟨t, ht, htype⟩ := typeToOpen_cases type name hd
  · exact .inl ⟨e, Prog.run_bind_throws _ _ ht⟩
  rw [Prog.run_bind_ok _ _ ht]
  obtain ⟨e, hg⟩ | ⟨-, hg⟩ := getStorageManagerByType_cases t s
  · exact .inl ⟨e, Prog.run_bind_throws _ _ hg⟩
  rw [Prog.run_bind_ok _ _ hg]
  unfold openStorage
  cases hsup : supportedTypes t with
  | none => exact .inl ⟨_, rfl⟩
  | some make =>
    have hmem := mem_manager_of_supported hsup
    cases hentry : s.containers[generateName t name]? with
    | none =>
      refine .inl ⟨invalidArgument "no such data storage", ?_⟩
      simp [Prog.run_bind, hentry]
    | some info =>
      have hinfo := he.eq_of_key hmem hentry
      have hkept := kept_modify s.heap info.storage s.sink
      have htypes := (he _ _ hentry).2.2
      rw [show info.type = t by rw [hinfo]] at htypes
      refine .inr ⟨t, info.storage, { s with
        heap := s.heap.modify info.storage (setSubscriber s.sink)
        objects := s.objects ++ [info.storage]
        openContainers := s.openContainers.insert name s.objects.length }, ?_, ?_, rfl, ?_, htype⟩
      · simp [Prog.run_bind, hentry, subscribe, newObject]
      · exact ⟨hmem, rfl, rfl, fun _ _ => hkept.typeAt, hkept.typeAt htypes, hentry.trans (congrArg some hinfo),
          fun _ _ => rfl, fun j hj => by rw [Option.some.inj (hentry.symm.trans hj)]⟩
      · exact metaData_kept hd rfl (fun _ _ ho => getElem?_append_some ho _) hkept

/-- `DeleteContainer` changes nothing, or takes the storage and the listed type away. -/
theorem deleteContainer_cases (type name : Bytes) (hd : s.metaData = some data) :
    (∃ e, (deleteContainer type name).run s = .throws e s) ∨
      s.resolveAlias (s.resolveAlias type) ∈ managerByType ∧ s.storageExists (s.resolveAlias type) name ∧
        ∃ h, ((deleteContainer type name).run s).next =
            some { s with heap := h, containers := s.containers.erase (generateName (s.resolveAlias type) name) } ∧
          (∀ j, typeAt { s with heap := h } j = s.typeAt j) ∧
          metaData { s with heap := h } = some (data.erase (cstr name)) := by
  unfold deleteContainer
  rw [Prog.run_get_bind]
  dsimp only
  obtain ⟨e, hg⟩ | ⟨hmem, hg⟩ := getStorageManagerByType_cases (s.resolveAlias type) s
  · exact .inl ⟨e, Prog.run_bind_throws _ _ hg⟩
  rw [Prog.run_bind_ok _ _ hg]
  by_cases hex : s.storageExists (s.resolveAlias type) name
  · have hdel : (deleteStorage (s.resolveAlias type) name).run s =
        .ok () { s with containers := s.containers.erase (generateName (s.resolveAlias type) name) } := by
      simp [deleteStorage, Prog.run_bind, hex]
    rw [Prog.run_bind_ok _ _ hdel]
    obtain ⟨h, hnext, htypes, hmeta⟩ := unlist_next name
      (s := { s with containers := s.containers.erase (generateName (s.resolveAlias type) name) }) hd
    exact .inr ⟨hmem, hex, h, hnext, htypes, hmeta⟩
  · refine .inl ⟨invalidArgument "no such data container", Prog.run_bind_throws _ _ ?_⟩
    simp [deleteStorage, Prog.run_bind, hex]

end ContainerManager

end Tiodb
