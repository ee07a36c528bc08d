import Tiodb.Server.ManagerCalls

/-!
# The tables of the container manager

Three tables say what a name is: the storage manager has storages by type and name,
`__meta__/containers` has the type of each name, and `openContainers_` has the
object of each name. What follows says when they agree about one name.
-/

namespace Tiodb

open Lib

namespace ContainerManager

variable {s s' : ContainerManager} {type name n : Bytes} {o i : Nat}

/-! ## One name -/

/-- The three tables agree about the name `n`. -/
structure Consistent (n : Bytes) (s : ContainerManager) : Prop where
  entries : Entries s
  metaData : ∃ data, s.metaData = some data
  listed : ∀ t, s.listed n = some (.string t) ↔ ∃ i, s.Registered t n i
  -- the storage may be deleted, but no other one has taken its place
  opened : ∀ o, s.openContainers[n]? = some o →
    ∃ i t, s.objects[o]? = some i ∧ t ∈ managerByType ∧ s.typeAt i = some t ∧ ∀ j, s.Registered t n j → j = i

/-- What is asked of each step, for the name `n`. -/
def Safe (n : Bytes) (s : ContainerManager) : Step → Prop
  | .create type name =>
    name ≠ [] ∧ (cstr name = n → name = n) ∧
      (name = n →
        -- an object that is held has the type asked for, and its storage is not deleted
        (∀ o ∈ s.openObject n, s.typeOf o = some (s.resolveAlias type) ∧ s.storageExists (s.resolveAlias type) n) ∧
        -- the name has no storage of another type
        (s.resolveAlias type ∈ managerByType → ∀ t ∈ managerByType, s.storageExists t n → t = s.resolveAlias type))
  | .open type name =>
    name = n → ∀ o ∈ s.openObject n, ∃ t ∈ managerByType,
      s.typeOf o = some t ∧ s.storageExists t n ∧ (s.resolveAlias type = [] ∨ s.resolveAlias type = t)
  | .delete type name =>
    (cstr name = n → name = n) ∧
      (47 ∈ s.resolveAlias type → s.resolveAlias (s.resolveAlias type) ∉ managerByType)
  | .release _ => True

instance (n : Bytes) (s : ContainerManager) : DecidablePred (Safe n s)
  | .create _ _ => inferInstanceAs (Decidable (_ ∧ _ ∧ (_ → _ ∧ (_ → _))))
  | .open _ _ => inferInstanceAs (Decidable (_ → _))
  | .delete _ _ => inferInstanceAs (Decidable (_ ∧ (_ → _)))
  | .release _ => inferInstanceAs (Decidable True)

theorem Registered.manager {t : Bytes} (he : Entries s) (h : s.Registered t n i) : t ∈ managerByType := (he _ _ h).1

theorem Registered.exists {t : Bytes} (h : s.Registered t n i) : s.storageExists t n := by
  rw [storageExists, Std.ExtTreeMap.contains_eq_isSome_getElem?, h]
  rfl

theorem registered_of_exists {t : Bytes} (he : Entries s) (ht : t ∈ managerByType) (h : s.storageExists t n) :
    ∃ i, s.Registered t n i := by
  rw [storageExists, Std.ExtTreeMap.contains_eq_isSome_getElem?] at h
  obtain ⟨info, hinfo⟩ := Option.isSome_iff_exists.mp h
  exact ⟨info.storage, hinfo.trans (congrArg some (he.eq_of_key ht hinfo))⟩

theorem Opened.entries (hop : Opened s type name i s') (he : Entries s) : Entries s' := by
  intro key info hinfo
  by_cases hk : key = generateName type name
  · subst hk
    obtain rfl : _ = info := Option.some.inj (hop.entry.symm.trans hinfo)
    exact ⟨hop.manager, rfl, hop.typeAt⟩
  · rw [hop.other key hk] at hinfo
    obtain ⟨hm, hkey, ht⟩ := he key info hinfo
    exact ⟨hm, hkey, hop.types _ _ ht⟩

theorem Opened.registered_other (hop : Opened s type name i s') (he : Entries s) (hne : name ≠ n) {t : Bytes} {j : Nat} :
    s'.Registered t n j ↔ s.Registered t n j := by
  by_cases hk : generateName t n = generateName type name
  · constructor
    · intro h
      unfold Registered at h
      rw [hk, hop.entry] at h
      cases h
      exact absurd rfl hne
    · intro h
      exact absurd (generateName_inj (no_slash_of_manager (h.manager he)) (no_slash_of_manager hop.manager) hk).2.symm hne
  · unfold Registered
    rw [hop.other _ hk]

theorem Opened.registered_same (hop : Opened s type n i s') {t : Bytes} {j : Nat} :
    s'.Registered t n j ↔ (t = type ∧ j = i) ∨ (t ≠ type ∧ s.Registered t n j) := by
  by_cases ht : t = type
  · subst ht
    constructor
    · intro h
      exact .inl ⟨rfl, by cases hop.entry.symm.trans h; rfl⟩
    · rintro (⟨-, rfl⟩ | ⟨h, -⟩)
      · exact hop.entry
      · exact absurd rfl h
  · have hother : generateName t n ≠ generateName type n := by
      unfold generateName
      intro hk
      exact ht (List.append_cancel_right hk)
    simp [Registered, ht, hop.other _ hother]

theorem Opened.consistent_opened (hop : Opened s type name i s') (h : Consistent n s) (o : Nat)
    (ho : s'.openContainers[n]? = some o) :
    ∃ i t, s'.objects[o]? = some i ∧ t ∈ managerByType ∧ s'.typeAt i = some t ∧
      ∀ j, s'.Registered t n j → j = i := by
  by_cases hne : name = n
  · subst hne
    rw [hop.openContainers, Std.ExtTreeMap.getElem?_insert_self] at ho
    obtain rfl := Option.some.inj ho
    refine ⟨i, type, by rw [hop.objects]; simp, hop.manager, hop.typeAt, fun j hj => ?_⟩
    cases hop.entry.symm.trans hj
    rfl
  · rw [hop.openContainers, insert_of_ne _ _ hne] at ho
    obtain ⟨k, t, hk, htm, ht, hreg⟩ := h.opened o ho
    refine ⟨k, t, by rw [hop.objects]; exact getElem?_append_some hk [i], htm, hop.types k t ht, fun j hj => ?_⟩
    exact hreg j ((hop.registered_other h.entries hne).mp hj)

theorem createContainer_run (type name : Bytes) (s : ContainerManager) :
    (createContainer type name).run s =
      match s.openObject name with
      | some o => .ok o s
      | none => (create (s.resolveAlias type) name).run s := by
  unfold createContainer
  simp only [Prog.run_get_bind]
  cases s.openObject name <;> rfl

theorem openContainer_run (type name : Bytes) (s : ContainerManager) :
    (openContainer type name).run s =
      match s.openObject name with
      | some o => .ok o s
      | none => (openExisting (s.resolveAlias type) name).run s := by
  unfold openContainer
  simp only [Prog.run_get_bind]
  cases s.openObject name <;> rfl

theorem Consistent.backed_held {t : Bytes} (h : Consistent n s) (ho : s.openObject n = some o)
    (ht : s.typeOf o = some t) (hex : s.storageExists t n) : s.Backed t n o := by
  obtain ⟨i, t', hi, hmem, ht', hreg⟩ := h.opened o (Option.filter_eq_some_iff.mp ho).1
  obtain rfl : t' = t := by
    rw [typeOf, hi, Option.bind_some, ht'] at ht
    exact Option.some.inj ht
  obtain ⟨j, hj⟩ := registered_of_exists h.entries hmem hex
  obtain rfl := hreg j hj
  exact ⟨j, hi, hj, ht'⟩

theorem Opened.backed (hop : Opened s type name i s') : s'.Backed type name s.objects.length :=
  ⟨i, by rw [hop.objects]; simp, hop.entry, hop.typeAt⟩

theorem createContainer_cases (h : Consistent n s) (hn : cstr n = n) (hsafe : Safe n s (.create type name)) :
    (∃ e, (createContainer type name).run s = .throws e s) ∨
      ∃ o s', (createContainer type name).run s = .ok o s' ∧ Consistent n s' ∧
        (name = n → s'.Backed (s.resolveAlias type) n o) ∧
        (name ≠ n → ∀ t i, s'.Registered t n i → s.Registered t n i) := by
  obtain ⟨hne, hcstr, hcreate⟩ := hsafe
  obtain ⟨data, hd⟩ := h.metaData
  rw [createContainer_run]
  cases ho : s.openObject name with
  | some o =>
    refine .inr ⟨o, s, rfl, h, ?_, fun _ _ _ ht => ht⟩
    rintro rfl
    obtain ⟨ht, hex⟩ := (hcreate rfl).1 o ho
    exact h.backed_held ho ht hex
  | none =>
    obtain ⟨e, hr⟩ | ⟨i, s', hr, hop, hd'⟩ := create_cases (s.resolveAlias type) h.entries hne hd
    · exact .inl ⟨e, hr⟩
    refine .inr ⟨_, s', hr, ⟨hop.entries h.entries, ⟨_, hd'⟩, ?_, hop.consistent_opened h⟩, ?_,
      fun hname _ _ => (hop.registered_other h.entries hname).mp⟩
    · intro t
      have hl := h.listed t
      simp only [ContainerManager.listed, hd, Option.bind_some] at hl
      simp only [ContainerManager.listed, hd', Option.bind_some]
      by_cases hname : name = n
      · subst hname
        rw [hn, Std.ExtTreeMap.getElem?_insert_self]
        simp only [hop.registered_same]
        constructor
        · intro ht
          cases ht
          exact ⟨i, .inl ⟨rfl, rfl⟩⟩
        · rintro ⟨j, ⟨rfl, -⟩ | ⟨ht, hj⟩⟩
          · rfl
          · exact absurd ((hcreate rfl).2 hop.manager t (hj.manager h.entries) hj.exists) ht
      · rw [insert_of_ne _ _ fun hk => hname (hcstr hk), hl]
        simp only [hop.registered_other h.entries hname]
    · rintro rfl
      exact hop.backed

theorem openContainer_cases (h : Consistent n s) (hsafe : Safe n s (.open type name)) :
    (∃ e, (openContainer type name).run s = .throws e s) ∨
      ∃ o s', (openContainer type name).run s = .ok o s' ∧ Consistent n s' ∧ s'.containers = s.containers ∧
        (name = n → ∃ t, s'.Backed t n o ∧ (s.resolveAlias type ≠ [] → t = s.resolveAlias type)) := by
  obtain ⟨data, hd⟩ := h.metaData
  rw [openContainer_run]
  cases ho : s.openObject name with
  | some o =>
    refine .inr ⟨o, s, rfl, h, rfl, ?_⟩
    rintro rfl
    obtain ⟨t, -, ht, hex, htype⟩ := hsafe rfl o ho
    refine ⟨t, h.backed_held ho ht hex, fun hne => ?_⟩
    rcases htype with he | he
    · exact absurd he hne
    · exact he.symm
  | none =>
    obtain ⟨e, hr⟩ | ⟨t, i, s', hr, hop, hcont, hd', htype⟩ :=
      openExisting_cases (s.resolveAlias type) name h.entries hd
    · exact .inl ⟨e, hr⟩
    refine .inr ⟨_, s', hr, ⟨hop.entries h.entries, ⟨_, hd'⟩, ?_, hop.consistent_opened h⟩, hcont, ?_⟩
    · intro t
      have hl := h.listed t
      simp only [ContainerManager.listed, hd] at hl
      simp only [ContainerManager.listed, hd', hl, Registered, hcont]
    · rintro rfl
      exact ⟨t, hop.backed, htype⟩

def Absent (n : Bytes) (s : ContainerManager) : Prop := ∀ t i, ¬ s.Registered t n i

theorem Consistent.unique {t t' : Bytes} {j : Nat} (h : Consistent n s) (ht : s.Registered t n i)
    (ht' : s.Registered t' n j) : t = t' := by
  have hl := (h.listed t).mpr ⟨i, ht⟩
  rw [(h.listed t').mpr ⟨j, ht'⟩] at hl
  cases hl
  rfl

theorem registered_erase {key t : Bytes} {heap : List Container} :
    Registered { s with heap := heap, containers := s.containers.erase key } t n i ↔
      key ≠ generateName t n ∧ s.Registered t n i := by
  unfold Registered
  rw [Std.ExtTreeMap.getElem?_erase]
  by_cases hk : key = generateName t n
  · simp [hk]
  · simp [hk]

theorem Entries.erase {key : Bytes} {heap : List Container} (he : Entries s)
    (htypes : ∀ j, typeAt { s with heap := heap } j = s.typeAt j) :
    Entries { s with heap := heap, containers := s.containers.erase key } := by
  intro key' info hinfo
  have hold : s.containers[key']? = some info := by
    rw [Std.ExtTreeMap.getElem?_erase] at hinfo
    split at hinfo
    · cases hinfo
    · exact hinfo
  obtain ⟨hm, hk, ht⟩ := he key' info hold
  exact ⟨hm, hk, (htypes _).trans ht⟩

theorem absent_erase {t : Bytes} {heap : List Container} (h : Consistent n s) (hslash : 47 ∉ t)
    (hex : s.storageExists t n) :
    Absent n { s with heap := heap, containers := s.containers.erase (generateName t n) } := by
  intro t' i ht
  obtain ⟨hkey, ht⟩ := registered_erase.mp ht
  -- the storage that was deleted had a type with no slash in it, so it was the one registered
  rw [storageExists, Std.ExtTreeMap.contains_eq_isSome_getElem?] at hex
  obtain ⟨info, hinfo⟩ := Option.isSome_iff_exists.mp hex
  obtain ⟨hmgr, hk, -⟩ := h.entries _ _ hinfo
  obtain ⟨htype, -⟩ := generateName_inj hslash (no_slash_of_manager hmgr) hk
  rw [htype] at hinfo hkey
  exact hkey (by rw [h.unique ht (hinfo.trans (congrArg some (h.entries.eq_of_key hmgr hinfo)))])

theorem deleteContainer_next (h : Consistent n s) (hn : cstr n = n) (hsafe : Safe n s (.delete type name)) :
    (∃ e, (deleteContainer type name).run s = .throws e s) ∨
      ∃ s', ((deleteContainer type name).run s).next = some s' ∧ Consistent n s' ∧
        (∀ t i, s'.Registered t n i → s.Registered t n i) ∧ (name = n → Absent n s') := by
  obtain ⟨data, hd⟩ := h.metaData
  obtain ⟨e, hr⟩ | ⟨hmem, hex, heap, hnext, htypes, hd'⟩ := deleteContainer_cases type name hd
  · exact .inl ⟨e, hr⟩
  have hslash : 47 ∉ s.resolveAlias type := fun hs => hsafe.2 hs hmem
  have habsent : name = n → Absent n { s with
      heap := heap, containers := s.containers.erase (generateName (s.resolveAlias type) name) } := by
    rintro rfl
    exact absent_erase h hslash hex
  refine .inr ⟨_, hnext, ⟨h.entries.erase htypes, ⟨_, hd'⟩, ?_, ?_⟩, fun t i ht => (registered_erase.mp ht).2, habsent⟩
  · intro t
    have hl := h.listed t
    simp only [ContainerManager.listed, hd, Option.bind_some] at hl
    have hl' : ContainerManager.listed { s with
        heap := heap, containers := s.containers.erase (generateName (s.resolveAlias type) name) } n =
          ((data.erase (cstr name))[n]?).map ValueAndMetadata.value :=
      congrArg (fun d : Option (StringMap ValueAndMetadata) => d.bind fun d => (d[n]?).map _) hd'
    rw [hl']
    by_cases hname : name = n
    · have hkey : (data.erase (cstr name))[n]? = none := by
        rw [hname, hn]
        exact Std.ExtTreeMap.getElem?_erase_self
      rw [hkey]
      constructor
      · intro ht
        cases ht
      · rintro ⟨i, hi⟩
        exact absurd hi (habsent hname t i)
    · rw [erase_of_ne _ fun hk => hname (hsafe.1 hk), hl]
      refine exists_congr fun i => ?_
      rw [registered_erase, iff_and_self]
      intro hi hk
      exact hname (generateName_inj hslash (no_slash_of_manager (hi.manager h.entries)) hk).2
  · intro o ho
    obtain ⟨i, t, hi, hm, ht, hreg⟩ := h.opened o ho
    exact ⟨i, t, hi, hm, (htypes i).trans ht, fun j hj => hreg j (registered_erase.mp hj).2⟩

/-! ## Whole runs -/

theorem Consistent.held (h : Consistent n s) (l : List Nat) : Consistent n { s with held := l } :=
  ⟨h.entries, h.metaData, h.listed, h.opened⟩

theorem step_consistent (hn : cstr n = n) (s : ContainerManager) (a : Step) (s' : ContainerManager)
    (h : Consistent n s) (hsafe : Safe n s a) (hs : step s a = some s') : Consistent n s' := by
  cases a with
  | create type name =>
    obtain ⟨e, hr⟩ | ⟨o, s₁, hr, h₁, -⟩ := createContainer_cases h hn hsafe
    · rw [step, hr] at hs
      cases hs
      exact h
    · rw [step, hr] at hs
      cases hs
      exact h₁.held _
  | «open» type name =>
    obtain ⟨e, hr⟩ | ⟨o, s₁, hr, h₁, -⟩ := openContainer_cases h hsafe
    · rw [step, hr] at hs
      cases hs
      exact h
    · rw [step, hr] at hs
      cases hs
      exact h₁.held _
  | delete type name =>
    obtain ⟨e, hr⟩ | ⟨s₁, hr, h₁, -⟩ := deleteContainer_next h hn hsafe
    · rw [step, hr] at hs
      cases hs
      exact h
    · rw [step, hr] at hs
      cases hs
      exact h₁
  | release o =>
    rw [step] at hs
    split at hs
    · cases hs
      exact h.held _
    · cases hs

theorem step_absent (hn : cstr n = n) (hab : Absent n s) (h : Consistent n s) {a : Step} (hsafe : Safe n s a)
    (ha : ∀ type, a ≠ .create type n) (hs : step s a = some s') : Absent n s' := by
  cases a with
  | create type name =>
    obtain ⟨e, hr⟩ | ⟨o, s₁, hr, -, -, hsub⟩ := createContainer_cases h hn hsafe
    · rw [step, hr] at hs
      cases hs
      exact hab
    · rw [step, hr] at hs
      cases hs
      exact fun t i ht => hab t i (hsub (fun hname => ha type (by rw [hname])) t i ht)
  | «open» type name =>
    obtain ⟨e, hr⟩ | ⟨o, s₁, hr, -, hcont, -⟩ := openContainer_cases h hsafe
    · rw [step, hr] at hs
      cases hs
      exact hab
    · rw [step, hr] at hs
      cases hs
      intro t i ht
      exact hab t i (by rwa [Registered, ← hcont])
  | delete type name =>
    obtain ⟨e, hr⟩ | ⟨s₁, hr, -, hsub, -⟩ := deleteContainer_next h hn hsafe
    · rw [step, hr] at hs
      cases hs
      exact hab
    · rw [step, hr] at hs
      cases hs
      exact fun t i ht => hab t i (hsub t i ht)
  | release o =>
    rw [step] at hs
    split at hs
    · cases hs
      exact hab
    · cases hs

/-- `__meta__/containers` once the fundamental types are registered: it does not list itself. -/
def metaStorage : MapStorage :=
  { MapStorage.new metaName volatileMap with
    data := (∅ : StringMap ValueAndMetadata).insert availableTypesName ⟨.string volatileVector, .none⟩
    revNum := 1 }

def availableTypesStorage : VectorStorage :=
  { VectorStorage.new availableTypesName volatileVector with
    data := [⟨.string volatileVector, .none⟩, ⟨.string volatileList, .none⟩, ⟨.string volatileMap, .none⟩] }

def registeredTables : ContainerManager where
  heap := [⟨.map metaStorage, ∅⟩, ⟨.vector availableTypesStorage, ∅⟩]
  containers := ((∅ : StringMap StorageInfoEx).insert (generateName volatileMap metaName) ⟨metaName, volatileMap, 0⟩).insert
    (generateName volatileVector availableTypesName) ⟨availableTypesName, volatileVector, 1⟩
  objects := [0, 1]
  openContainers := ((∅ : StringMap Nat).insert metaName 0).insert availableTypesName 1
  metaContainers := some 0
  metaAvailableTypes := some 1

theorem register_run : registerFundamentalStorageManagers.run {} = .ok () registeredTables := rfl

theorem addAliases_run (aliases : List (Bytes × Bytes)) (s : ContainerManager) :
    ∃ l, (aliases.forM fun p => addAlias p.1 p.2).run s = .ok () { s with aliases := l } := by
  induction aliases generalizing s with
  | nil => exact ⟨s.aliases, rfl⟩
  | cons p aliases ih => exact ih { s with aliases := s.aliases.insert p.1 p.2 }

theorem registeredTables_registered {t : Bytes} :
    registeredTables.Registered t n i ↔
      (n = availableTypesName ∧ t = volatileVector ∧ i = 1) ∨ (n = metaName ∧ t = volatileMap ∧ i = 0) := by
  constructor
  · intro h
    simp only [Registered, registeredTables, Std.ExtTreeMap.getElem?_insert, Std.compare_eq_iff_eq] at h
    split at h
    · cases h
      exact .inl ⟨rfl, rfl, rfl⟩
    · split at h
      · cases h
        exact .inr ⟨rfl, rfl, rfl⟩
      · simp at h
  · rintro (⟨rfl, rfl, rfl⟩ | ⟨rfl, rfl, rfl⟩)
    · exact Std.ExtTreeMap.getElem?_insert_self
    · exact (insert_of_ne _ _ (by decide)).trans Std.ExtTreeMap.getElem?_insert_self

theorem registeredTables_consistent (hmeta : n ≠ metaName) : Consistent n registeredTables := by
  refine ⟨?_, ⟨_, rfl⟩, ?_, ?_⟩
  · intro key info h
    simp only [registeredTables, Std.ExtTreeMap.getElem?_insert, Std.compare_eq_iff_eq] at h
    split at h
    · cases h
      subst key
      exact ⟨by decide, rfl, rfl⟩
    · split at h
      · cases h
        subst key
        exact ⟨by decide, rfl, rfl⟩
      · simp at h
  · intro t
    have hl : registeredTables.listed n = ((metaStorage.data)[n]?).map ValueAndMetadata.value := rfl
    simp only [hl, metaStorage, Std.ExtTreeMap.getElem?_insert, Std.compare_eq_iff_eq, registeredTables_registered]
    grind
  · intro o ho
    simp only [registeredTables, Std.ExtTreeMap.getElem?_insert, Std.compare_eq_iff_eq, if_neg (Ne.symm hmeta)] at ho
    split at ho
    · cases ho
      refine ⟨1, volatileVector, rfl, by decide, rfl, fun j hj => ?_⟩
      obtain ⟨-, -, hj⟩ | ⟨hn, -⟩ := registeredTables_registered.mp hj
      · exact hj
      · exact absurd hn hmeta
    · simp at ho

theorem setup_consistent (aliases : List (Bytes × Bytes)) (hmeta : n ≠ metaName) :
    ∃ s, (setupContainerManager aliases).run {} = .ok () s ∧ Consistent n s := by
  obtain ⟨l, hl⟩ := addAliases_run aliases registeredTables
  have h := registeredTables_consistent hmeta
  refine ⟨{ registeredTables with aliases := l }, ?_, ⟨h.entries, h.metaData, h.listed, h.opened⟩⟩
  unfold setupContainerManager
  rw [Prog.run_bind_ok _ _ register_run, hl]

theorem run_absent (hn : cstr n = n) {as : List Step} (hab : Absent n s) (h : Consistent n s)
    (hcreate : ∀ type, .create type n ∉ as) (hsafe : Meets step (Safe n) s as) (hrun : run step s as = some s') :
    Absent n s' := by
  induction as generalizing s with
  | nil =>
    obtain rfl : s = s' := by simpa using hrun
    exact hab
  | cons a as ih =>
    obtain ⟨s₁, hs, hrun⟩ := run_cons.mp hrun
    have ha : ∀ type, a ≠ .create type n := fun type ha => hcreate type (ha ▸ List.mem_cons_self)
    exact ih (step_absent hn hab h hsafe.1 ha hs) (step_consistent hn s a s₁ h hsafe.1 hs)
      (fun type hmem => hcreate type (.tail _ hmem)) (hsafe.2 s₁ hs) hrun

theorem absent_of_delete (h : Consistent n s) (hn : cstr n = n) (hsafe : Safe n s (.delete type n))
    (hr : (deleteContainer type n).run s = .ok () s') : Absent n s' := by
  obtain ⟨e, hr'⟩ | ⟨s₁, hnext, -, -, hab⟩ := deleteContainer_next h hn hsafe
  · cases hr.symm.trans hr'
  · rw [hr] at hnext
    obtain rfl := Option.some.inj hnext
    exact hab rfl

theorem openContainer_absent (h : Consistent n s) (hab : Absent n s) (hsafe : Safe n s (.open type n)) :
    ∃ e, (openContainer type n).run s = .throws e s := by
  obtain ⟨e, hr⟩ | ⟨o, s₁, hr, -, hcont, hbacked⟩ := openContainer_cases h hsafe
  · exact ⟨e, hr⟩
  · obtain ⟨t, ⟨i, -, hreg, -⟩, -⟩ := hbacked rfl
    exact absurd (by rwa [Registered, ← hcont]) (hab t i)

/-- For each name but that of the list itself: in every run whose steps are safe, the list has the name's type exactly
when a storage is registered, a call returns an object of the storage registered under the type asked for, and a
name that was deleted and not created again does not open. -/
theorem tables_agree (aliases : List (Bytes × Bytes)) (n : Bytes) (hn : 0 ∉ n) (hmeta : n ≠ metaName) :
    ∃ s₀, (setupContainerManager aliases).run {} = .ok () s₀ ∧
      ∀ as s, Meets step (Safe n) s₀ as → run step s₀ as = some s →
        (∀ t, s.listed n = some (.string t) ↔ ∃ i, s.Registered t n i) ∧
        (∀ type o s', Safe n s (.create type n) → (createContainer type n).run s = .ok o s' →
          s'.Backed (s.resolveAlias type) n o) ∧
        (∀ type o s', Safe n s (.open type n) → (openContainer type n).run s = .ok o s' →
          ∃ t, s'.Backed t n o ∧ (s.resolveAlias type ≠ [] → t = s.resolveAlias type)) ∧
        (∀ before after type s₁ s₂, as = before ++ .delete type n :: after → run step s₀ before = some s₁ →
          (deleteContainer type n).run s₁ = .ok () s₂ → (∀ type, .create type n ∉ after) →
          ∀ type, Safe n s (.open type n) → ∃ e, (openContainer type n).run s = .throws e s) := by
  have hn' : cstr n = n := cstr_eq_self hn
  obtain ⟨s₀, hsetup, h₀⟩ := setup_consistent aliases hmeta
  refine ⟨s₀, hsetup, fun as s hsafe hrun => ?_⟩
  have h : Consistent n s := run_keeps (step_consistent hn') h₀ hsafe hrun
  refine ⟨h.listed, ?_, ?_, ?_⟩
  · intro type o s' hs hr
    obtain ⟨e, hr'⟩ | ⟨o', s'', hr', -, hbacked, -⟩ := createContainer_cases h hn' hs
    · cases hr.symm.trans hr'
    · cases hr.symm.trans hr'
      exact hbacked rfl
  · intro type o s' hs hr
    obtain ⟨e, hr'⟩ | ⟨o', s'', hr', -, -, hbacked⟩ := openContainer_cases h hs
    · cases hr.symm.trans hr'
    · cases hr.symm.trans hr'
      exact hbacked rfl
  · rintro before after dtype s₁ s₂ rfl hbefore hdel hcreate type hs
    obtain ⟨hsafe₁, hsafe⟩ := meets_append hsafe
    obtain ⟨hdelete, hafter⟩ := hsafe s₁ hbefore
    obtain ⟨t, ht, hrun⟩ := run_append.mp hrun
    obtain rfl : s₁ = t := Option.some.inj (hbefore.symm.trans ht)
    have hstep : step s₁ (.delete dtype n) = some s₂ := by rw [step, hdel, Outcome.next]
    obtain ⟨t, ht, hrun⟩ := run_cons.mp hrun
    obtain rfl : s₂ = t := Option.some.inj (hstep.symm.trans ht)
    have h₁ : Consistent n s₁ := run_keeps (step_consistent hn') h₀ hsafe₁ hbefore
    have h₂ : Consistent n s₂ := step_consistent hn' s₁ _ s₂ h₁ hdelete hstep
    have hab : Absent n s₂ := absent_of_delete h₁ hn' hdelete hdel
    exact openContainer_absent h (run_absent hn' hab h₂ hcreate (hafter s₂ hstep) hrun) hs

/-- A list made under an alias, released and deleted: it does not open. -/
theorem tables_agree_deleted_list :
    ∃ s₀ s, (setupContainerManager [(ascii "list", volatileList)]).run {} = .ok () s₀ ∧
      run step s₀ [.create (ascii "list") (ascii "x"), .release 2, .delete volatileList (ascii "x")] = some s ∧
      ∃ e, (openContainer [] (ascii "x")).run s = .throws e s := by
  obtain ⟨s₀, hsetup, h⟩ := tables_agree [(ascii "list", volatileList)] (ascii "x") (by decide) (by decide)
  obtain rfl : { registeredTables with aliases := (∅ : StringMap Bytes).insert (ascii "list") volatileList } = s₀ :=
    (Outcome.ok.inj hsetup).2
  refine ⟨_, _, hsetup, rfl, ?_⟩
  have htables := h
    [.create (ascii "list") (ascii "x"), .release 2, .delete volatileList (ascii "x")] _ (by decide +kernel) rfl
  exact htables.2.2.2 [.create (ascii "list") (ascii "x"), .release 2] [] volatileList _ _ rfl rfl rfl (by simp) []
    (by decide)

/-- The list does not list itself; a name that is held is returned under another type, and after it was deleted. -/
theorem held_object_returned :
    ∃ s₀ s₁ s₂ s₃ s₄, (setupContainerManager []).run {} = .ok () s₀ ∧
      (s₀.listed metaName = none ∧ s₀.Registered volatileMap metaName 0) ∧
      run step s₀ [.create volatileList (ascii "x")] = some s₁ ∧
      ((createContainer volatileMap (ascii "x")).run s₁ = .ok 2 s₂ ∧ ¬ s₂.Backed volatileMap (ascii "x") 2) ∧
      run step s₀ [.create volatileList (ascii "x"), .delete volatileList (ascii "x")] = some s₃ ∧
      (openContainer volatileList (ascii "x")).run s₃ = .ok 2 s₄ := by
  refine ⟨_, _, _, _, _, rfl, ⟨rfl, rfl⟩, rfl, ⟨rfl, fun h => ?_⟩, rfl, rfl⟩
  have ht := h.typeOf
  revert ht
  decide

end ContainerManager

end Tiodb
