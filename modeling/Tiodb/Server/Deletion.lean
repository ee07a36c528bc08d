import Tiodb.Server.Registry

/-!
# A delete that fails

`DeleteContainer` takes the storage out of the table of its manager, and then the name
out of `__meta__/containers`. The second throws where the name is not listed, and the
storage is gone then.
-/

namespace Tiodb

open Lib

namespace ContainerManager

variable {s s' : ContainerManager} {type name : Bytes} {data : StringMap ValueAndMetadata}

/-- What holds in every state, whatever types the names are created under. -/
structure Ordered (s : ContainerManager) : Prop where
  entries : Entries s
  metaData : ∃ data, s.metaData = some data

theorem Ordered.held (h : Ordered s) (l : List Nat) : Ordered { s with held := l } := ⟨h.entries, h.metaData⟩

theorem createContainer_ordered (h : Ordered s) (hname : name ≠ []) :
    (∃ e, (createContainer type name).run s = .throws e s) ∨
      ∃ o s', (createContainer type name).run s = .ok o s' ∧ Ordered s' := by
  obtain ⟨data, hd⟩ := h.metaData
  rw [createContainer_run]
  cases s.openObject name with
  | some o => exact .inr ⟨o, s, rfl, h⟩
  | none =>
    obtain ⟨e, hr⟩ | ⟨i, s', hr, hop, hd'⟩ := create_cases (s.resolveAlias type) h.entries hname hd
    · exact .inl ⟨e, hr⟩
    · exact .inr ⟨_, s', hr, hop.entries h.entries, _, hd'⟩

theorem openContainer_ordered (type name : Bytes) (h : Ordered s) :
    (∃ e, (openContainer type name).run s = .throws e s) ∨
      ∃ o s', (openContainer type name).run s = .ok o s' ∧ Ordered s' := by
  obtain ⟨data, hd⟩ := h.metaData
  rw [openContainer_run]
  cases s.openObject name with
  | some o => exact .inr ⟨o, s, rfl, h⟩
  | none =>
    obtain ⟨e, hr⟩ | ⟨t, i, s', hr, hop, -, hd', -⟩ := openExisting_cases (s.resolveAlias type) name h.entries hd
    · exact .inl ⟨e, hr⟩
    · exact .inr ⟨_, s', hr, hop.entries h.entries, _, hd'⟩

theorem deleteContainer_ordered (type name : Bytes) (h : Ordered s) :
    ∃ s', ((deleteContainer type name).run s).next = some s' ∧ Ordered s' := by
  obtain ⟨data, hd⟩ := h.metaData
  obtain ⟨e, hr⟩ | ⟨-, -, heap, hnext, htypes, hd'⟩ := deleteContainer_cases type name hd
  · exact ⟨s, by rw [hr]; rfl, h⟩
  · exact ⟨_, hnext, h.entries.erase htypes, _, hd'⟩

/-- The names that are created are not empty. -/
def Named (_ : ContainerManager) : Step → Prop
  | .create _ name => name ≠ []
  | _ => True

instance (s : ContainerManager) : DecidablePred (Named s)
  | .create _ name => inferInstanceAs (Decidable (name ≠ []))
  | .open _ _ | .delete _ _ | .release _ => inferInstanceAs (Decidable True)

theorem step_ordered (s : ContainerManager) (a : Step) (s' : ContainerManager) (h : Ordered s) (ha : Named s a)
    (hs : step s a = some s') : Ordered s' := by
  cases a with
  | create type name =>
    obtain ⟨e, hr⟩ | ⟨o, s₁, hr, h₁⟩ := @createContainer_ordered s type name h ha
    · rw [step, hr] at hs
      cases hs
      exact h
    · rw [step, hr] at hs
      cases hs
      exact h₁.held _
  | «open» type name =>
    obtain ⟨e, hr⟩ | ⟨o, s₁, hr, h₁⟩ := openContainer_ordered type name h
    · rw [step, hr] at hs
      cases hs
      exact h
    · rw [step, hr] at hs
      cases hs
      exact h₁.held _
  | delete type name =>
    obtain ⟨s₁, hr, h₁⟩ := deleteContainer_ordered type name h
    rw [step, hr] at hs
    cases hs
    exact h₁
  | release o =>
    rw [step] at hs
    split at hs
    · cases hs
      exact h.held _
    · cases hs

theorem setup_ordered {aliases : List (Bytes × Bytes)} {s : ContainerManager}
    (h : (setupContainerManager aliases).run {} = .ok () s) : Ordered s := by
  obtain ⟨s', hs', hc⟩ := setup_consistent (n := []) aliases (by decide)
  obtain rfl := (Outcome.ok.inj (h.symm.trans hs')).2
  exact ⟨hc.entries, hc.metaData⟩

/-! ## The second part of a delete -/

theorem unlist_run (name : Bytes) (hd : s.metaData = some data) :
    ∃ i m p, s.heap[i]? = some ⟨.map m, p⟩ ∧ m.data = data ∧
      (unlist name).run s = ((MapStorage.delete (.string name) .none .none).run m).mapState fun m =>
        { s with heap := s.heap.set i ⟨.map m, p⟩ } := by
  obtain ⟨o, -, -, hm, -⟩ := metaData_eq_some hd
  obtain ⟨i, m, p, -, hi, hdata, hrun⟩ := withObject_call (ListStorage.delete (.string name) .none .none)
    (MapStorage.delete (.string name) .none .none) (VectorStorage.delete (.string name) .none .none) hm hd
  have hunlist : (unlist name).run s = (withObject o (Container.delete (.string name) .none .none)).run s := by
    unfold unlist
    rw [Prog.run_get_bind, hm]
  exact ⟨i, m, p, hi, hdata, hunlist.trans hrun⟩

theorem unlist_listed (hd : s.metaData = some data) (h : data.contains (cstr name)) :
    ∃ s', (unlist name).run s = .ok () s' := by
  obtain ⟨i, m, p, -, rfl, hrun⟩ := unlist_run name hd
  rw [hrun, MapStorage.delete, Prog.run_bind, MapStorage.deleteRecord_spec, if_pos h]
  exact ⟨_, rfl⟩

theorem unlist_not_listed (hd : s.metaData = some data) (h : ¬ data.contains (cstr name)) :
    ∃ e, (unlist name).run s = .throws e s := by
  obtain ⟨i, m, p, hi, rfl, hrun⟩ := unlist_run name hd
  have hset : s.heap.set i ⟨.map m, p⟩ = s.heap := by
    obtain ⟨hlt, hi⟩ := List.getElem?_eq_some_iff.mp hi
    rw [← hi]
    exact List.set_getElem_self hlt
  rw [hrun, MapStorage.delete, Prog.run_bind, MapStorage.deleteRecord_spec, if_neg h]
  simp only [Outcome.mapState, hset]
  exact ⟨_, rfl⟩

theorem deleteContainer_spec (s : ContainerManager) (type name : Bytes) :
    (¬ (s.resolveAlias (s.resolveAlias type) ∈ managerByType ∧ s.storageExists (s.resolveAlias type) name) →
      ∃ e, (deleteContainer type name).run s = .throws e s) ∧
    (s.resolveAlias (s.resolveAlias type) ∈ managerByType → s.storageExists (s.resolveAlias type) name →
      (deleteContainer type name).run s =
        (unlist name).run { s with containers := s.containers.erase (generateName (s.resolveAlias type) name) }) := by
  unfold deleteContainer
  rw [Prog.run_get_bind]
  dsimp only
  constructor
  · intro h
    obtain ⟨e, hg⟩ | ⟨hmem, hg⟩ := getStorageManagerByType_cases (s.resolveAlias type) s
    · exact ⟨e, Prog.run_bind_throws _ _ hg⟩
    · have hex : ¬ s.storageExists (s.resolveAlias type) name := fun hex => h ⟨hmem, hex⟩
      refine ⟨invalidArgument "no such data container", ?_⟩
      rw [Prog.run_bind_ok _ _ hg]
      exact Prog.run_bind_throws _ _ (by simp [deleteStorage, Prog.run_bind, hex])
  · intro hmem hex
    obtain ⟨e, hg⟩ | ⟨-, hg⟩ := getStorageManagerByType_cases (s.resolveAlias type) s
    · unfold getStorageManagerByType at hg
      simp [hmem] at hg
    · have hdel : (deleteStorage (s.resolveAlias type) name).run s =
          .ok () { s with containers := s.containers.erase (generateName (s.resolveAlias type) name) } := by
        simp [deleteStorage, Prog.run_bind, hex]
      rw [Prog.run_bind_ok _ _ hg, Prog.run_bind_ok _ _ hdel]

/-- A delete that throws leaves both tables as they were. -/
def DeletesOrLeaves (s : ContainerManager) (type name : Bytes) : Prop :=
  ∀ e s', (deleteContainer type name).run s = .throws e s' → s'.containers = s.containers ∧ s'.metaData = s.metaData

/-- In every state that is reached: a delete that throws leaves both tables alone exactly if there was no such storage,
or its name is listed. -/
theorem failed_delete_iff {aliases : List (Bytes × Bytes)} {s₀ s : ContainerManager} {as : List Step}
    (hsetup : (setupContainerManager aliases).run {} = .ok () s₀) (hnames : Meets step Named s₀ as)
    (hrun : run step s₀ as = some s) (type name : Bytes) :
    s.DeletesOrLeaves type name ↔
      (s.resolveAlias (s.resolveAlias type) ∈ managerByType → s.storageExists (s.resolveAlias type) name →
        (s.listed (cstr name)).isSome) := by
  obtain ⟨data, hd⟩ := (run_keeps step_ordered (setup_ordered hsetup) hnames hrun).metaData
  have hlisted : (s.listed (cstr name)).isSome ↔ data.contains (cstr name) := by
    rw [listed, hd, Option.bind_some, Option.isSome_map, Std.ExtTreeMap.contains_eq_isSome_getElem?]
  obtain ⟨hmissing, hfound⟩ := deleteContainer_spec s type name
  rw [hlisted]
  constructor
  · intro h hmem hex
    by_contra hnot
    obtain ⟨e, he⟩ := unlist_not_listed
      (s := { s with containers := s.containers.erase (generateName (s.resolveAlias type) name) }) hd hnot
    obtain ⟨hsame, -⟩ := h e _ ((hfound hmem hex).trans he)
    -- the entry is gone
    unfold storageExists at hex
    rw [← hsame] at hex
    simp at hex
  · intro h e s' hthrows
    by_cases hboth : s.resolveAlias (s.resolveAlias type) ∈ managerByType ∧ s.storageExists (s.resolveAlias type) name
    · obtain ⟨s₁, hs₁⟩ := unlist_listed
        (s := { s with containers := s.containers.erase (generateName (s.resolveAlias type) name) }) hd
        (h hboth.1 hboth.2)
      cases hthrows.symm.trans ((hfound hboth.1 hboth.2).trans hs₁)
    · obtain ⟨e', he'⟩ := hmissing hboth
      cases hthrows.symm.trans he'
      exact ⟨rfl, rfl⟩

theorem failed_delete_twice :
    ∃ s₀ s, (setupContainerManager []).run {} = .ok () s₀ ∧
      run step s₀ [.create volatileList (ascii "x"), .delete volatileList (ascii "x")] = some s ∧
      s.DeletesOrLeaves volatileList (ascii "x") := by
  have hmeets : Meets step Named registeredTables
      [.create volatileList (ascii "x"), .delete volatileList (ascii "x")] := by
    decide
  refine ⟨registeredTables, _, rfl, rfl,
    (@failed_delete_iff [] registeredTables _ _ rfl hmeets rfl volatileList (ascii "x")).mpr ?_⟩
  decide

/-- A list and a map of one name, of which only one is listed. -/
theorem delete_of_unlisted :
    ∃ s₀ s, (setupContainerManager []).run {} = .ok () s₀ ∧
      run step s₀ [.create volatileList (ascii "x"), .release 2, .create volatileMap (ascii "x"),
        .delete volatileList (ascii "x")] = some s ∧
      ¬ s.DeletesOrLeaves volatileMap (ascii "x") := by
  refine ⟨_, _, rfl, rfl, fun h => ?_⟩
  obtain ⟨hcontainers, -⟩ := h _ _ rfl
  have hkeys := congrArg (fun t : StringMap StorageInfoEx => t.contains (generateName volatileMap (ascii "x"))) hcontainers
  revert hkeys
  decide

end ContainerManager

end Tiodb
