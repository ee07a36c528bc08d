import Tiodb.Server.Registry
import Tiodb.Server.Sessions

/-!
# The handle table of a session

`handles_` has the container of each handle, `containerNameToHandle_` the handle of each
name. One is filled under the name that was asked for, and both are emptied under the
name that the container says it has. Here they stand beside the container manager, so
that a container is what a call returned and lives as long as somebody holds it.
-/

namespace Tiodb

open Lib

structure HandleTable (C : Type) where
  handles : Std.ExtTreeMap UInt32 C := ∅
  containerNameToHandle : StringMap UInt32 := ∅
  lastHandle : UInt32 := 0

namespace HandleTable

variable {C : Type}

def registerContainer (t : HandleTable C) (containerName : Bytes) (container : C) : UInt32 × HandleTable C :=
  match t.containerNameToHandle[containerName]? with
  | some handle => (handle, t)
  | none =>
    let handle := t.lastHandle + 1
    (handle, {
      handles := t.handles.insertIfNew handle container
      containerNameToHandle := t.containerNameToHandle.insert containerName handle
      lastHandle := handle })

def getRegisteredContainer (t : HandleTable C) (handle : UInt32) : Option C := t.handles[handle]?

def closeContainerHandle (getName : C → Bytes) (t : HandleTable C) (handle : UInt32) : Option (HandleTable C) :=
  t.handles[handle]?.map fun container =>
    { t with
      containerNameToHandle := t.containerNameToHandle.erase (getName container)
      handles := t.handles.erase handle }

end HandleTable

/-! ## The table of a `Session` -/

namespace Session

def table (s : Session) : HandleTable UInt64 := ⟨s.handles, s.containerNameToHandle, s.lastHandle⟩

theorem registerContainer_table (s : Session) (containerName : Bytes) (container : UInt64) :
    s.table.registerContainer containerName container =
      ((s.registerContainer containerName container).1, (s.registerContainer containerName container).2.table) := by
  have hname : s.table.containerNameToHandle = s.containerNameToHandle := rfl
  unfold registerContainer HandleTable.registerContainer
  rw [hname]
  cases s.containerNameToHandle[containerName]? <;> rfl

theorem closeContainerHandle_table (s : Session) (getName : UInt64 → Bytes) (handle : UInt32) :
    s.table.closeContainerHandle getName handle = (s.closeContainerHandle getName handle).map table := by
  have hhandles : s.table.handles = s.handles := rfl
  unfold closeContainerHandle HandleTable.closeContainerHandle
  rw [hhandles]
  cases s.handles[handle]? <;> rfl

end Session

/-! ## Two tables in step -/

namespace HandleTable

variable {C : Type}

/-- Handles and names are paired, and the container of a name's handle is the one that the name has now. -/
structure Paired (t : HandleTable C) (current : Bytes → Option C) : Prop where
  named : ∀ (h : UInt32) (c : C), t.handles[h]? = some c → ∃ n : Bytes, t.containerNameToHandle[n]? = some h
  live : ∀ (n : Bytes) (h : UInt32), t.containerNameToHandle[n]? = some h →
    ∃ c, t.handles[h]? = some c ∧ current n = some c
  distinct : ∀ (n n' : Bytes) (h : UInt32), t.containerNameToHandle[n]? = some h →
    t.containerNameToHandle[n']? = some h → n = n'

/-- The name has a handle, or the next handle is not in use. -/
def Free (t : HandleTable C) (n : Bytes) : Prop :=
  t.containerNameToHandle.contains n ∨ ¬ t.handles.contains (t.lastHandle + 1)

instance (t : HandleTable C) (n : Bytes) : Decidable (t.Free n) := inferInstanceAs (Decidable (_ ∨ _))

variable {t t' : HandleTable C} {current current' : Bytes → Option C} {n : Bytes} {c : C} {h : UInt32}

theorem paired_empty (current : Bytes → Option C) : Paired {} current where
  named := by
    intro h c hc
    rw [Std.ExtTreeMap.getElem?_empty] at hc
    cases hc
  live := by
    intro n h hn
    rw [Std.ExtTreeMap.getElem?_empty] at hn
    cases hn
  distinct := by
    intro n n' h hn
    rw [Std.ExtTreeMap.getElem?_empty] at hn
    cases hn

theorem Paired.mono (hp : t.Paired current)
    (hsame : ∀ (n : Bytes) (c : C), (∃ h : UInt32, t.containerNameToHandle[n]? = some h ∧ t.handles[h]? = some c) →
      current n = some c → current' n = some c) : t.Paired current' where
  named := hp.named
  live := by
    intro n h hn
    obtain ⟨c, hc, hcur⟩ := hp.live n h hn
    exact ⟨c, hc, hsame n c ⟨h, hn, hc⟩ hcur⟩
  distinct := hp.distinct

theorem Paired.registerContainer (hp : t.Paired current) (hc : current n = some c) (hfree : t.Free n) :
    (t.registerContainer n c).2.Paired current ∧
      (t.registerContainer n c).2.getRegisteredContainer (t.registerContainer n c).1 = some c := by
  unfold HandleTable.registerContainer getRegisteredContainer
  cases hn : t.containerNameToHandle[n]? with
  | some h =>
    obtain ⟨c', hc', hcur⟩ := hp.live n h hn
    obtain rfl := Option.some.inj (hc.symm.trans hcur)
    exact ⟨hp, hc'⟩
  | none =>
    have hunused : t.lastHandle + 1 ∉ t.handles := by
      rw [Free, Std.ExtTreeMap.contains_eq_isSome_getElem?, hn] at hfree
      simpa using hfree
    have hhandles (h : UInt32) : (t.handles.insertIfNew (t.lastHandle + 1) c)[h]? =
        if h = t.lastHandle + 1 then some c else t.handles[h]? := by
      rw [Std.ExtTreeMap.getElem?_insertIfNew]
      by_cases hh : h = t.lastHandle + 1
      · rw [if_pos hh, if_pos ⟨Std.compare_eq_iff_eq.mpr hh.symm, hunused⟩]
      · rw [if_neg hh, if_neg fun he => hh (Std.compare_eq_iff_eq.mp he.1).symm]
    have hold {n' : Bytes} {h : UInt32} (hn' : t.containerNameToHandle[n']? = some h) : h ≠ t.lastHandle + 1 := by
      rintro rfl
      obtain ⟨c', hc', -⟩ := hp.live n' _ hn'
      exact hunused (by rw [Std.ExtTreeMap.mem_iff_isSome_getElem?, hc']; rfl)
    dsimp only
    refine ⟨⟨?_, ?_, ?_⟩, by rw [hhandles, if_pos rfl]⟩
    · intro h c' hc'
      rw [hhandles] at hc'
      split at hc'
      · exact ⟨n, by subst h; exact Std.ExtTreeMap.getElem?_insert_self⟩
      · obtain ⟨n', hn'⟩ := hp.named h c' hc'
        refine ⟨n', (insert_of_ne _ _ ?_).trans hn'⟩
        rintro rfl
        cases hn.symm.trans hn'
    · intro n' h hn'
      rw [hhandles]
      obtain ⟨rfl, rfl⟩ | ⟨-, hn'⟩ := insert_cases hn'
      · exact ⟨c, if_pos rfl, hc⟩
      · obtain ⟨c', hc', hcur⟩ := hp.live n' h hn'
        exact ⟨c', (if_neg (hold hn')).trans hc', hcur⟩
    · intro n₁ n₂ h h₁ h₂
      obtain ⟨he₁, hnew₁⟩ | ⟨-, hold₁⟩ := insert_cases h₁ <;> obtain ⟨he₂, hnew₂⟩ | ⟨-, hold₂⟩ := insert_cases h₂
      · exact he₁.trans he₂.symm
      · exact absurd hnew₁ (hold hold₂)
      · exact absurd hnew₂ (hold hold₁)
      · exact hp.distinct n₁ n₂ h hold₁ hold₂

theorem Paired.closeContainerHandle {getName : C → Bytes} (hp : t.Paired current) (hc : t.handles[h]? = some c)
    (hown : t.containerNameToHandle[getName c]? = some h) (ht : t.closeContainerHandle getName h = some t') :
    t'.Paired current := by
  unfold HandleTable.closeContainerHandle at ht
  rw [hc, Option.map_some, Option.some_inj] at ht
  subst ht
  refine ⟨?_, ?_, ?_⟩
  · intro h' c' hc'
    obtain ⟨hne, hc'⟩ := erase_some hc'
    obtain ⟨n, hn⟩ := hp.named h' c' hc'
    refine ⟨n, (erase_of_ne _ ?_).trans hn⟩
    rintro rfl
    exact hne (Option.some.inj (hn.symm.trans hown))
  · intro n h' hn
    obtain ⟨hne, hn⟩ := erase_some hn
    obtain ⟨c', hc', hcur⟩ := hp.live n h' hn
    refine ⟨c', (erase_of_ne _ ?_).trans hc', hcur⟩
    rintro rfl
    exact hne (hp.distinct n (getName c) _ hn hown)
  · intro n n' h' hn hn'
    exact hp.distinct n n' h' (erase_some hn).2 (erase_some hn').2

end HandleTable

/-! ## The objects of the names -/

namespace ContainerManager

open Prog

/-- What makes an object for the name, and leaves the objects of the other names. -/
def Names (name : Bytes) (x : ManagerM Nat) : Prop :=
  ∀ s, match x.run s with
    | .ok o s' => s'.openContainers = s.openContainers.insert name o
    | .throws _ s' => s'.openContainers = s.openContainers
    | .undefined => True

theorem newObject_names (name : Bytes) (storage : Nat) : Names name (newObject name storage) := fun _ => rfl

theorem Names.after {α : Type} {name : Bytes} {x : ManagerM α} {f : α → ManagerM Nat} (hx : Keeps openContainers x)
    (hf : ∀ a, Names name (f a)) : Names name (x >>= f) := by
  intro s
  rw [run_bind]
  cases hr : x.run s with
  | ok a t =>
    have ht : t.openContainers = s.openContainers := hx s t (by rw [hr]; rfl)
    have hnames := hf a t
    rw [ht] at hnames
    exact hnames
  | throws e t => exact hx s t (by rw [hr]; rfl)
  | undefined => trivial

theorem subscribe_keeps (i : Nat) : Keeps openContainers (subscribe i) := keeps_modify fun _ => rfl

theorem withObject_keeps {α : Type} (o : Nat) (x : Container.ContainerM α) : Keeps openContainers (withObject o x) := by
  intro s s' h
  unfold withObject at h
  dsimp only at h
  split at h
  · cases h
  · split at h
    · cases h
    · rw [Outcome.mapState_next] at h
      obtain ⟨c, -, rfl⟩ := Option.map_eq_some_iff.mp h
      rfl

theorem getStorageManagerByType_keeps (type : Bytes) : Keeps openContainers (getStorageManagerByType type) := by
  refine reads_get.keeps _ |>.bind fun s => ?_
  dsimp only
  split
  · exact (reads_pure _).keeps _
  · exact (reads_throw _).keeps _

theorem createStorage_keeps (type name : Bytes) : Keeps openContainers (createStorage type name) := by
  unfold createStorage
  split
  · exact (reads_throw _).keeps _
  · refine reads_get.keeps _ |>.bind fun s => ?_
    split
    · exact (subscribe_keeps _).bind fun _ => (reads_pure _).keeps _
    · refine reads_get.keeps _ |>.bind fun s => ?_
      refine Keeps.bind (keeps_modify fun _ => rfl) fun _ => ?_
      exact (subscribe_keeps _).bind fun _ => (reads_pure _).keeps _

theorem openStorage_keeps (type name : Bytes) : Keeps openContainers (openStorage type name) := by
  unfold openStorage
  split
  · exact (reads_throw _).keeps _
  · refine reads_get.keeps _ |>.bind fun s => ?_
    split
    · exact (reads_throw _).keeps _
    · exact (subscribe_keeps _).bind fun _ => (reads_pure _).keeps _

theorem listType_keeps (type name : Bytes) : Keeps openContainers (listType type name) := by
  refine reads_get.keeps _ |>.bind fun s => ?_
  split
  · exact withObject_keeps _ _
  · exact (reads_pure _).keeps _

theorem typeToOpen_keeps (type name : Bytes) : Keeps openContainers (typeToOpen type name) := by
  unfold typeToOpen
  split
  · refine reads_get.keeps _ |>.bind fun s => ?_
    split
    · exact (withObject_keeps _ _).bind fun _ => (reads_ofExcept _).keeps _
    · exact reads_undefined.keeps _
  · exact (reads_pure _).keeps _

theorem create_names (type name : Bytes) : Names name (create type name) :=
  .after (getStorageManagerByType_keeps type) fun _ =>
    .after (createStorage_keeps type name) fun storage =>
      .after (listType_keeps type name) fun _ => newObject_names name storage

theorem openExisting_names (type name : Bytes) : Names name (openExisting type name) :=
  .after (typeToOpen_keeps type name) fun type =>
    .after (getStorageManagerByType_keeps type) fun _ =>
      .after (openStorage_keeps type name) fun storage => newObject_names name storage

theorem deleteContainer_keeps (type name : Bytes) : Keeps openContainers (deleteContainer type name) := by
  refine reads_get.keeps _ |>.bind fun s => ?_
  refine (getStorageManagerByType_keeps _).bind fun _ => .bind ?_ fun _ => ?_
  · refine reads_get.keeps _ |>.bind fun s => ?_
    split
    · exact keeps_modify fun _ => rfl
    · exact (reads_throw _).keeps _
  · refine reads_get.keeps _ |>.bind fun s => ?_
    split
    · exact withObject_keeps _ _
    · exact reads_undefined.keeps _

/-- The object of the name that somebody holds, or a new one. -/
def Finds (name : Bytes) (x : ManagerM Nat) : Prop :=
  ∀ s, match x.run s with
    | .ok o s' => s.openObject name = some o ∧ s'.openContainers = s.openContainers ∨
        s.openObject name = none ∧ s'.openContainers = s.openContainers.insert name o
    | .throws _ s' => s'.openContainers = s.openContainers
    | .undefined => True

theorem finds_of_names {name : Bytes} {x : ManagerM Nat} {y : ContainerManager → ManagerM Nat}
    (hy : ∀ s, Names name (y s))
    (hx : ∀ s, x.run s = match s.openObject name with | some o => .ok o s | none => (y s).run s) :
    Finds name x := by
  intro s
  rw [hx]
  cases ho : s.openObject name with
  | some o => exact .inl ⟨rfl, rfl⟩
  | none =>
    have hnames := hy s s
    dsimp only
    cases hr : (y s).run s with
    | ok o s' =>
      rw [hr] at hnames
      exact .inr ⟨rfl, hnames⟩
    | throws e s' =>
      rw [hr] at hnames
      exact hnames
    | undefined => trivial

theorem createContainer_finds (type name : Bytes) : Finds name (createContainer type name) :=
  finds_of_names (fun s => create_names (s.resolveAlias type) name) (createContainer_run type name)

theorem openContainer_finds (type name : Bytes) : Finds name (openContainer type name) :=
  finds_of_names (fun s => openExisting_names (s.resolveAlias type) name) (openContainer_run type name)

end ContainerManager

/-! ## A session beside the manager -/

/-- One session that is valid, and the container manager. The manager's `held` are the pointers of the others: the
other clients and the groups. `returned` is history: the handle that the last step registered, with the container
that it passed. -/
structure HandleWorld where
  manager : ContainerManager
  table : HandleTable Nat := {}
  returned : Option (UInt32 × Nat) := none

namespace HandleWorld

inductive Step where
  | createContainer (type name : Bytes)
  | openContainer (type name : Bytes)
  -- somebody adds a container to a group that the session is subscribed to
  | groupAdd (containerName : Bytes) (kept : Bool)
  -- one container of a group that the session subscribes to
  | groupSubscribe (container : Nat)
  | closeContainerHandle (handle : UInt32)
  | others (a : ContainerManager.Step)
  deriving DecidableEq, Repr

/-- The manager, with the pointers of the session too. -/
def loaded (w : HandleWorld) : ContainerManager :=
  { w.manager with held := w.table.handles.toList.map Prod.snd ++ w.manager.held }

/-- After a call of the manager. -/
def back (w : HandleWorld) (s : ContainerManager) : HandleWorld :=
  { w with manager := { s with held := w.manager.held }, returned := none }

def called (w : HandleWorld) (f : Nat → HandleWorld → HandleWorld) :
    Outcome Exc ContainerManager Nat → Option HandleWorld
  | .ok o s => some (f o (w.back s))
  | .throws _ s => some (w.back s)
  | .undefined => none

def hold (o : Nat) (w : HandleWorld) : HandleWorld :=
  { w with manager := { w.manager with held := o :: w.manager.held } }

def register (name : Bytes) (o : Nat) (w : HandleWorld) : HandleWorld :=
  let r := w.table.registerContainer name o
  { w with table := r.2, returned := some (r.1, o) }

def getName (w : HandleWorld) (o : Nat) : Bytes := ((w.manager.containerOf o).map Container.getName).getD []

def step (w : HandleWorld) : Step → Option HandleWorld
  | .createContainer type name =>
    w.called (register name) ((ContainerManager.createContainer type name).run w.loaded)
  | .openContainer type name => w.called (register name) ((ContainerManager.openContainer type name).run w.loaded)
  | .groupAdd containerName kept =>
    w.called (fun o w => (if kept then w.hold o else w).register containerName o)
      ((ContainerManager.openContainer [] containerName).run w.loaded)
  | .groupSubscribe o => if o ∈ w.manager.held then some (w.register (w.getName o) o) else none
  | .closeContainerHandle handle =>
    -- an invalid handle is answered with an error
    some { w with table := (w.table.closeContainerHandle w.getName handle).getD w.table, returned := none }
  | .others (.create type name) => w.called hold ((ContainerManager.createContainer type name).run w.loaded)
  | .others (.open type name) => w.called hold ((ContainerManager.openContainer type name).run w.loaded)
  | .others (.delete type name) => ((ContainerManager.deleteContainer type name).run w.loaded).next.map w.back
  | .others (.release o) =>
    if o ∈ w.manager.held then
      some { w with manager := { w.manager with held := w.manager.held.erase o }, returned := none }
    else none

def start (s : ContainerManager) : HandleWorld := { manager := s }

/-- A new handle is not in use, a container of a group is the one that the manager has open under its name, and a
handle that is closed is the one that the table has under its container's name. -/
def Careful (w : HandleWorld) : Step → Prop
  | .createContainer _ name | .openContainer _ name | .groupAdd name _ => w.table.Free name
  | .groupSubscribe o => w.manager.openContainers[w.getName o]? = some o ∧ w.table.Free (w.getName o)
  | .closeContainerHandle handle =>
    ∀ o ∈ w.table.handles[handle]?, w.table.containerNameToHandle[w.getName o]? = some handle
  | .others _ => True

instance (w : HandleWorld) : DecidablePred (Careful w)
  | .createContainer _ name | .openContainer _ name | .groupAdd name _ =>
    inferInstanceAs (Decidable (w.table.Free name))
  | .groupSubscribe _ => inferInstanceAs (Decidable (_ ∧ _))
  | .closeContainerHandle handle =>
    inferInstanceAs (Decidable (∀ o ∈ w.table.handles[handle]?, _))
  | .others _ => inferInstanceAs (Decidable True)

/-- The handle that was just returned leads to the container, every handle has a name of its own, and every name has
a handle that is live. -/
structure Sound (w : HandleWorld) : Prop where
  returned : ∀ r, w.returned = some r → w.table.getRegisteredContainer r.1 = some r.2
  named : ∀ (h : UInt32) (o : Nat), w.table.handles[h]? = some o →
    ∃ n : Bytes, w.table.containerNameToHandle[n]? = some h
  live : ∀ (n : Bytes) (h : UInt32), w.table.containerNameToHandle[n]? = some h →
    ∃ o, w.table.handles[h]? = some o

/-- The container of a name's handle is the object that the manager has under the name. -/
structure Inv (w : HandleWorld) : Prop where
  paired : w.table.Paired (w.manager.openContainers[·]?)
  returned : ∀ r, w.returned = some r → w.table.getRegisteredContainer r.1 = some r.2

theorem Inv.sound {w : HandleWorld} (hw : w.Inv) : w.Sound where
  returned := hw.returned
  named := hw.paired.named
  live := by
    intro n h hn
    obtain ⟨o, ho, -⟩ := hw.paired.live n h hn
    exact ⟨o, ho⟩

variable {w w' : HandleWorld} {name : Bytes} {o : Nat}

theorem Inv.openObject (hw : w.Inv) {h : UInt32} (hn : w.table.containerNameToHandle[name]? = some h)
    (ho : w.table.handles[h]? = some o) : w.loaded.openObject name = some o := by
  obtain ⟨o', ho', hcur⟩ := hw.paired.live name h hn
  obtain rfl := Option.some.inj (ho.symm.trans ho')
  have hmem : o ∈ w.table.handles.toList.map Prod.snd :=
    List.mem_map.mpr ⟨(h, o), Std.ExtTreeMap.mem_toList_iff_getElem?_eq_some.mpr ho, rfl⟩
  unfold ContainerManager.openObject
  refine Option.filter_eq_some_iff.mpr ⟨hcur, ?_⟩
  have hheld : o ∈ w.loaded.held := List.mem_append_left _ hmem
  simp [ContainerManager.expired, hheld]

theorem Inv.paired_called (hw : w.Inv) {x : ContainerManager.ManagerM Nat} (hx : ContainerManager.Finds name x)
    {s' : ContainerManager} (hr : (x.run w.loaded) = .ok o s') :
    w.table.Paired (s'.openContainers[·]?) ∧ s'.openContainers[name]? = some o := by
  have hfinds := hx w.loaded
  rw [hr] at hfinds
  obtain ⟨hobject, hsame⟩ | ⟨hnone, hinsert⟩ := hfinds
  · have hopen : w.loaded.openContainers = w.manager.openContainers := rfl
    have hname := (Option.filter_eq_some_iff.mp hobject).1
    rw [hsame]
    exact ⟨hopen ▸ hw.paired, hname⟩
  · rw [hinsert]
    refine ⟨hw.paired.mono ?_, Std.ExtTreeMap.getElem?_insert_self⟩
    rintro n c ⟨h, hn, hc⟩ hcur
    refine (insert_of_ne _ _ ?_).trans hcur
    rintro rfl
    cases hnone.symm.trans (hw.openObject hn hc)

theorem Inv.paired_throws (hw : w.Inv) {x : ContainerManager.ManagerM Nat} (hx : ContainerManager.Finds name x)
    {e : Exc} {s' : ContainerManager} (hr : (x.run w.loaded) = .throws e s') :
    w.table.Paired (s'.openContainers[·]?) := by
  have hfinds := hx w.loaded
  rw [hr] at hfinds
  have hsame : s'.openContainers = w.manager.openContainers := hfinds
  rw [hsame]
  exact hw.paired

theorem inv_register (hp : w.table.Paired (w.manager.openContainers[·]?))
    (ho : w.manager.openContainers[name]? = some o) (hfree : w.table.Free name) : (w.register name o).Inv := by
  obtain ⟨hpaired, hreturned⟩ := hp.registerContainer (c := o) ho hfree
  refine ⟨hpaired, fun r hr => ?_⟩
  obtain rfl := Option.some.inj hr
  exact hreturned

theorem Inv.called (hw : w.Inv) {x : ContainerManager.ManagerM Nat} (hx : ContainerManager.Finds name x)
    {f : Nat → HandleWorld → HandleWorld}
    (hf : ∀ o v, v.table = w.table → v.returned = none → v.table.Paired (v.manager.openContainers[·]?) →
      v.manager.openContainers[name]? = some o → (f o v).Inv)
    (hs : w.called f (x.run w.loaded) = some w') : w'.Inv := by
  cases hr : x.run w.loaded with
  | ok o s' =>
    rw [hr] at hs
    obtain rfl := Option.some.inj hs
    obtain ⟨hpaired, hname⟩ := hw.paired_called hx hr
    exact hf o (w.back s') rfl rfl hpaired hname
  | throws e s' =>
    rw [hr] at hs
    obtain rfl := Option.some.inj hs
    have hp := hw.paired_throws hx hr
    exact ⟨hp, fun _ h => by cases h⟩
  | undefined =>
    rw [hr] at hs
    cases hs

theorem inv_step (w : HandleWorld) (a : Step) (w' : HandleWorld) (hw : w.Inv) (ha : w.Careful a)
    (hs : w.step a = some w') : w'.Inv := by
  cases a with
  | createContainer type name =>
    refine hw.called (ContainerManager.createContainer_finds type name) ?_ hs
    intro o v hv _ hp ho
    exact inv_register hp ho (hv ▸ ha)
  | openContainer type name =>
    refine hw.called (ContainerManager.openContainer_finds type name) ?_ hs
    intro o v hv _ hp ho
    exact inv_register hp ho (hv ▸ ha)
  | groupAdd name kept =>
    refine hw.called (ContainerManager.openContainer_finds [] name)
      (f := fun o v => (if kept then v.hold o else v).register name o) ?_ hs
    intro o v hv _ hp ho
    have hfree : v.table.Free name := hv ▸ ha
    cases kept with
    | true => exact inv_register (w := v.hold o) hp ho hfree
    | false => exact inv_register hp ho hfree
  | groupSubscribe o =>
    rw [step] at hs
    split at hs
    · obtain rfl := Option.some.inj hs
      exact inv_register hw.paired ha.1 ha.2
    · cases hs
  | closeContainerHandle handle =>
    obtain rfl := Option.some.inj hs
    refine ⟨?_, fun _ h => by cases h⟩
    cases ho : w.table.handles[handle]? with
    | none =>
      have hclose : w.table.closeContainerHandle w.getName handle = none := by
        rw [HandleTable.closeContainerHandle, ho]
        rfl
      dsimp only
      rw [hclose]
      exact hw.paired
    | some o =>
      obtain ⟨t, ht⟩ : ∃ t, w.table.closeContainerHandle w.getName handle = some t := by
        rw [HandleTable.closeContainerHandle, ho]
        exact ⟨_, rfl⟩
      dsimp only
      rw [ht]
      exact hw.paired.closeContainerHandle ho (ha o ho) ht
  | others a =>
    cases a with
    | create type name =>
      refine hw.called (ContainerManager.createContainer_finds type name) (f := hold) ?_ hs
      intro o v _ hreturned hp _
      exact ⟨hp, fun r hr => by cases hreturned.symm.trans hr⟩
    | «open» type name =>
      refine hw.called (ContainerManager.openContainer_finds type name) (f := hold) ?_ hs
      intro o v _ hreturned hp _
      exact ⟨hp, fun r hr => by cases hreturned.symm.trans hr⟩
    | delete type name =>
      obtain ⟨s', hs', rfl⟩ := Option.map_eq_some_iff.mp hs
      have hsame : s'.openContainers = w.manager.openContainers :=
        ContainerManager.deleteContainer_keeps type name w.loaded s' hs'
      refine ⟨?_, fun _ h => by cases h⟩
      change w.table.Paired (s'.openContainers[·]?)
      rw [hsame]
      exact hw.paired
    | release o =>
      rw [step] at hs
      split at hs
      · obtain rfl := Option.some.inj hs
        exact ⟨hw.paired, fun _ h => by cases h⟩
      · cases hs

/-- A close that is not careful leaves the name of the handle behind. -/
theorem Inv.careful_of_close (hw : w.Inv) {handle : UInt32} (hs : w.step (.closeContainerHandle handle) = some w')
    (hsound : w'.Sound) : w.Careful (.closeContainerHandle handle) := by
  intro o ho
  obtain rfl := Option.some.inj hs
  have hclose : w.table.closeContainerHandle w.getName handle = some { w.table with
      containerNameToHandle := w.table.containerNameToHandle.erase (w.getName o)
      handles := w.table.handles.erase handle } := by
    rw [HandleTable.closeContainerHandle, ho]
    rfl
  have hlive := hsound.live
  dsimp only at hlive
  rw [hclose] at hlive
  obtain ⟨n, hn⟩ := hw.paired.named handle o ho
  by_cases hname : w.getName o = n
  · rw [hname]
    exact hn
  · obtain ⟨o', ho'⟩ := hlive n handle ((erase_of_ne _ hname).trans hn)
    rw [Option.getD_some, Std.ExtTreeMap.getElem?_erase_self] at ho'
    cases ho'

theorem inv_start (s : ContainerManager) : (start s).Inv :=
  ⟨HandleTable.paired_empty _, fun _ h => by cases h⟩

/-- In every run whose steps are careful. -/
theorem handles_sound {s : ContainerManager} {as : List Step} {w : HandleWorld}
    (hcareful : Meets step Careful (start s) as) (hrun : run step (start s) as = some w) : w.Sound :=
  (run_keeps inv_step (inv_start s) hcareful hrun).sound

/-- A name is closed, deleted and created again; another comes from a group, and is opened too. -/
theorem handles_sound_groups :
    let a := ascii "a"
    let b := ascii "b"
    ∃ s w, (ContainerManager.setupContainerManager []).run {} = .ok () s ∧
      run step (start s) [.createContainer ContainerManager.volatileList a,
        .others (.create ContainerManager.volatileMap b), .groupSubscribe 3, .closeContainerHandle 1,
        .others (.delete ContainerManager.volatileList a), .createContainer ContainerManager.volatileMap a,
        .groupAdd b true, .openContainer [] a] = some w ∧
      w.returned = some (3, 4) ∧ w.Sound := by
  intro a b
  have hrun : ((run step (start ContainerManager.registeredTables) [.createContainer ContainerManager.volatileList a,
      .others (.create ContainerManager.volatileMap b), .groupSubscribe 3, .closeContainerHandle 1,
      .others (.delete ContainerManager.volatileList a), .createContainer ContainerManager.volatileMap a,
      .groupAdd b true, .openContainer [] a]).map HandleWorld.returned) = some (some (3, 4)) := by
    decide +kernel
  obtain ⟨w, hw, hreturned⟩ := Option.map_eq_some_iff.mp hrun
  exact ⟨ContainerManager.registeredTables, w, rfl, hw, hreturned, handles_sound (by decide +kernel) hw⟩

/-- A container that is created without a name says that it has one. -/
theorem dead_handle_returned :
    ∃ s w w', (ContainerManager.setupContainerManager []).run {} = .ok () s ∧
      run step (start s) [.createContainer ContainerManager.volatileList [], .closeContainerHandle 1] = some w ∧
      ¬ w.Sound ∧
      w.step (.createContainer ContainerManager.volatileList []) = some w' ∧ w'.returned = some (1, 3) ∧
      w'.table.getRegisteredContainer 1 = none ∧ ¬ w'.Sound := by
  have hrun : ((run step (start ContainerManager.registeredTables) [.createContainer ContainerManager.volatileList [],
      .closeContainerHandle 1]).bind fun w => (w.step (.createContainer ContainerManager.volatileList [])).map fun w' =>
        (w.table.containerNameToHandle[([] : Bytes)]?, w.table.handles[(1 : UInt32)]?, w'.returned,
          w'.table.handles[(1 : UInt32)]?)) = some (some 1, none, some (1, 3), none) := by
    decide +kernel
  obtain ⟨w, hw, hstep⟩ := Option.bind_eq_some_iff.mp hrun
  obtain ⟨w', hw', hview⟩ := Option.map_eq_some_iff.mp hstep
  simp only [Prod.mk.injEq] at hview
  obtain ⟨hname, hdead, hreturned, hdead'⟩ := hview
  refine ⟨ContainerManager.registeredTables, w, w', rfl, hw, fun hsound => ?_, hw', hreturned, hdead', fun hsound => ?_⟩
  · obtain ⟨o, ho⟩ := hsound.live [] 1 hname
    cases hdead.symm.trans ho
  · cases hdead'.symm.trans (hsound.returned _ hreturned)

end HandleWorld

end Tiodb
