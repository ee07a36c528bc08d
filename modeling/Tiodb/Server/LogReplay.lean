import Tiodb.Server.QuietManager
import Tiodb.Server.Registry

/-!
# What the replay of a log rebuilds

The log has the key and the value of each command that was carried out, and not
its metadata: the reader skips the last field of a line. A server and the replay of
its log go side by side, one line at a time, as long as no step needs what a line
cannot hold or what the replay does not read.
-/

namespace Tiodb

open Lib

variable (doubles : DoubleText)

/-! ## The lines of a file -/

namespace TioLogParser

theorem splitOn_lines {ls : List Bytes} (h : ∀ l ∈ ls, 10 ∉ l) :
    (ls.flatMap (· ++ [10])).splitOn 10 = ls ++ [[]] := by
  induction ls with
  | nil => rfl
  | cons l ls ih =>
    have hflat : (l :: ls).flatMap (· ++ [10]) = l ++ 10 :: ls.flatMap (· ++ [10]) := by simp
    rw [hflat, List.splitOn_append_cons_self_of_not_mem (h l (by simp)), ih fun l hl => h l (by simp [hl])]
    rfl

theorem lines_of_lines {ls : List Bytes} (h : ∀ l ∈ ls, 10 ∉ l) : lines (ls.flatMap (· ++ [10])) = ls := by
  unfold lines
  rw [splitOn_lines h]
  simp

theorem ofLogName_logName (code : CommandCode) : CommandCode.ofLogName code.logName = some code := by
  cases code <;> decide

theorem logName_ne (code : CommandCode) : code.logName ≠ ascii "create" ∧ code.logName ≠ ascii "group_add" := by
  cases code <;> decide

theorem onLine_of_ofLine {r : TioLogParser} {line : Bytes} {log : LogEntry}
    (h : LogEntry.ofLine doubles line = some log) : r.onLine doubles line = r.onLogEntry doubles log := by
  have hline : line ≠ [13] := by
    rintro rfl
    cases h
  unfold onLine
  rw [if_neg hline, h]
  rfl

end TioLogParser

/-! ## The server that writes -/

namespace ContainerManager

def stored (s : ContainerManager) (type name : Bytes) : Option Container :=
  (s.containers[generateName type name]?).bind fun info => s.heap[info.storage]?

/-- The same names with the same types, properties and records, metadata included. What was told to the sinks may
differ. -/
def SameContainers (s t : ContainerManager) : Prop :=
  ∀ type name, (s.stored type name).map Container.quiet = (t.stored type name).map Container.quiet

theorem sameContainers_of_quiet {s t : ContainerManager} (h : s.quiet = t.quiet) : s.SameContainers t := by
  intro type name
  unfold stored
  rw [(quiet_eq_iff.mp h).2.1, Option.map_bind, Option.map_bind]
  exact congrArg _ (funext fun info => quiet_heap h info.storage)

end ContainerManager

namespace BinaryServer

open ContainerManager

/-- The name of a container that a command here may ask for. -/
def Named (name : Bytes) : Prop := name ≠ [] ∧ ¬ (ascii "__").isPrefixOf name

instance : DecidablePred Named := fun _ => inferInstanceAs (Decidable (_ ∧ _))

def InScope : Step → Prop
  | .updateTime _ => True
  | .command (.create name _) => ∀ n ∈ name, Named n
  | .command (.open name _) => ∀ n ∈ name, Named n
  | .command (.data _ command) => command.key.Plain ∧ command.value.Plain ∧ command.metadata.Plain

instance : DecidablePred InScope
  | .updateTime _ => isTrue trivial
  | .command (.create _ _) => inferInstanceAs (Decidable (∀ _ ∈ _, _))
  | .command (.open _ _) => inferInstanceAs (Decidable (∀ _ ∈ _, _))
  | .command (.data _ _) => inferInstanceAs (Decidable (_ ∧ _ ∧ _))

def containerOfHandle (s : BinaryServer) (handle : UInt32) : Option Container :=
  (s.session.getRegisteredContainer handle).bind fun container => s.containerManager.containerOf container.toNat

/-- The manager makes a container of the type. -/
def creates (s : BinaryServer) (type : Bytes) : Bool :=
  let type := s.containerManager.resolveAlias type
  type ∈ managerByType && s.containerManager.resolveAlias type ∈ managerByType

/-- The step does not need what the log or the replay leaves out. `target` is the server of the replay. -/
def Survives (target : ContainerManager) (s : BinaryServer) : Step → Prop
  | .command (.create name type) =>
    -- a container that has no handle yet, and that the manager makes
    ∀ n ∈ name, s.session.containerNameToHandle[n]? = none → s.creates type →
      0 ∉ n ∧ 10 ∉ n ∧ (TioData.string n).Short ∧ s.session.lastHandle.toNat + 1 < 2 ^ 31 ∧
        target.resolveAlias (s.containerManager.resolveAlias type) = s.containerManager.resolveAlias type
  | .command (.data handle command) =>
    -- a command that does not throw
    ∀ c ∈ s.containerOfHandle handle, (command.apply c).isSome →
      (DataCommand.KeepsMetadata command.code → command.metadata = .none) ∧ command.key.Short ∧ command.value.Short
  | _ => True

instance (target : ContainerManager) (s : BinaryServer) : DecidablePred (Survives target s)
  | .updateTime _ => isTrue trivial
  | .command (.create _ _) => inferInstanceAs (Decidable (∀ _ ∈ _, _ → _ → _))
  | .command (.open _ _) => isTrue trivial
  | .command (.data _ _) => inferInstanceAs (Decidable (∀ _ ∈ _, _ → _))

/-- A name with its handle and its object, which the session holds. -/
structure Known (s : BinaryServer) (name : Bytes) (handle : UInt32) (o : Nat) : Prop where
  named : Named name
  ne_zero : handle ≠ 0
  le : handle.toNat ≤ s.session.lastHandle.toNat
  registered : s.session.handles[handle]? = some (UInt64.ofNat o)
  small : o < 2 ^ 64
  opened : s.containerManager.openContainers[name]? = some o
  held : o ∈ s.containerManager.held
  name : (s.containerManager.containerOf o).map Container.getName = some name

/-- The tables of the manager, the session and the logger agree about the names of one session. -/
structure Inv (s : BinaryServer) : Prop where
  entries : Entries s.containerManager
  metaData : s.containerManager.metaData.isSome
  objects : s.containerManager.objects.length = s.session.lastHandle.toNat + 2
  bound : s.session.lastHandle.toNat < 2 ^ 31
  names : ∀ (name : Bytes) (handle : UInt32), s.session.containerNameToHandle[name]? = some handle →
    ∃ o, s.Known name handle o
  handles : ∀ (handle : UInt32) (container : UInt64), s.session.handles[handle]? = some container →
    ∃ name : Bytes, s.session.containerNameToHandle[name]? = some handle
  stored : ∀ type name i, s.containerManager.Registered type name i → Named name →
    s.session.containerNameToHandle[name]?.isSome
  opened : ∀ (name : Bytes) (o : Nat), s.containerManager.openContainers[name]? = some o → Named name →
    s.session.containerNameToHandle[name]?.isSome
  logged : ∀ name : Bytes, s.logger.globalContainerHandle[name]? = s.session.containerNameToHandle[name]?
  lastHandle : s.logger.lastGlobalHandle = s.session.lastHandle

theorem start_eq {aliases : List (Bytes × Bytes)} {file : Option Bytes} {s : BinaryServer}
    (h : start aliases file = some s) :
    ∃ l, s = {
      containerManager := { registeredTables with aliases := l, sink := true }
      logger := { file := file } } := by
  obtain ⟨l, hl⟩ := addAliases_run aliases registeredTables
  have hsetup : (setupContainerManager aliases).run {} = .ok () { registeredTables with aliases := l } := by
    unfold setupContainerManager
    rw [Prog.run_bind_ok _ _ register_run, hl]
  unfold start at h
  rw [hsetup] at h
  exact ⟨l, (Option.some.inj h).symm⟩

theorem not_named_of_registered {l : StringMap Bytes} {type name : Bytes} {i : Nat}
    (h : Registered { registeredTables with aliases := l, sink := true } type name i) : ¬ Named name := by
  obtain ⟨rfl, -⟩ | ⟨rfl, -⟩ := registeredTables_registered.mp h
  · decide
  · decide

theorem not_named_of_opened {name : Bytes} {o : Nat} (h : registeredTables.openContainers[name]? = some o) :
    ¬ Named name := by
  obtain ⟨rfl, -⟩ | ⟨-, h⟩ := insert_cases h
  · decide
  · obtain ⟨rfl, -⟩ | ⟨-, h⟩ := insert_cases h
    · decide
    · simp at h

theorem start_inv {aliases : List (Bytes × Bytes)} {file : Option Bytes} {s : BinaryServer}
    (h : start aliases file = some s) : Inv s := by
  obtain ⟨l, rfl⟩ := start_eq h
  have hconsistent : Consistent [] registeredTables := registeredTables_consistent (by decide)
  exact {
    entries := hconsistent.entries
    metaData := rfl
    objects := rfl
    bound := Nat.two_pow_pos 31
    names := fun name handle hname => by simp at hname
    handles := fun handle container hhandle => by simp at hhandle
    stored := fun type name i hreg hnamed => absurd hnamed (not_named_of_registered hreg)
    opened := fun name o hopened hnamed => absurd hnamed (not_named_of_opened hopened)
    logged := fun name => rfl
    lastHandle := rfl }

variable {s s' : BinaryServer} {name type : Bytes} {handle : UInt32} {o : Nat}

/-! ## Steps that change nothing -/

theorem state_of_answer {a b : BinaryAnswer} (h : some (a, s) = some (b, s')) : s' = s :=
  (congrArg Prod.snd (Option.some.inj h)).symm

theorem Known.openObject (h : s.Known name handle o) : s.containerManager.openObject name = some o := by
  unfold ContainerManager.openObject
  rw [h.opened]
  simp [expired, h.held]

theorem Inv.globalHandle (h : Inv s) (hname : s.session.containerNameToHandle[name]? = some handle) :
    s.logger.globalHandle name = handle := by
  unfold BinaryProtocolLogger.globalHandle
  rw [h.logged, hname]
  rfl

/-- The first line of a container is its last `create`. -/
theorem logMessage_known {l : BinaryProtocolLogger} {c : Container} (h : l.globalHandle c.getName ≠ 0)
    (name : Option Bytes) (type : Bytes) :
    l.logMessage doubles c (.create name type) = l ∧ l.logMessage doubles c (.open name type) = l := by
  have hopen (file : Bytes) : l.logOpen file c = l := if_neg h
  unfold BinaryProtocolLogger.logMessage
  cases l.file with
  | none => exact ⟨rfl, rfl⟩
  | some file => exact ⟨hopen file, hopen file⟩

theorem opened_known {message : BinaryCommand} (hname : s.session.containerNameToHandle[name]? = some handle)
    (hk : s.Known name handle o)
    (hlog : ∀ c : Container, c.getName = name → s.logger.logMessage doubles c message = s.logger) :
    s.opened doubles message name (.ok o s.containerManager) = some (.handle handle, s) := by
  obtain ⟨c, hc, hcname⟩ := Option.map_eq_some_iff.mp hk.name
  have hregister : s.session.registerContainer name (UInt64.ofNat o) = (handle, s.session) := by
    unfold Session.registerContainer
    rw [hname]
  have hcontains : s.session.handles.contains handle = true := by
    rw [Std.ExtTreeMap.contains_eq_isSome_getElem?, hk.registered]
    rfl
  simp [opened, hregister, hc, hcontains, hlog c hcname]

theorem Inv.unknown_closed (h : Inv s) (hnamed : Named name) (hname : s.session.containerNameToHandle[name]? = none) :
    s.containerManager.openObject name = none ∧ ∀ type i, ¬ s.containerManager.Registered type name i := by
  constructor
  · have hopened : s.containerManager.openContainers[name]? = none := by
      by_contra hne
      obtain ⟨o, ho⟩ := Option.ne_none_iff_exists'.mp hne
      have := h.opened name o ho hnamed
      simp [hname] at this
    unfold ContainerManager.openObject
    rw [hopened]
    rfl
  · intro type i hreg
    have := h.stored type name i hreg hnamed
    simp [hname] at this

theorem Inv.open_known (h : Inv s) (hname : s.session.containerNameToHandle[name]? = some handle) :
    s.opened doubles (.open (some name) type) name ((openContainer type name).run s.containerManager) =
        some (.handle handle, s) ∧
      s.opened doubles (.create (some name) type) name ((createContainer type name).run s.containerManager) =
        some (.handle handle, s) := by
  obtain ⟨o, hk⟩ := h.names name handle hname
  have hlog (c : Container) (hc : c.getName = name) := logMessage_known doubles (l := s.logger) (c := c)
    (by rw [hc, h.globalHandle hname]; exact hk.ne_zero) (some name) type
  rw [openContainer_run, createContainer_run, hk.openObject]
  exact ⟨opened_known doubles hname hk fun c hc => (hlog c hc).2,
    opened_known doubles hname hk fun c hc => (hlog c hc).1⟩

theorem opened_throws {message : BinaryCommand} {e : Exc} :
    s.opened doubles message name (.throws e s.containerManager) = some (.error, s) := rfl

theorem Inv.open_unchanged (h : Inv s) (hnamed : Named name) :
    ∃ a, s.onBinaryCommand doubles (.open (some name) type) = some (a, s) := by
  unfold onBinaryCommand
  dsimp only
  cases hname : s.session.containerNameToHandle[name]? with
  | some handle => exact ⟨_, (h.open_known doubles hname).1⟩
  | none =>
    obtain ⟨hclosed, hnot⟩ := h.unknown_closed hnamed hname
    obtain ⟨data, hd⟩ := Option.isSome_iff_exists.mp h.metaData
    rw [openContainer_run, hclosed]
    obtain ⟨e, hr⟩ | ⟨t, i, m, -, hop, hcontainers, -⟩ :=
      openExisting_cases (s.containerManager.resolveAlias type) name h.entries hd
    · dsimp only
      rw [hr]
      exact ⟨_, opened_throws doubles⟩
    · have hreg : s.containerManager.Registered t name i := by
        rw [Registered, ← hcontainers]
        exact hop.entry
      exact absurd hreg (hnot t i)

/-! ## A container that is created -/

theorem manager_of_creates {asked : Bytes} (h : s.creates asked) :
    s.containerManager.resolveAlias asked ∈ managerByType := by
  simp only [creates, Bool.and_eq_true, decide_eq_true_eq] at h
  exact h.1

theorem Inv.create_checked (h : Inv s) (hnamed : Named name) (hname : s.session.containerNameToHandle[name]? = none) :
    (∃ e, (createContainer type name).run s.containerManager = .throws e s.containerManager) ∨
      s.creates type ∧ (createContainer type name).run s.containerManager =
        (createChecked (s.containerManager.resolveAlias type) name).run s.containerManager := by
  rw [createContainer_run, (h.unknown_closed hnamed hname).1]
  dsimp only
  obtain ⟨e, hr⟩ | ⟨hmem, -⟩ := getStorageManagerByType_cases (s.containerManager.resolveAlias type) s.containerManager
  · exact .inl ⟨e, Prog.run_bind_throws _ _ hr⟩
  rw [create_run name hmem]
  by_cases htype : s.containerManager.resolveAlias type ∈ managerByType
  · exact .inr ⟨by simp [creates, htype, hmem], rfl⟩
  · have hnone : supportedTypes (s.containerManager.resolveAlias type) = none := by
      by_contra hne
      obtain ⟨make, hmake⟩ := Option.ne_none_iff_exists'.mp hne
      exact htype (mem_manager_of_supported hmake)
    refine .inl ⟨invalidArgument "storage type not supported", Prog.run_bind_throws _ _ ?_⟩
    unfold createStorage
    rw [hnone]
    rfl

/-- The session with one more handle. -/
def withHandle (session : Session) (name : Bytes) (o : Nat) : Session :=
  { session with
    handles := session.handles.insertIfNew (session.lastHandle + 1) (UInt64.ofNat o)
    containerNameToHandle := session.containerNameToHandle.insert name (session.lastHandle + 1)
    lastHandle := session.lastHandle + 1 }

theorem registerContainer_new (hname : s.session.containerNameToHandle[name]? = none) (o : Nat) :
    s.session.registerContainer name (UInt64.ofNat o) = (s.session.lastHandle + 1, withHandle s.session name o) := by
  unfold Session.registerContainer
  rw [hname]
  rfl

theorem toNat_next {h : UInt32} (hb : h.toNat + 1 < 2 ^ 31) : (h + 1).toNat = h.toNat + 1 := by
  rw [UInt32.toNat_add, UInt32.toNat_one, Nat.mod_eq_of_lt]
  omega

theorem Inv.next_free (h : Inv s) (hb : s.session.lastHandle.toNat + 1 < 2 ^ 31) :
    s.session.handles[s.session.lastHandle + 1]? = none := by
  by_contra hne
  obtain ⟨x, hx⟩ := Option.ne_none_iff_exists'.mp hne
  obtain ⟨name, hname⟩ := h.handles _ _ hx
  obtain ⟨o, hk⟩ := h.names name _ hname
  have := hk.le
  rw [toNat_next hb] at this
  omega

theorem opened_new {message : BinaryCommand} {manager : ContainerManager} {c : Container}
    (hname : s.session.containerNameToHandle[name]? = none)
    (hfree : s.session.handles[s.session.lastHandle + 1]? = none) (hc : manager.containerOf o = some c) :
    s.opened doubles message name (.ok o manager) = some (.handle (s.session.lastHandle + 1), {
      containerManager := { manager with held := o :: manager.held }
      session := withHandle s.session name o
      logger := s.logger.logMessage doubles c message }) := by
  have hcontains : s.session.handles.contains (s.session.lastHandle + 1) = false := by
    rw [Std.ExtTreeMap.contains_eq_isSome_getElem?, hfree]
    rfl
  simp [opened, registerContainer_new hname, hc, hcontains]

theorem containerOf_withNew {m : ContainerManager} {heap : List Container} {isMap : Bool}
    (hheap : heap.map Container.label = m.heap.map Container.label ++ [(name, type, isMap)]) :
    ((m.withNew type name heap).containerOf m.objects.length).map Container.label = some (name, type, isMap) := by
  rw [containerOf_label]
  simp [withNew, hheap]

theorem name_withNew {m : ContainerManager} {n : Bytes} {heap : List Container} {isMap : Bool}
    (hheap : heap.map Container.label = m.heap.map Container.label ++ [(name, type, isMap)])
    (hn : (m.containerOf o).map Container.getName = some n) :
    ((m.withNew type name heap).containerOf o).map Container.getName = some n := by
  have hfst (m : ContainerManager) : (m.containerOf o).map Container.getName =
      ((m.containerOf o).map Container.label).map Prod.fst := by
    rw [Option.map_map]
    rfl
  rw [hfst, containerOf_label, Option.map_eq_some_iff] at hn
  obtain ⟨l, hl, rfl⟩ := hn
  obtain ⟨i, hi, hl⟩ := Option.bind_eq_some_iff.mp hl
  have hobjects : (m.withNew type name heap).objects[o]? = some i := getElem?_append_some hi _
  rw [hfst, containerOf_label, hobjects, Option.bind_some]
  change ((heap.map Container.label)[i]?).map _ = _
  rw [hheap, getElem?_append_some hl]
  rfl

/-- The server with one more container, whose line is written. -/
def created (s : BinaryServer) (file type name : Bytes) (heap : List Container) : BinaryServer where
  containerManager :=
    { s.containerManager.withNew type name heap with
      held := s.containerManager.objects.length :: s.containerManager.held }
  session := withHandle s.session name s.containerManager.objects.length
  logger := { s.logger with
    globalContainerHandle := s.logger.globalContainerHandle.insert name (s.session.lastHandle + 1)
    lastGlobalHandle := s.session.lastHandle + 1
    file := some (file ++ LogLine.create s.logger.time (s.session.lastHandle + 1) name type ++ [10]) }

variable {file : Bytes} {heap : List Container} {isMap : Bool}

theorem Inv.known_new (h : Inv s) (hnamed : Named name) (hb : s.session.lastHandle.toNat + 1 < 2 ^ 31)
    (hheap : heap.map Container.label = s.containerManager.heap.map Container.label ++ [(name, type, isMap)]) :
    (s.created file type name heap).Known name (s.session.lastHandle + 1) s.containerManager.objects.length where
  named := hnamed
  ne_zero := by
    intro hzero
    have := toNat_next hb
    rw [hzero] at this
    simp at this
  le := Nat.le_refl _
  registered := by
    change (s.session.handles.insertIfNew _ _)[_]? = _
    rw [Std.ExtTreeMap.getElem?_insertIfNew, h.next_free hb]
    simp [Std.ExtTreeMap.mem_iff_isSome_getElem?, h.next_free hb]
  small := by
    have := h.objects
    omega
  opened := Std.ExtTreeMap.getElem?_insert_self
  held := List.mem_cons_self
  name := by
    have hlabel := congrArg (Option.map Prod.fst) (containerOf_withNew hheap)
    rw [Option.map_map] at hlabel
    exact hlabel

theorem Known.created {n : Bytes} (hk : s.Known n handle o) (hn : n ≠ name)
    (hb : s.session.lastHandle.toNat + 1 < 2 ^ 31)
    (hheap : heap.map Container.label = s.containerManager.heap.map Container.label ++ [(name, type, isMap)]) :
    (s.created file type name heap).Known n handle o where
  named := hk.named
  ne_zero := hk.ne_zero
  le := by
    change _ ≤ (s.session.lastHandle + 1).toNat
    rw [toNat_next hb]
    exact Nat.le_succ_of_le hk.le
  registered := by
    have hne : s.session.lastHandle + 1 ≠ handle := by
      rintro rfl
      have := hk.le
      rw [toNat_next hb] at this
      omega
    change (s.session.handles.insertIfNew _ _)[_]? = _
    rw [Std.ExtTreeMap.getElem?_insertIfNew, if_neg (by simp [hne])]
    exact hk.registered
  small := hk.small
  opened := (insert_of_ne _ _ (Ne.symm hn)).trans hk.opened
  held := List.mem_cons_of_mem _ hk.held
  name := name_withNew hheap hk.name

theorem Inv.created (h : Inv s) (hnamed : Named name) (hname : s.session.containerNameToHandle[name]? = none)
    (hb : s.session.lastHandle.toNat + 1 < 2 ^ 31)
    (hheap : heap.map Container.label = s.containerManager.heap.map Container.label ++ [(name, type, isMap)])
    (he : Entries (s.containerManager.withNew type name heap))
    (hd : (s.containerManager.withNew type name heap).metaData.isSome) : Inv (s.created file type name heap) where
  entries := he
  metaData := hd
  objects := by
    change (s.containerManager.objects ++ [_]).length = (s.session.lastHandle + 1).toNat + 2
    rw [toNat_next hb, List.length_append, h.objects]
    rfl
  bound := by
    change (s.session.lastHandle + 1).toNat < _
    rw [toNat_next hb]
    exact hb
  names n handle hn := by
    obtain ⟨rfl, rfl⟩ | ⟨hne, hn⟩ := insert_cases hn
    · exact ⟨_, h.known_new hnamed hb hheap⟩
    · obtain ⟨o, hk⟩ := h.names n handle hn
      exact ⟨o, hk.created hne hb hheap⟩
  handles handle container hhandle := by
    change (s.session.handles.insertIfNew _ _)[handle]? = _ at hhandle
    rw [Std.ExtTreeMap.getElem?_insertIfNew] at hhandle
    split at hhandle
    · rename_i hnew
      obtain rfl : _ = handle := by simpa using hnew.1
      exact ⟨name, Std.ExtTreeMap.getElem?_insert_self⟩
    · obtain ⟨n, hn⟩ := h.handles _ _ hhandle
      have hne : name ≠ n := by
        rintro rfl
        simp [hname] at hn
      exact ⟨n, (insert_of_ne _ _ hne).trans hn⟩
  stored t n i hreg hn := by
    change ((s.session.containerNameToHandle.insert _ _)[n]?).isSome
    by_cases hne : name = n
    · subst hne
      rw [Std.ExtTreeMap.getElem?_insert_self]
      rfl
    · rw [insert_of_ne _ _ hne]
      refine h.stored t n i ?_ hn
      obtain ⟨-, hinfo⟩ | ⟨-, hold⟩ := insert_cases hreg
      · exact absurd (congrArg StorageInfoEx.name hinfo).symm hne
      · exact hold
  opened n o ho hn := by
    change ((s.session.containerNameToHandle.insert _ _)[n]?).isSome
    obtain ⟨rfl, -⟩ | ⟨hne, ho⟩ := insert_cases ho
    · rw [Std.ExtTreeMap.getElem?_insert_self]
      rfl
    · rw [insert_of_ne _ _ (Ne.symm hne)]
      exact h.opened n o ho hn
  logged n := by
    change (s.logger.globalContainerHandle.insert _ _)[n]? = (s.session.containerNameToHandle.insert _ _)[n]?
    by_cases hne : name = n
    · subst hne
      rw [Std.ExtTreeMap.getElem?_insert_self, Std.ExtTreeMap.getElem?_insert_self]
    · rw [insert_of_ne _ _ hne, insert_of_ne _ _ hne, h.logged]
  lastHandle := rfl

theorem logMessage_new {c : Container} (h : Inv s) (hname : s.session.containerNameToHandle[name]? = none)
    (hfile : s.logger.file = some file) (hc : c.label = (name, type, isMap)) (asked : Bytes) :
    s.logger.logMessage doubles c (.create (some name) asked) = (s.created file type name heap).logger := by
  obtain rfl : c.getName = name := congrArg Prod.fst hc
  obtain rfl : c.getType = type := congrArg (·.2.1) hc
  have hzero : s.logger.globalHandle c.getName = 0 := by
    unfold BinaryProtocolLogger.globalHandle
    rw [h.logged, hname]
    rfl
  unfold BinaryProtocolLogger.logMessage
  rw [hfile]
  dsimp only
  unfold BinaryProtocolLogger.logOpen
  rw [if_pos hzero, h.lastHandle]
  rfl

/-- A `create` under a new name fails and changes nothing, or makes a container and writes its line. -/
theorem Inv.create_new (h : Inv s) (hnamed : Named name) (hname : s.session.containerNameToHandle[name]? = none)
    (hfile : s.logger.file = some file) (asked : Bytes)
    (hb : s.creates asked → s.session.lastHandle.toNat + 1 < 2 ^ 31) :
    (∃ a, s.onBinaryCommand doubles (.create (some name) asked) = some (a, s)) ∨
      s.creates asked ∧ ∃ a heap isMap,
        heap.map Container.label = s.containerManager.heap.map Container.label ++
          [(name, s.containerManager.resolveAlias asked, isMap)] ∧
        s.onBinaryCommand doubles (.create (some name) asked) =
          some (a, s.created file (s.containerManager.resolveAlias asked) name heap) ∧
        (createChecked (s.containerManager.resolveAlias asked) name).run s.containerManager =
          .ok s.containerManager.objects.length
            (s.containerManager.withNew (s.containerManager.resolveAlias asked) name heap) ∧
        Inv (s.created file (s.containerManager.resolveAlias asked) name heap) := by
  unfold onBinaryCommand
  by_cases hasked : asked = []
  · exact .inl ⟨.error, if_pos hasked⟩
  simp only [if_neg hasked]
  obtain ⟨e, hr⟩ | ⟨hcreates, hr⟩ := @Inv.create_checked s name asked h hnamed hname
  · rw [hr]
    exact .inl ⟨_, opened_throws doubles⟩
  have hmem := manager_of_creates hcreates
  obtain ⟨data, hd⟩ := Option.isSome_iff_exists.mp h.metaData
  obtain ⟨hclosed, hnot⟩ := h.unknown_closed hnamed hname
  have hnew : s.containerManager.containers[generateName (s.containerManager.resolveAlias asked) name]? = none := by
    by_contra hne
    obtain ⟨info, hinfo⟩ := Option.ne_none_iff_exists'.mp hne
    exact hnot _ info.storage (hinfo.trans (congrArg some (h.entries.eq_of_key hmem hinfo)))
  obtain ⟨heap, isMap, hheap, hmade⟩ := createChecked_new hnamed.1 hmem hnew hd
  obtain ⟨c, hc, hlabel⟩ := Option.map_eq_some_iff.mp (containerOf_withNew hheap)
  have hopened := create_cases (s.containerManager.resolveAlias asked) h.entries hnamed.1 hd
  have hcreate : (create (s.containerManager.resolveAlias asked) name).run s.containerManager =
      (createContainer asked name).run s.containerManager := by
    rw [createContainer_run, hclosed]
  rw [hcreate, hr, hmade] at hopened
  obtain ⟨e, he⟩ | ⟨i, m, hm, hop, hd'⟩ := hopened
  · cases he
  obtain rfl := (Outcome.ok.inj hm).2
  refine .inr ⟨hcreates, .handle (s.session.lastHandle + 1), heap, isMap, hheap, ?_, hmade, ?_⟩
  · rw [hr, hmade, opened_new doubles hname (h.next_free (hb hcreates)) hc,
      @logMessage_new doubles s name _ file heap isMap c h hname hfile hlabel]
    rfl
  · exact h.created hnamed hname (hb hcreates) hheap (hop.entries h.entries) (by rw [hd']; rfl)

/-! ## A data command -/

/-- The server after a command that was carried out, whose line is written. -/
def dataLogged (s : BinaryServer) (file name : Bytes) (handle : UInt32) (command : DataCommand)
    (manager : ContainerManager) : BinaryServer :=
  { s with
    containerManager := manager
    logger := { s.logger with
      globalContainerHandle := s.logger.globalContainerHandle.insert name handle
      file := some (file ++ LogLine.data doubles s.logger.time handle command ++ [10]) } }

theorem Inv.dataLogged (h : Inv s) {command : DataCommand} {manager : ContainerManager}
    (hname : s.session.containerNameToHandle[name]? = some handle)
    (hout : manager.outline = s.containerManager.outline) :
    Inv (s.dataLogged doubles file name handle command manager) := by
  obtain ⟨-, hcontainers, -, -, hobjects, hopen, -, -, hheld⟩ := outline_eq_iff.mp hout
  exact {
    entries := outline_entries hout h.entries
    metaData := outline_metaData hout h.metaData
    objects := (congrArg List.length hobjects).trans h.objects
    bound := h.bound
    names := fun n handle' hn => by
      obtain ⟨o, hk⟩ := h.names n handle' hn
      have hlabel := congrArg (Option.map Prod.fst) (outline_containerOf hout o)
      rw [Option.map_map, Option.map_map] at hlabel
      refine ⟨o, { hk with
        opened := (congrArg (fun m : StringMap Nat => m[n]?) hopen).trans hk.opened
        held := hheld ▸ hk.held
        name := hlabel.trans hk.name }⟩
    handles := h.handles
    stored := fun t n i hreg hn => by
      refine h.stored t n i ?_ hn
      rw [Registered, ← hcontainers]
      exact hreg
    opened := fun n o ho hn => by
      refine h.opened n o ?_ hn
      rw [← hopen]
      exact ho
    logged := fun n => by
      change (s.logger.globalContainerHandle.insert name handle)[n]? = _
      rw [insert_of_getElem? ((h.logged name).trans hname)]
      exact h.logged n
    lastHandle := h.lastHandle }

theorem keeps_sent (code : CommandCode) (key value : TioData) :
    (DataCommand.sent code key value).exec.Keeps Container.label := by
  have hmetadata : (DataCommand.sent code key value).metadata = .none := by cases code <;> rfl
  exact (DataCommand.matches_sent fun _ => hmetadata).keeps

/-- A data command fails and changes nothing, or is carried out on a container that has a name, and its line is
written. -/
theorem Inv.data_cases (h : Inv s) (hfile : s.logger.file = some file) {command : DataCommand} {a : BinaryAnswer}
    (hsurvives : ∀ c ∈ s.containerOfHandle handle, (command.apply c).isSome →
      (DataCommand.KeepsMetadata command.code → command.metadata = .none))
    (hs : s.onBinaryCommand doubles (.data handle command) = some (a, s')) :
    s' = s ∨ ∃ (name : Bytes) (o : Nat) (c : Container) (manager : ContainerManager),
      s.session.containerNameToHandle[name]? = some handle ∧ s.Known name handle o ∧
        c ∈ s.containerOfHandle handle ∧ (command.apply c).isSome ∧
        (ContainerManager.withObject o command.exec).run s.containerManager = .ok () manager ∧
        s' = s.dataLogged doubles file name handle command manager ∧ Inv s' := by
  unfold onBinaryCommand at hs
  dsimp only at hs
  split at hs
  · exact .inl (state_of_answer hs)
  split at hs
  · exact .inl (state_of_answer hs)
  rename_i container hcontainer
  obtain ⟨name, hname⟩ := h.handles handle container hcontainer
  obtain ⟨o, hk⟩ := h.names name handle hname
  obtain rfl : container = UInt64.ofNat o := Option.some.inj (hcontainer.symm.trans hk.registered)
  have hnat : (UInt64.ofNat o).toNat = o := UInt64.toNat_ofNat_of_lt' hk.small
  unfold onDataCommand at hs
  rw [hnat] at hs
  split at hs
  · cases hs
  · rename_i e manager hr
    obtain rfl := withObject_throws (DataCommand.exec_atomic command) hr
    exact .inl (state_of_answer hs)
  · rename_i manager hr
    obtain ⟨c, c', hc, hexec, hc'⟩ := withObject_ok hr
    have hhandle : s.containerOfHandle handle = some c := by
      unfold containerOfHandle Session.getRegisteredContainer
      rw [hk.registered, Option.bind_some, hnat, hc]
    have happly : (command.apply c).isSome := by
      unfold DataCommand.apply
      rw [hexec]
      rfl
    have hout : manager.outline = s.containerManager.outline :=
      keeps_withObject o (DataCommand.matches_sent (hsurvives c hhandle happly)).keeps _ _ (by rw [hr]; rfl)
    have hcname : c'.getName = name := by
      have hlabel := congrArg (Option.map Prod.fst) (outline_containerOf hout o)
      rw [hc', hc] at hlabel
      have hold := hk.name
      rw [hc] at hold
      exact (Option.some.inj hlabel).trans (Option.some.inj hold)
    have hs' : s' = s.dataLogged doubles file name handle command manager := by
      rw [hc', Option.bind_eq_bind, Option.bind_some] at hs
      have hlog : s.logger.logMessage doubles c' (.data handle command) =
          (s.dataLogged doubles file name handle command manager).logger := by
        unfold BinaryProtocolLogger.logMessage
        rw [hfile]
        dsimp only
        unfold BinaryProtocolLogger.logData
        rw [hcname, h.globalHandle hname]
        rfl
      rw [hlog] at hs
      exact state_of_answer hs
    exact .inr ⟨name, o, c, manager, hname, hk, hhandle, happly, hr, hs', hs' ▸ h.dataLogged doubles hname hout⟩

/-! ## The replay follows -/

/-- The server of the replay is where the server that wrote the log is, but for its sinks and its aliases. -/
structure Related (target : ContainerManager) (s : BinaryServer) (r : TioLogParser) : Prop where
  quiet : r.server.containerManager.quiet = s.containerManager.quiet
  session : r.server.session = s.session
  aliases : r.server.containerManager.aliases = target.aliases
  handles : ∀ (name : Bytes) (handle : UInt32), s.session.containerNameToHandle[name]? = some handle →
    r.containers[Int32.ofNat handle.toNat]? = some handle

variable {target : ContainerManager} {r : TioLogParser}

theorem int32_ofNat_inj {m n : Nat} (hm : m < 2 ^ 31) (hn : n < 2 ^ 31) (h : Int32.ofNat m = Int32.ofNat n) :
    m = n := by
  have hi := congrArg Int32.toInt h
  rw [LogLine.toInt_ofNat hm, LogLine.toInt_ofNat hn] at hi
  exact Int.ofNat_inj.mp hi

theorem plain_of_manager (h : type ∈ managerByType) :
    type ≠ [] ∧ 0 ∉ type ∧ 44 ∉ type ∧ (TioData.string type).Plain ∧ (TioData.string type).Short := by
  revert type
  decide

theorem Related.create_line (h : Inv s) (hrel : Related target s r) (hnamed : Named name) (hzero : 0 ∉ name)
    (hname : s.session.containerNameToHandle[name]? = none) (hmem : type ∈ managerByType)
    (halias : target.resolveAlias type = type) (hb : s.session.lastHandle.toNat + 1 < 2 ^ 31)
    (hheap : heap.map Container.label = s.containerManager.heap.map Container.label ++ [(name, type, isMap)])
    (hmade : (createChecked type name).run s.containerManager =
      .ok s.containerManager.objects.length (s.containerManager.withNew type name heap)) :
    ∃ r', r.onLogEntry doubles
        ⟨ascii "create", Int32.ofNat (s.session.lastHandle + 1).toNat, .string name, .string type⟩ = some r' ∧
      Related target (s.created file type name heap) r' := by
  have hresolve : r.server.containerManager.resolveAlias type = type := by
    unfold resolveAlias at halias ⊢
    rw [hrel.aliases]
    exact halias
  obtain ⟨m, hm, hmquiet⟩ :=
    Outcome.ok_of_mapState_eq (agree_createChecked type name _ _ hrel.quiet.symm) hmade
  have haliases : m.aliases = target.aliases :=
    (keeps_createChecked type name _ _ (by rw [hm]; rfl)).trans hrel.aliases
  obtain ⟨c, hc⟩ : ∃ c, m.containerOf s.containerManager.objects.length = some c := by
    obtain ⟨c, hc, -⟩ := Option.map_eq_some_iff.mp (containerOf_withNew hheap)
    have hsame := quiet_containerOf hmquiet s.containerManager.objects.length
    rw [hc] at hsame
    obtain ⟨c', hc', -⟩ := Option.map_eq_some_iff.mp hsame
    exact ⟨c', hc'⟩
  have hcreate : (createContainer type name).run r.server.containerManager =
      .ok s.containerManager.objects.length m := by
    rw [createContainer_run, quiet_openObject hrel.quiet, (h.unknown_closed hnamed hname).1]
    dsimp only
    rw [hresolve, create_run name (by rw [hresolve]; exact hmem), hm]
  have hopened := @opened_new doubles r.server name s.containerManager.objects.length (.create (some name) type) m c
    (by rw [hrel.session]; exact hname) (by rw [hrel.session]; exact h.next_free hb) hc
  obtain ⟨htype, hnul, -⟩ := plain_of_manager hmem
  obtain ⟨server, hanswer, hmanager, hsession⟩ : ∃ server,
      r.server.onBinaryCommand doubles (.create (some name) type) = some (.handle (s.session.lastHandle + 1), server) ∧
        server.containerManager = { m with held := s.containerManager.objects.length :: m.held } ∧
        server.session = withHandle s.session name s.containerManager.objects.length := by
    rw [hrel.session] at hopened
    unfold onBinaryCommand
    dsimp only
    rw [if_neg htype, hcreate, hopened]
    exact ⟨_, rfl, rfl, rfl⟩
  let handle := s.session.lastHandle + 1
  refine ⟨{ server := server, containers := r.containers.insert (Int32.ofNat handle.toNat) handle },
    ?_, ?_, hsession, ?_, ?_⟩
  · unfold TioLogParser.onLogEntry
    rw [if_pos rfl]
    unfold TioLogParser.create
    dsimp only
    rw [if_neg hnamed.2, cstr_eq_self hzero, cstr_eq_self hnul, hanswer]
  · obtain ⟨hheapq, hcont, hobj, hopen, hmeta, htypes, hheld⟩ := quiet_eq_iff.mp hmquiet
    dsimp only
    rw [hmanager]
    refine quiet_eq_iff.mpr ⟨hheapq, hcont, hobj, hopen, hmeta, htypes, ?_⟩
    exact congrArg (s.containerManager.objects.length :: ·) hheld
  · dsimp only
    rw [hmanager]
    exact haliases
  · intro n handle hn
    obtain ⟨-, rfl⟩ | ⟨-, hn⟩ := insert_cases hn
    · exact Std.ExtTreeMap.getElem?_insert_self
    · -- the new handle is none of the older ones, also as an `int`
      obtain ⟨o, hk⟩ := h.names n handle hn
      have hle := hk.le
      have hne : Int32.ofNat (s.session.lastHandle + 1).toNat ≠ Int32.ofNat handle.toNat := by
        intro heq
        have hnat := int32_ofNat_inj (by rw [toNat_next hb]; exact hb) (by omega) heq
        rw [toNat_next hb] at hnat
        omega
      exact (insert_of_ne _ _ hne).trans (hrel.handles n handle hn)

theorem Related.data_line (hrel : Related target s r) {command : DataCommand} {manager : ContainerManager}
    (hname : s.session.containerNameToHandle[name]? = some handle) (hk : s.Known name handle o)
    (hmetadata : DataCommand.KeepsMetadata command.code → command.metadata = .none)
    (hr : (ContainerManager.withObject o command.exec).run s.containerManager = .ok () manager) :
    ∃ r', r.onLogEntry doubles
        ⟨command.code.logName, Int32.ofNat handle.toNat, command.key, command.value⟩ = some r' ∧
      Related target (s.dataLogged doubles file name handle command manager) r' := by
  have hnat : (UInt64.ofNat o).toNat = o := UInt64.toNat_ofNat_of_lt' hk.small
  have hagree := agree_withObject o (DataCommand.matches_sent hmetadata).agree _ _ hrel.quiet.symm
  obtain ⟨m, hm, hmquiet⟩ := Outcome.ok_of_mapState_eq hagree hr
  obtain ⟨-, c, -, -, hc⟩ := withObject_ok hm
  have hkeeps := keeps_withObject o (keeps_sent command.code command.key command.value) _ m (by rw [hm]; rfl)
  obtain ⟨server, hanswer, hmanager, hsession⟩ : ∃ server,
      r.server.onBinaryCommand doubles (.data handle (.sent command.code command.key command.value)) =
          some (.answer, server) ∧ server.containerManager = m ∧ server.session = s.session := by
    unfold onBinaryCommand
    dsimp only
    rw [if_neg hk.ne_zero, hrel.session]
    unfold Session.getRegisteredContainer onDataCommand
    rw [hk.registered]
    dsimp only
    rw [hnat, hm]
    dsimp only
    rw [hc]
    exact ⟨_, rfl, rfl, hrel.session⟩
  refine ⟨{ r with server := server }, ?_, ?_, hsession, ?_, hrel.handles⟩
  · obtain ⟨hcreate, hgroup⟩ := TioLogParser.logName_ne command.code
    unfold TioLogParser.onLogEntry
    rw [if_neg hcreate, if_neg hgroup]
    dsimp only
    rw [hrel.handles name handle hname, TioLogParser.ofLogName_logName]
    dsimp only
    rw [hanswer]
  · dsimp only
    rw [hmanager]
    exact hmquiet
  · dsimp only
    rw [hmanager]
    exact (outline_eq_iff.mp hkeeps).2.2.2.1.trans hrel.aliases

/-! ## Whole runs -/

/-- The file is lines that take the replay from `r₀` to where the server is. -/
def Replayed (target : ContainerManager) (r₀ : TioLogParser) (s : BinaryServer) : Prop :=
  Inv s ∧ ∃ (ls : List Bytes) (r : TioLogParser), s.logger.file = some (ls.flatMap (· ++ [10])) ∧ (∀ l ∈ ls, 10 ∉ l) ∧
    ls.foldlM (TioLogParser.onLine doubles) r₀ = some r ∧ Related target s r

variable {r₀ : TioLogParser}

theorem replayed_snoc {ls : List Bytes} {line : Bytes} {log : LogEntry} (hinv : Inv s')
    (hls : ∀ l ∈ ls, 10 ∉ l) (hfold : ls.foldlM (TioLogParser.onLine doubles) r₀ = some r)
    (hfile : s'.logger.file = some (ls.flatMap (· ++ [10]) ++ line ++ [10])) (hline : 10 ∉ line)
    (hlog : LogEntry.ofLine doubles line = some log)
    (hentry : ∃ r', r.onLogEntry doubles log = some r' ∧ Related target s' r') : Replayed doubles target r₀ s' := by
  obtain ⟨r', hr', hrel⟩ := hentry
  refine ⟨hinv, ls ++ [line], r', ?_, ?_, ?_, hrel⟩
  · rw [hfile]
    simp
  · intro l hl
    obtain hl | rfl := List.mem_append.mp hl |>.imp id List.mem_singleton.mp
    · exact hls l hl
    · exact hline
  · rw [List.foldlM_append, hfold]
    simp [TioLogParser.onLine_of_ofLine doubles hlog, hr']

theorem Replayed.updateTime (h : Replayed doubles target r₀ s) (time : LocalTime) :
    Replayed doubles target r₀ { s with logger := { s.logger with time := time } } := by
  obtain ⟨hinv, ls, r, hfile, hls, hfold, hrel⟩ := h
  refine ⟨{ hinv with names := fun name handle hname => ?_ }, ls, r, hfile, hls, hfold, { hrel with }⟩
  obtain ⟨o, hk⟩ := hinv.names name handle hname
  exact ⟨o, { hk with }⟩

theorem Replayed.create (h : Replayed doubles target r₀ s) {asked : Bytes} {a : BinaryAnswer} (hnamed : Named name)
    (hsurvives : Survives target s (.command (.create (some name) asked)))
    (hs : s.onBinaryCommand doubles (.create (some name) asked) = some (a, s')) : Replayed doubles target r₀ s' := by
  obtain ⟨hinv, ls, r, hfile, hls, hfold, hrel⟩ := id h
  cases hname : s.session.containerNameToHandle[name]? with
  | some handle =>
    have hsame : s' = s := by
      unfold onBinaryCommand at hs
      dsimp only at hs
      split at hs
      · exact state_of_answer hs
      · rw [(hinv.open_known doubles hname).2] at hs
        exact state_of_answer hs
    exact hsame ▸ h
  | none =>
    have hsurvives := hsurvives name rfl hname
    obtain ⟨b, hb⟩ | ⟨hcreates, b, heap, isMap, hheap, hb, hmade, hinv'⟩ :=
      hinv.create_new doubles hnamed hname hfile asked fun hc => (hsurvives hc).2.2.2.1
    · have hsame : s' = s := state_of_answer (hb.symm.trans hs)
      exact hsame ▸ h
    obtain rfl : s' = _ := state_of_answer (hb.symm.trans hs)
    obtain ⟨hzero, hline, hshort, hbound, halias⟩ := hsurvives hcreates
    have hmem := manager_of_creates hcreates
    obtain ⟨htype, -, hcomma, htypeplain, htypeshort⟩ := plain_of_manager hmem
    have hhandle : (s.session.lastHandle + 1).toNat < 2 ^ 31 := by rwa [toNat_next hbound]
    exact replayed_snoc doubles hinv' hls hfold rfl (LogLine.line_end_not_mem_create _ _ hline htypeplain)
      (LogLine.ofLine_create doubles _ hhandle ⟨hline, hshort⟩ ⟨htypeplain, htypeshort⟩ htype hcomma)
      (hrel.create_line doubles hinv hnamed hzero hname hmem halias hbound hheap hmade)

theorem Replayed.data (h : Replayed doubles target r₀ s) {command : DataCommand} {a : BinaryAnswer}
    (hscope : InScope (.command (.data handle command)))
    (hsurvives : Survives target s (.command (.data handle command)))
    (hs : s.onBinaryCommand doubles (.data handle command) = some (a, s')) : Replayed doubles target r₀ s' := by
  obtain ⟨hinv, ls, r, hfile, hls, hfold, hrel⟩ := id h
  obtain ⟨hkey, hvalue, hmetadata⟩ := hscope
  obtain rfl | ⟨name, o, c, manager, hname, hk, hc, happly, hr, rfl, hinv'⟩ :=
    hinv.data_cases doubles hfile (fun c hc happly => (hsurvives c hc happly).1) hs
  · exact h
  obtain ⟨hkeeps, hkeyshort, hvalueshort⟩ := hsurvives c hc happly
  have hhandle : handle.toNat < 2 ^ 31 := Nat.lt_of_le_of_lt hk.le hinv.bound
  exact replayed_snoc doubles hinv' hls hfold rfl (LogLine.line_end_not_mem_data doubles _ _ hkey hvalue hmetadata)
    (LogLine.ofLine_data doubles _ hhandle ⟨hkey, hkeyshort⟩ ⟨hvalue, hvalueshort⟩)
    (hrel.data_line doubles hname hk hkeeps hr)

theorem step_replayed (s : BinaryServer) (a : Step) (s' : BinaryServer) (h : Replayed doubles target r₀ s)
    (hok : InScope a ∧ Survives target s a) (hs : s.step doubles a = some s') : Replayed doubles target r₀ s' := by
  obtain ⟨hscope, hsurvives⟩ := hok
  cases a with
  | updateTime time =>
    obtain rfl := Option.some.inj hs
    exact h.updateTime doubles time
  | command message =>
    obtain ⟨⟨a, t⟩, hcommand, rfl⟩ := Option.map_eq_some_iff.mp hs
    cases message with
    | create name asked =>
      cases name with
      | none =>
        obtain rfl : t = s := state_of_answer hcommand
        exact h
      | some name => exact h.create doubles (hscope name rfl) hsurvives hcommand
    | «open» name type =>
      cases name with
      | none =>
        obtain rfl : t = s := state_of_answer hcommand
        exact h
      | some name =>
        obtain ⟨b, hb⟩ := @Inv.open_unchanged doubles s name type h.1 (hscope name rfl)
        obtain rfl : t = s := state_of_answer (hb.symm.trans hcommand)
        exact h
    | data handle command => exact h.data doubles hscope hsurvives hcommand

/-- Whatever the session does that is not lost on the way, the replay of the log on another server, with aliases of its
own, makes the same containers. -/
theorem replay_rebuilds {aliases aliases' : List (Bytes × Bytes)} {file' : Option Bytes} {s₀ t₀ s : BinaryServer}
    {as : List Step} (hstart : start aliases (some []) = some s₀) (htarget : start aliases' file' = some t₀)
    (hok : Meets (step doubles) (fun s a => InScope a ∧ Survives t₀.containerManager s a) s₀ as)
    (hrun : run (step doubles) s₀ as = some s) :
    ∃ file r, s.logger.file = some file ∧ TioLogParser.replay doubles { server := t₀ } file = some r ∧
      s.containerManager.SameContainers r.server.containerManager := by
  have hfirst : Replayed doubles t₀.containerManager { server := t₀ } s₀ := by
    obtain ⟨l, rfl⟩ := start_eq hstart
    obtain ⟨l', rfl⟩ := start_eq htarget
    refine ⟨start_inv hstart, [], _, rfl, by simp, rfl, ⟨rfl, rfl, rfl, ?_⟩⟩
    intro name handle hname
    simp at hname
  obtain ⟨-, ls, r, hfile, hls, hfold, hrel⟩ := run_keeps (step_replayed doubles) hfirst hok hrun
  refine ⟨_, r, hfile, ?_, sameContainers_of_quiet hrel.quiet.symm⟩
  unfold TioLogParser.replay
  rw [TioLogParser.lines_of_lines hls, hfold]

/-- Where no number with a fraction is written or read. -/
def noDoubles : DoubleText := ⟨fun _ => [], fun _ => none⟩

/-- A list, a map and a vector, with commands that are refused and the metadata of a delete, on a server that has an
alias that the other one lacks. -/
theorem replay_rebuilds_three :
    let list := ascii "l"
    let map := ascii "m"
    let vector := ascii "v"
    let value := TioData.string (ascii "a,b,,")
    let steps := [Step.command (.create (some list) (ascii "list")),
      .command (.data 1 ⟨.pushBack, .none, value, .none⟩), .command (.data 1 ⟨.set, .int 7, value, value⟩),
      .updateTime ⟨2024, 1, 31, 12, 0, 0, 5⟩, .command (.create (some map) volatileMap),
      .command (.data 2 ⟨.set, value, .int (-5), .none⟩), .command (.data 2 ⟨.set, .string list, value, .none⟩),
      .command (.data 2 ⟨.delete, .string list, value, value⟩), .command (.create (some vector) volatileVector),
      .command (.create (some list) volatileMap), .command (.open (some list) []),
      .command (.data 3 ⟨.pushFront, .none, .int 3, .none⟩)]
    ∃ s₀ t₀ s file r, start [(ascii "list", volatileList)] (some []) = some s₀ ∧ start [] none = some t₀ ∧
      run (step noDoubles) s₀ steps = some s ∧ s.logger.file = some file ∧
      TioLogParser.replay noDoubles { server := t₀ } file = some r ∧
      s.containerManager.SameContainers r.server.containerManager := by
  intro list map vector value steps
  have hmeets : ∀ s₀ ∈ start [(ascii "list", volatileList)] (some []), ∀ t₀ ∈ start [] none,
      Meets (step noDoubles) (fun s a => InScope a ∧ Survives t₀.containerManager s a) s₀ steps := by
    decide +kernel
  have hruns : ((start [(ascii "list", volatileList)] (some [])).bind fun s₀ =>
      run (step noDoubles) s₀ steps).isSome := by
    decide +kernel
  obtain ⟨s, hs⟩ := Option.isSome_iff_exists.mp hruns
  obtain ⟨s₀, hstart, hrun⟩ := Option.bind_eq_some_iff.mp hs
  obtain ⟨t₀, htarget⟩ : ∃ t₀, start [] none = some t₀ := ⟨_, rfl⟩
  obtain ⟨file, r, hfile, hr, hsame⟩ := replay_rebuilds noDoubles hstart htarget (hmeets s₀ hstart t₀ htarget) hrun
  exact ⟨s₀, t₀, s, file, r, hstart, htarget, hrun, hfile, hr, hsame⟩

/-- The metadata of a `push_back` is in the log, and the replay sends none. -/
theorem replay_loses_metadata :
    let list := ascii "l"
    let steps := [Step.command (.create (some list) volatileList),
      .command (.data 1 ⟨.pushBack, .none, .string (ascii "v"), .string (ascii "m")⟩)]
    ∃ s₀ t₀ s file r, start [] (some []) = some s₀ ∧ start [] none = some t₀ ∧ (∀ a ∈ steps, InScope a) ∧
      run (step noDoubles) s₀ steps = some s ∧ s.logger.file = some file ∧
      TioLogParser.replay noDoubles { server := t₀ } file = some r ∧
      ¬ s.containerManager.SameContainers r.server.containerManager := by
  intro list steps
  have hrun : ((start [] (some [])).bind fun s₀ => (start [] none).bind fun t₀ =>
      (run (step noDoubles) s₀ steps).bind fun s => s.logger.file.bind fun file =>
        (TioLogParser.replay noDoubles { server := t₀ } file).map fun r =>
          decide ((s.containerManager.stored volatileList list).map Container.quiet =
            (r.server.containerManager.stored volatileList list).map Container.quiet)) = some false := by
    decide +kernel
  simp only [Option.bind_eq_some_iff, Option.map_eq_some_iff, decide_eq_false_iff_not] at hrun
  obtain ⟨s₀, hstart, t₀, htarget, s, hs, file, hfile, r, hr, hdiffer⟩ := hrun
  exact ⟨s₀, t₀, s, file, r, hstart, htarget, by decide, hs, hfile, hr, fun hsame => hdiffer (hsame _ _)⟩

end BinaryServer

end Tiodb
