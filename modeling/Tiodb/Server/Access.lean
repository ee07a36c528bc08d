import Tiodb.Server.TextServer

/-!
# Who may send a command

A rule is stored under the type and the name of its container. The handlers ask for
the rule of the pair that `GetRegisteredContainer` hands back, which is the name
twice.
-/

namespace Tiodb

open Lib

namespace TextServer

variable (lex : LexicalCast) (others : Command → ServerM (List Answer))

/-- The command was refused: an error and nothing else was answered, no data is asked for, the container is as it was
and no subscription was added. -/
def Refused (o : Nat) (s : TextServer) (out : Outcome Exc TextServer Reply) : Prop :=
  ∃ text s', out = .ok { answers := [.error text] } s' ∧ s'.manager.containerOf o = s.manager.containerOf o ∧
    s'.subscriptions = s.subscriptions

def Fails (x : Container.ContainerM (List Answer)) (c : Container) : Prop :=
  (∃ e, x.run c = .throws e c) ∨ ∃ text, x.run c = .ok [.error text] c

def DataFails (body : Fields → Container.ContainerM (List Answer)) (c : Container) (cmd : Command) : Prop :=
  cmd.params.length < 4 ∨ (∃ e, Text.extractFieldSet lex cmd.params.tail cmd.data = some (.error e)) ∨
    ∃ f, Text.extractFieldSet lex cmd.params.tail cmd.data = some (.ok (.fields f)) ∧ Fails (body f) c

/-- The command comes to an error whatever the rules are: it is malformed, or the container cannot do it. -/
def RefusedAnyway (c : Container) (cmd : Command) : Prop :=
  match handlerOf cmd.command with
  | .anyData => DataFails lex (fun f => return [← dataCommand cmd.command f]) c cmd
  | .modify => DataFails lex (fun f => Modify.body lex f.key f.value) c cmd
  | .pop => cmd.params.length ≠ 1 ∨ Fails (popCommand cmd.command) c
  | .subscribeUnsubscribe => 3 < cmd.params.length ∨ filterEnd lex cmd ≠ .ok ()
  | _ => False

/-- The fields of a data command do not reach past the data it has. -/
def Readable (cmd : Command) : Prop :=
  (handlerOf cmd.command = .anyData ∨ handlerOf cmd.command = .modify) → 4 ≤ cmd.params.length →
    Text.extractFieldSet lex cmd.params.tail cmd.data ≠ none

variable {lex others} {s : TextServer} {cmd : Command} {handle : UInt32} {o : Nat} {c : Container}

/-! ## What each part of a handler does -/

theorem run_catching_ok {x : ServerM Reply} {r : Reply} {s' : TextServer} (h : x.run s = .ok r s') :
    (catching x).run s = .ok r s' := by
  rw [catching, Prog.run_tryCatch, h]

theorem run_catching_throws {x : ServerM Reply} {e : Exc} {s' : TextServer} (h : x.run s = .throws e s') :
    (catching x).run s = .ok { answers := [.error e.what] } s' := by
  rw [catching, Prog.run_tryCatch, h]
  rfl

theorem run_catching_undefined {x : ServerM Reply} (h : x.run s = .undefined) : (catching x).run s = .undefined := by
  rw [catching, Prog.run_tryCatch, h]

theorem run_catching_bind {α : Type} {x : ServerM α} {f : α → ServerM Reply} {a : α} (h : x.run s = .ok a s) :
    (catching (x >>= f)).run s = (catching (f a)).run s := by
  rw [catching, Prog.run_tryCatch, Prog.run_bind_ok _ _ h]
  rfl

theorem getRegisteredContainer_run (ho : s.handles[handle]? = some o) (hc : s.manager.containerOf o = some c) :
    (getRegisteredContainer handle).run s = .ok (o, c.getName, c.getName) s := by
  unfold getRegisteredContainer
  simp only [Prog.run_get_bind, ho, hc]
  rfl

theorem withContainer_run (hc : s.manager.containerOf o = some c) :
    ∃ put : Container → TextServer,
      (∀ {α : Type} (x : Container.ContainerM α), (withContainer o x).run s = (x.run c).mapState put) ∧
      ∀ c', (put c').manager.containerOf o = some c' ∧ (put c').subscriptions = s.subscriptions := by
  obtain ⟨i, hi, hheap⟩ := Option.bind_eq_some_iff.mp hc
  have hlt : i < s.manager.heap.length := (List.getElem?_eq_some_iff.mp hheap).1
  refine ⟨fun c' => { s with manager := { s.manager with heap := s.manager.heap.set i c' } }, ?_, fun c' => ⟨?_, rfl⟩⟩
  · intro α x
    simp only [withContainer, ContainerManager.withObject, hi, hheap]
    cases x.run c <;> rfl
  · simp [ContainerManager.containerOf, hi, hlt]

theorem refused_error (o : Nat) (s : TextServer) (text : Bytes) : Refused o s (.ok { answers := [.error text] } s) :=
  ⟨text, s, rfl, rfl, rfl⟩

theorem refused_call (hc : s.manager.containerOf o = some c) (x : Container.ContainerM (List Answer)) :
    Refused o s ((catching do return { answers := ← withContainer o x }).run s) ↔ Fails x c := by
  obtain ⟨put, hrun, hput⟩ := withContainer_run hc
  cases hx : x.run c with
  | ok answers c' =>
    have h : (do return { answers := ← withContainer o x } : ServerM Reply).run s =
        .ok { answers := answers } (put c') := by
      rw [Prog.run_bind, hrun, hx]
      rfl
    rw [run_catching_ok h]
    constructor
    · rintro ⟨text, s', h, hcont, -⟩
      cases h
      rw [(hput c').1, hc] at hcont
      cases hcont
      exact .inr ⟨text, hx⟩
    · rintro (⟨e, he⟩ | ⟨text, he⟩)
      · cases hx.symm.trans he
      · cases hx.symm.trans he
        exact ⟨text, _, rfl, (hput c).1.trans hc.symm, (hput c).2⟩
  | throws e c' =>
    have h : (do return { answers := ← withContainer o x } : ServerM Reply).run s = .throws e (put c') := by
      rw [Prog.run_bind, hrun, hx]
      rfl
    rw [run_catching_throws h]
    constructor
    · rintro ⟨text, s', h, hcont, -⟩
      cases h
      rw [(hput c').1, hc] at hcont
      cases hcont
      exact .inl ⟨e, hx⟩
    · rintro (⟨e', he⟩ | ⟨text, he⟩)
      · cases hx.symm.trans he
        exact ⟨e.what, _, rfl, (hput c).1.trans hc.symm, (hput c).2⟩
      · cases hx.symm.trans he
  | undefined =>
    have h : (do return { answers := ← withContainer o x } : ServerM Reply).run s = .undefined := by
      rw [Prog.run_bind, hrun, hx]
      rfl
    rw [run_catching_undefined h]
    constructor
    · rintro ⟨text, s', h, -⟩
      cases h
    · rintro (⟨e, he⟩ | ⟨text, he⟩)
      · cases hx.symm.trans he
      · cases hx.symm.trans he

theorem parseDataCommand_run (hp : (cmd.params[0]?).bind lex.toUnsigned = some handle)
    (ho : s.handles[handle]? = some o) (hc : s.manager.containerOf o = some c) :
    (parseDataCommand lex cmd).run s =
      if cmd.params.length < 4 then .throws (invalidArgument "Invalid parameter count") s
      else
        match Text.extractFieldSet lex cmd.params.tail cmd.data with
        | none => .undefined
        | some (.error e) => .throws e s
        | some (.ok parsed) => .ok ⟨o, c.getName, c.getName, parsed⟩ s := by
  unfold parseDataCommand
  split
  · rfl
  · simp only [hp]
    rw [Prog.run_bind_ok _ _ (getRegisteredContainer_run ho hc)]
    dsimp only
    unfold readFields
    cases Text.extractFieldSet lex cmd.params.tail cmd.data with
    | none => rfl
    | some r => cases r <;> rfl

section Handlers

variable (hp : (cmd.params[0]?).bind lex.toUnsigned = some handle) (ho : s.handles[handle]? = some o)
  (hc : s.manager.containerOf o = some c)

include hp ho hc

theorem onDataCommand_allowed (body : Fields → Container.ContainerM (List Answer))
    (hallow : s.checkObjectAccess c.getName c.getName cmd.command = true) :
    Refused o s ((onDataCommand lex body cmd).run s) ↔ DataFails lex body c cmd := by
  have hparse := parseDataCommand_run hp ho hc
  unfold onDataCommand DataFails
  by_cases hlen : cmd.params.length < 4
  · rw [if_pos hlen] at hparse
    rw [run_catching_throws (Prog.run_bind_throws _ _ hparse)]
    exact iff_of_true (refused_error o s _) (.inl hlen)
  rw [if_neg hlen] at hparse
  cases hx : Text.extractFieldSet lex cmd.params.tail cmd.data with
  | none =>
    rw [hx] at hparse
    rw [run_catching_undefined (by rw [Prog.run_bind, hparse])]
    simp [Refused, hlen]
  | some r =>
    rw [hx] at hparse
    cases r with
    | error e =>
      rw [run_catching_throws (Prog.run_bind_throws _ _ hparse)]
      exact iff_of_true (refused_error o s _) (.inr (.inl ⟨e, rfl⟩))
    | ok parsed =>
      rw [run_catching_bind hparse, run_catching_bind (Prog.run_get s)]
      simp only [hallow, Bool.not_true, Bool.false_eq_true, if_false]
      cases parsed with
      | needs size =>
        rw [run_catching_ok (Prog.run_pure _ s)]
        simp [Refused, hlen]
      | fields f =>
        rw [refused_call hc]
        simp [hlen]

theorem onDataCommand_denied (body : Fields → Container.ContainerM (List Answer))
    (hdeny : s.checkObjectAccess c.getName c.getName cmd.command = false) :
    Refused o s ((onDataCommand lex body cmd).run s) ↔
      (4 ≤ cmd.params.length → Text.extractFieldSet lex cmd.params.tail cmd.data ≠ none) := by
  have hparse := parseDataCommand_run hp ho hc
  unfold onDataCommand
  by_cases hlen : cmd.params.length < 4
  · rw [if_pos hlen] at hparse
    rw [run_catching_throws (Prog.run_bind_throws _ _ hparse)]
    exact iff_of_true (refused_error o s _) fun h => absurd h (by omega)
  rw [if_neg hlen] at hparse
  cases hx : Text.extractFieldSet lex cmd.params.tail cmd.data with
  | none =>
    rw [hx] at hparse
    rw [run_catching_undefined (by rw [Prog.run_bind, hparse])]
    simpa [Refused] using hlen
  | some r =>
    rw [hx] at hparse
    cases r with
    | error e =>
      rw [run_catching_throws (Prog.run_bind_throws _ _ hparse)]
      exact iff_of_true (refused_error o s _) fun _ => nofun
    | ok parsed =>
      rw [run_catching_bind hparse, run_catching_bind (Prog.run_get s)]
      simp only [hdeny, Bool.not_false, if_true]
      exact iff_of_true (refused_error o s _) fun _ => nofun

theorem onCommandPop_allowed (hallow : s.checkObjectAccess c.getName c.getName cmd.command = true) :
    Refused o s ((onCommandPop lex cmd).run s) ↔
      cmd.params.length ≠ 1 ∨ Fails (popCommand cmd.command) c := by
  unfold onCommandPop
  split
  · rename_i param hparams
    have hparam : lex.toUnsigned param = some handle := by simpa [hparams] using hp
    rw [hparam]
    dsimp only
    rw [run_catching_bind (getRegisteredContainer_run ho hc), run_catching_bind (Prog.run_get s)]
    simp only [hallow, Bool.not_true, Bool.false_eq_true, if_false]
    rw [refused_call hc]
    simp [hparams]
  · rename_i hparams
    refine iff_of_true (refused_error o s _) (.inl fun hlen => ?_)
    obtain ⟨param, h⟩ := List.length_eq_one_iff.mp hlen
    exact hparams param h

theorem onCommandPop_denied (hdeny : s.checkObjectAccess c.getName c.getName cmd.command = false) :
    Refused o s ((onCommandPop lex cmd).run s) := by
  unfold onCommandPop
  split
  · rename_i param hparams
    have hparam : lex.toUnsigned param = some handle := by simpa [hparams] using hp
    rw [hparam]
    dsimp only
    rw [run_catching_bind (getRegisteredContainer_run ho hc), run_catching_bind (Prog.run_get s)]
    simp only [hdeny, Bool.not_false, if_true]
    exact refused_error o s _
  · exact refused_error o s _

theorem onCommandSubscribeUnsubscribe_allowed
    (hallow : s.checkObjectAccess c.getName c.getName cmd.command = true) :
    Refused o s ((onCommandSubscribeUnsubscribe lex cmd).run s) ↔
      3 < cmd.params.length ∨ filterEnd lex cmd ≠ .ok () := by
  unfold onCommandSubscribeUnsubscribe
  have hlen : ¬ cmd.params.length < 1 := by
    intro h
    have h0 : cmd.params = [] := List.length_eq_zero_iff.mp (by omega)
    simp [h0] at hp
  by_cases h3 : 3 < cmd.params.length
  · rw [if_pos (.inr h3)]
    exact iff_of_true (refused_error o s _) (.inl h3)
  · rw [if_neg (not_or.mpr ⟨hlen, h3⟩), hp]
    dsimp only
    rw [run_catching_bind (getRegisteredContainer_run ho hc), run_catching_bind (Prog.run_get s)]
    simp only [hallow, Bool.not_true, Bool.false_eq_true, if_false]
    cases hf : filterEnd lex cmd with
    | error e =>
      rw [run_catching_throws (Prog.run_bind_throws _ _ (Prog.run_ofExcept_error e s))]
      exact iff_of_true (refused_error o s _) (.inr nofun)
    | ok u =>
      rw [run_catching_bind (Prog.run_ofExcept_ok u s)]
      refine iff_of_false ?_ (by simp [h3])
      rintro ⟨text, s', h, -⟩
      by_cases hsub : cmd.command = ascii "subscribe"
      · rw [if_pos hsub, run_catching_ok rfl] at h
        cases h
      · rw [if_neg hsub, run_catching_ok rfl] at h
        cases h

theorem onCommandSubscribeUnsubscribe_denied
    (hdeny : s.checkObjectAccess c.getName c.getName cmd.command = false) :
    Refused o s ((onCommandSubscribeUnsubscribe lex cmd).run s) := by
  unfold onCommandSubscribeUnsubscribe
  split
  · exact refused_error o s _
  · rw [hp]
    dsimp only
    rw [run_catching_bind (getRegisteredContainer_run ho hc), run_catching_bind (Prog.run_get s)]
    simp only [hdeny, Bool.not_false, if_true]
    exact refused_error o s _

end Handlers

/-! ## Every command -/

def asksPermission (command : Bytes) : Bool :=
  handlerOf command ∈ [Handler.anyData, .modify, .pop, .subscribeUnsubscribe]

def setPermissions (lex : LexicalCast) (others : Command → ServerM (List Answer)) (history : List (List Bytes))
    (s : TextServer) : Option TextServer :=
  history.foldlM (fun s params => ((onTextCommand lex others ⟨ascii "set_permission", params, []⟩).run s).next) s

theorem catching_ne_throws (x : ServerM Reply) (e : Exc) (s' : TextServer) : (catching x).run s ≠ .throws e s' := by
  cases hx : x.run s with
  | ok r t => simp [run_catching_ok hx]
  | throws e' t => simp [run_catching_throws hx]
  | undefined => simp [run_catching_undefined hx]

theorem run_tryCatch_of_ne_throws {x : ServerM Reply} {f : Exc → ServerM Reply}
    (h : ∀ e s', x.run s ≠ .throws e s') : (tryCatch x f).run s = x.run s := by
  rw [Prog.run_tryCatch]
  cases hx : x.run s with
  | ok r t => rfl
  | throws e t => exact absurd hx (h e t)
  | undefined => rfl

theorem onCommandSubscribeUnsubscribe_ne_throws (e : Exc) (s' : TextServer) :
    (onCommandSubscribeUnsubscribe lex cmd).run s ≠ .throws e s' := by
  unfold onCommandSubscribeUnsubscribe
  split
  · nofun
  · split
    · nofun
    · exact catching_ne_throws _ _ _

theorem onTextCommand_run (hask : asksPermission cmd.command) :
    (onTextCommand lex others cmd).run s = (dispatch lex others cmd (handlerOf cmd.command)).run s := by
  refine run_tryCatch_of_ne_throws fun e s' => ?_
  cases hh : handlerOf cmd.command with
  | anyData => exact catching_ne_throws _ e s'
  | modify => exact catching_ne_throws _ e s'
  | pop => exact catching_ne_throws _ e s'
  | subscribeUnsubscribe => exact onCommandSubscribeUnsubscribe_ne_throws e s'
  | setPermission => simp [asksPermission, hh] at hask
  | other => simp [asksPermission, hh] at hask

section Commands

variable (hask : asksPermission cmd.command) (hp : (cmd.params[0]?).bind lex.toUnsigned = some handle)
  (ho : s.handles[handle]? = some o) (hc : s.manager.containerOf o = some c)

include hask hp ho hc

theorem onTextCommand_allowed (hallow : s.checkObjectAccess c.getName c.getName cmd.command = true) :
    Refused o s ((onTextCommand lex others cmd).run s) ↔ RefusedAnyway lex c cmd := by
  rw [onTextCommand_run hask, RefusedAnyway]
  cases hh : handlerOf cmd.command with
  | anyData => exact onDataCommand_allowed hp ho hc _ hallow
  | modify => exact onDataCommand_allowed hp ho hc _ hallow
  | pop => exact onCommandPop_allowed hp ho hc hallow
  | subscribeUnsubscribe => exact onCommandSubscribeUnsubscribe_allowed hp ho hc hallow
  | setPermission => simp [asksPermission, hh] at hask
  | other => simp [asksPermission, hh] at hask

theorem onTextCommand_denied (hdeny : s.checkObjectAccess c.getName c.getName cmd.command = false) :
    Refused o s ((onTextCommand lex others cmd).run s) ↔ Readable lex cmd := by
  rw [onTextCommand_run hask, Readable]
  cases hh : handlerOf cmd.command with
  | anyData => exact (onDataCommand_denied hp ho hc _ hdeny).trans (by simp)
  | modify => exact (onDataCommand_denied hp ho hc _ hdeny).trans (by simp)
  | pop => exact iff_of_true (onCommandPop_denied hp ho hc hdeny) (by simp)
  | subscribeUnsubscribe => exact iff_of_true (onCommandSubscribeUnsubscribe_denied hp ho hc hdeny) (by simp)
  | setPermission => simp [asksPermission, hh] at hask
  | other => simp [asksPermission, hh] at hask

end Commands

theorem DataFails.readable {body : Fields → Container.ContainerM (List Answer)} (h : DataFails lex body c cmd)
    (hlen : 4 ≤ cmd.params.length) : Text.extractFieldSet lex cmd.params.tail cmd.data ≠ none := by
  rcases h with h | ⟨e, he⟩ | ⟨f, hf, -⟩
  · omega
  · simp [he]
  · simp [hf]

theorem RefusedAnyway.readable (h : RefusedAnyway lex c cmd) : Readable lex cmd := by
  rintro (hh | hh) hlen
  · rw [RefusedAnyway, hh] at h
    exact DataFails.readable h hlen
  · rw [RefusedAnyway, hh] at h
    exact DataFails.readable h hlen

/-- Where the rules of the container's type and name do not allow the command, it is refused exactly when the rules of
its name twice do not allow it either, or it comes to an error whatever the rules are. -/
theorem denied_command_refused_iff (lex : LexicalCast) (others : Command → ServerM (List Answer))
    (history : List (List Bytes)) (s₀ : TextServer) :
    ∀ s, setPermissions lex others history s₀ = some s →
      ∀ (cmd : Command) (handle : UInt32) (o : Nat) (c : Container), asksPermission cmd.command →
        (cmd.params[0]?).bind lex.toUnsigned = some handle → s.handles[handle]? = some o →
        s.manager.containerOf o = some c →
        ((s.auth.checkObjectAccess c.getType c.getName cmd.command s.tokens ≠ .allow →
            Refused o s ((onTextCommand lex others cmd).run s)) ↔
          (s.auth.checkObjectAccess c.getType c.getName cmd.command s.tokens = .allow ∨
            (s.auth.checkObjectAccess c.getName c.getName cmd.command s.tokens ≠ .allow ∧ Readable lex cmd) ∨
            RefusedAnyway lex c cmd)) := by
  intro s _ cmd handle o c hask hp ho hc
  have hread : RefusedAnyway lex c cmd → Readable lex cmd := RefusedAnyway.readable
  by_cases hname : s.auth.checkObjectAccess c.getName c.getName cmd.command s.tokens = .allow
  · rw [onTextCommand_allowed hask hp ho hc (by simp [checkObjectAccess, hname])]
    tauto
  · rw [onTextCommand_denied hask hp ho hc (by simp [checkObjectAccess, hname])]
    tauto

def oneList (name : Bytes) : TextServer where
  manager := (((do
    ContainerManager.setupContainerManager []
    ContainerManager.createContainer ContainerManager.volatileList name) : ContainerManager.ManagerM Nat).run {}).next.getD {}
  auth := {}
  handles := (∅ : Std.ExtTreeMap UInt32 Nat).insert 1 2
  tokens := [ascii "bob"]
  subscriptions := []

def denyBob (name command : Bytes) : List Bytes :=
  [ContainerManager.volatileList, name, command, ascii "deny", ascii "bob"]

def noOthers (_ : Command) : ServerM (List Answer) := return []

/-- A list that has the name of its type: the pair that is asked for is the right one. -/
theorem denied_command_refused_same_name :
    ∃ s, setPermissions .digits noOthers [denyBob ContainerManager.volatileList (ascii "pop_back")]
        (oneList ContainerManager.volatileList) = some s ∧
      Refused 2 s ((onTextCommand .digits noOthers (.parse (ascii "pop_back 1"))).run s) := by
  refine ⟨_, rfl, ?_⟩
  refine (denied_command_refused_iff .digits noOthers
    [denyBob ContainerManager.volatileList (ascii "pop_back")] (oneList ContainerManager.volatileList) _ rfl
    (.parse (ascii "pop_back 1")) 1 2 _ rfl rfl rfl rfl).mpr (.inr (.inl ⟨?_, ?_⟩)) ?_
  · decide
  · exact fun h => absurd h (by decide)
  · decide

def pushCommand : Command := { Command.parse (ascii "push_back 1 value string 1") with data := ascii "a\r\n" }

/-- A list of another name: `bob` pushes a record, which the rules of the list deny. -/
theorem denied_command_carried_out :
    ∃ s, setPermissions .digits noOthers [denyBob (ascii "x") (ascii "push_back")] (oneList (ascii "x")) = some s ∧
      (s.handles[(1 : UInt32)]?, (s.manager.containerOf 2).map fun c => (c.getType, c.getName)) =
        (some 2, some (ContainerManager.volatileList, ascii "x")) ∧
      s.auth.checkObjectAccess ContainerManager.volatileList (ascii "x") (ascii "push_back") s.tokens = .deny ∧
      ((onTextCommand .digits noOthers pushCommand).run s).result = some (.ok { answers := [.ok []] }) ∧
      ¬ Refused 2 s ((onTextCommand .digits noOthers pushCommand).run s) := by
  refine ⟨_, rfl, rfl, by decide, by decide, ?_⟩
  rintro ⟨text, s', h, -⟩
  have hresult := congrArg Outcome.result h
  revert hresult
  rw [show ((onTextCommand .digits noOthers pushCommand).run _).result = some (.ok { answers := [.ok []] }) by decide]
  nofun

end TextServer

end Tiodb
