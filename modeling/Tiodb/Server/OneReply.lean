import Tiodb.Server.Handlers

/-!
# One answer to each request

A client of the text protocol matches answers to commands by their order, and one of
the HTTP port reads one response.
-/

namespace Tiodb

open Lib

/-- The line of the answer has its end: with nothing to serialize, `SerializeData` writes none. -/
def Answer.Ended : Answer → Prop
  | .data key value metadata => ¬ (key.isNull ∧ value.isNull ∧ metadata.isNull)
  | _ => True

namespace Handlers

/-- The answer to a change of the protocol is one of its own. -/
inductive OneReply : List Write → Prop
  | answer {a : Answer} (h : a.Ended) : OneReply [.answer a]
  | resultSet (queryId : UInt32) (records : List Fields) :
    OneReply (.resultSetStart queryId :: records.map (.resultSetItem queryId) ++ [.resultSetEnd queryId])
  | http (response : HttpResponse) : OneReply [.http response]
  | goingBinary : OneReply [.goingBinary]

theorem oneReply_answer {a : Answer} : OneReply [.answer a] ↔ a.Ended := by
  constructor
  · intro h
    generalize hw : [Write.answer a] = ws at h
    cases h with
    | answer h =>
      obtain rfl : a = _ := by simpa using hw
      exact h
    | resultSet queryId records => cases hw
    | http response => cases hw
    | goingBinary => cases hw
  · exact OneReply.answer

theorem not_oneReply_nil : ¬ OneReply [] := by
  intro h
  generalize hl : ([] : List Write) = l at h
  cases h <;> simp at hl

theorem not_oneReply_two {w w' : Write} {ws : List Write} (hw : ∀ queryId, w ≠ .resultSetStart queryId) :
    ¬ OneReply (w :: w' :: ws) := by
  intro h
  generalize hl : w :: w' :: ws = l at h
  cases h with
  | answer h => cases hl
  | resultSet queryId records => exact hw queryId (List.cons.inj hl).1
  | http response => cases hl
  | goingBinary => cases hl

theorem not_oneReply_unfinished (queryId : UInt32) (ws : List Write) (a : Answer) :
    ¬ OneReply (.resultSetStart queryId :: ws ++ [.answer a]) := by
  intro h
  generalize hl : .resultSetStart queryId :: ws ++ [.answer a] = l at h
  cases h with
  | answer h => simp at hl
  | resultSet queryId' records =>
    have hlast := (List.append_inj' hl rfl).2
    cases hlast
  | http response => simp at hl
  | goingBinary => simp at hl

/-! ## Handlers that write one reply, or throw before they write -/

def Replies {α : Type} (x : HandlerM α) : Prop :=
  (∃ a out, x.run {} = .ok a out ∧ OneReply out.writes ∧ out.moreDataSize = 0) ∨ ∃ e, x.run {} = .throws e {}

theorem replies_makeAnswer {a : Answer} (h : a.Ended) : Replies (makeAnswer a) :=
  .inl ⟨(), { answer := [a] }, rfl, .answer h, rfl⟩

theorem replies_makeError (text : String) : Replies (makeError text) := replies_makeAnswer trivial

theorem replies_ok (text : Bytes) : Replies (makeAnswer (.ok text)) := replies_makeAnswer trivial

theorem replies_makeSuccess : Replies makeSuccess := replies_ok []

theorem Replies.ofExcept_bind {α β : Type} {x : Except Exc α} {f : α → HandlerM β} (h : ∀ a, Replies (f a)) :
    Replies (Prog.ofExcept x >>= f) := by
  cases x with
  | ok a => exact h a
  | error e => exact .inr ⟨e, rfl⟩

theorem Replies.bind_pure {α β : Type} {x : HandlerM α} (h : Replies x) (f : α → β) :
    Replies (x >>= fun a => pure (f a)) := by
  obtain ⟨a, out, hrun, hout⟩ | ⟨e, hrun⟩ := h
  · refine .inl ⟨f a, out, ?_, hout⟩
    rw [Prog.run_bind, hrun]
    rfl
  · refine .inr ⟨e, ?_⟩
    rw [Prog.run_bind, hrun]

theorem Replies.catching {x : HandlerM Bool} (h : Replies x) : Replies (catching x) := by
  obtain ⟨a, out, hrun, hout⟩ | ⟨e, hrun⟩ := h
  · refine .inl ⟨a, out, ?_, hout⟩
    rw [Handlers.catching, Prog.run_tryCatch, hrun]
  · refine .inl ⟨false, { answer := [.error e.what] }, ?_, .answer trivial, rfl⟩
    rw [Handlers.catching, Prog.run_tryCatch, hrun]
    rfl

theorem Replies.ite {α : Type} {p : Prop} [Decidable p] {x y : HandlerM α} (hx : Replies x) (hy : Replies y) :
    Replies (if p then x else y) := by
  split
  · exact hx
  · exact hy

theorem replies_withContainer {lex : LexicalCast} {server : ServerAnswers} {cmd : Command}
    {body : ContainerAnswers → HandlerM Unit} (h : ∀ container, Replies (body container)) :
    Replies (withContainer lex server cmd body) := by
  unfold withContainer
  split
  · exact replies_makeError _
  · exact h _

section

variable (lex : LexicalCast) (server : ServerAnswers) (cmd : Command)

theorem replies_createContainerOpenContainer : Replies (onCommandCreateContainerOpenContainer server cmd) := by
  unfold onCommandCreateContainerOpenContainer
  split
  · exact replies_makeError _
  · apply Replies.bind_pure
    apply Replies.catching
    split
    · split
      · exact (replies_makeError _).bind_pure _
      · split
        · exact (replies_makeError _).bind_pure _
        · exact Replies.ofExcept_bind fun container => (replies_ok _).bind_pure _
    · split
      · exact (replies_makeError _).bind_pure _
      · exact Replies.ofExcept_bind fun container => (replies_ok _).bind_pure _

theorem replies_closeContainer : Replies (onCommandCloseContainer lex server cmd) := by
  unfold onCommandCloseContainer
  split
  · split
    · exact replies_makeError _
    · split
      · exact replies_makeError _
      · exact replies_makeSuccess
  · exact replies_makeError _

theorem replies_deleteContainer : Replies (onCommandDeleteContainer server cmd) := by
  unfold onCommandDeleteContainer
  split
  · split
    · exact replies_makeError _
    · apply Replies.bind_pure
      apply Replies.catching
      exact Replies.ofExcept_bind fun _ => replies_makeSuccess.bind_pure _
  · exact replies_makeError _

theorem replies_clear : Replies (onCommandClear lex server cmd) := by
  unfold onCommandClear
  apply Replies.ite (replies_makeError _)
  exact replies_withContainer fun container => Replies.ofExcept_bind fun _ => replies_makeSuccess

theorem replies_getRecordCount : Replies (onCommandGetRecordCount lex server cmd) := by
  unfold onCommandGetRecordCount
  apply Replies.ite (replies_makeError _)
  exact replies_withContainer fun container => Replies.ofExcept_bind fun count => replies_ok _

theorem replies_customCommand : Replies (onCommandCustomCommand lex server cmd) := by
  unfold onCommandCustomCommand
  apply Replies.ite (replies_makeError _)
  exact replies_withContainer fun container => Replies.ofExcept_bind fun result => replies_ok _

theorem replies_subscribeUnsubscribe : Replies (onCommandSubscribeUnsubscribe lex server cmd) := by
  unfold onCommandSubscribeUnsubscribe
  apply Replies.ite (replies_makeError _)
  split
  · exact replies_makeError _
  · apply Replies.bind_pure
    apply Replies.catching
    apply Replies.ofExcept_bind
    intro container
    split
    · exact (replies_makeError _).bind_pure _
    · exact Replies.ofExcept_bind fun _ => replies_makeSuccess.bind_pure _

theorem replies_auth : Replies (onCommandAuth server cmd) := by
  unfold onCommandAuth
  split
  · apply Replies.ite (replies_makeError _)
    split
    · exact replies_makeError _
    · exact Replies.ite replies_makeSuccess (replies_makeError _)
  · exact replies_makeError _

theorem replies_setPermission : Replies (onCommandSetPermission server cmd) := by
  unfold onCommandSetPermission
  split
  · apply Replies.ite (replies_makeError _)
    apply Replies.ite (replies_makeError _)
    apply Replies.ofExcept_bind
    intro found
    exact Replies.ite (replies_makeError _) (Replies.ite (replies_makeError _) replies_makeSuccess)
  · exact replies_makeError _

theorem replies_groupAdd : Replies (onCommandGroupAdd server cmd) := by
  unfold onCommandGroupAdd
  split
  · apply Replies.bind_pure
    apply Replies.catching
    apply Replies.ofExcept_bind
    intro container
    apply Replies.ofExcept_bind
    intro _
    exact .inl ⟨false, { sent := [.answer (.ok [])] }, rfl, .answer trivial, rfl⟩
  · exact replies_makeError _

theorem replies_groupSubscribe : Replies (onCommandGroupSubscribe cmd) := by
  unfold onCommandGroupSubscribe
  split
  · exact .inl ⟨(), { sent := [.answer (.ok [])] }, rfl, .answer trivial, rfl⟩
  · exact replies_makeError _
  · exact replies_makeError _

theorem run_sendItems (queryId : UInt32) (records : List Fields) (out : Out) :
    (records.forM fun record => send (.resultSetItem queryId record)).run out =
      .ok () { out with sent := out.sent ++ records.map (.resultSetItem queryId) } := by
  induction records generalizing out with
  | nil => simp
  | cons record records ih =>
    change (send (.resultSetItem queryId record) >>= fun _ => records.forM _).run out = _
    rw [send, Prog.run_modify_bind, ih]
    simp

theorem run_sendTextResultSet (records : List Fields) (queryId : UInt32) (out : Out) :
    (sendTextResultSet records queryId).run out = .ok () { out with
      sent := out.sent ++ .resultSetStart queryId :: records.map (.resultSetItem queryId) ++ [.resultSetEnd queryId] } := by
  unfold sendTextResultSet
  rw [send, Prog.run_modify_bind, Prog.run_bind, run_sendItems]
  simp [send]

theorem replies_query : Replies (onCommandQuery lex server cmd) := by
  unfold onCommandQuery
  apply Replies.ite (replies_makeError _)
  apply replies_withContainer
  intro container
  dsimp only
  split
  · apply Replies.bind_pure
    apply Replies.catching
    apply Replies.ofExcept_bind
    intro records
    apply Replies.bind_pure
    let ws : List Write := .resultSetStart server.createNewQueryId ::
      records.map (.resultSetItem server.createNewQueryId) ++ [.resultSetEnd server.createNewQueryId]
    refine .inl ⟨(), { sent := ws }, ?_, ?_, rfl⟩
    · exact run_sendTextResultSet records _ {}
    · simpa [Out.writes, ws] using OneReply.resultSet server.createNewQueryId records
  · exact replies_makeError _

/-! ## Records with nothing in them -/

def Blank (record : Fields) : Prop := record.key.isNull ∧ record.value.isNull ∧ record.metadata.isNull

def PopAnswerable : Prop :=
  cmd.params.length = 1 → ∀ container, registered lex server cmd.params[0]? = .ok container →
    server.checkObjectAccess container.name container.name cmd.command = true →
    ∀ record, (if cmd.command = ascii "pop_back" then container.popBack else container.popFront) = .ok record →
      ¬ Blank record

theorem run_pop : ∃ a, (onCommandPop lex server cmd).run {} = .ok () { answer := [a] } ∧
    (a.Ended ↔ PopAnswerable lex server cmd) := by
  unfold onCommandPop PopAnswerable
  by_cases hp : cmd.params.length = 1
  · cases hc : registered lex server cmd.params[0]? with
    | error e =>
      refine ⟨.error e.what, ?_, by simp [Answer.Ended]⟩
      simp [catching, Prog.run_bind, Prog.run_tryCatch, hp, makeAnswer]
    | ok container =>
      cases ha : server.checkObjectAccess container.name container.name cmd.command with
      | false =>
        refine ⟨.error (ascii "access denied"), ?_, by simp [Answer.Ended, ha]⟩
        simp [catching, Prog.run_bind, Prog.run_tryCatch, hp, ha, makeError, makeAnswer]
      | true =>
        cases hr : (if cmd.command = ascii "pop_back" then container.popBack else container.popFront) with
        | error e =>
          refine ⟨.error e.what, ?_, by simp [Answer.Ended, hr]⟩
          simp [catching, Prog.run_bind, Prog.run_tryCatch, hp, ha, hr, makeAnswer]
        | ok record =>
          refine ⟨.data record.key record.value record.metadata, ?_, ?_⟩
          · simp [catching, Prog.run_bind, Prog.run_tryCatch, hp, ha, hr, makeAnswer]
          · simp [Answer.Ended, hp, ha, hr, Blank]
  · refine ⟨.error (ascii "invalid parameter count"), ?_, by simp [Answer.Ended, hp]⟩
    simp [catching, Prog.run_bind, Prog.run_tryCatch, hp, makeError, makeAnswer]

/-! ## Commands with data -/

/-- What is written once a command has its data. -/
def reply (body : ContainerAnswers → Fields → HandlerM Bool) (container : ContainerAnswers) (f : Fields) :
    HandlerM Unit := do
  let falls ← catching (body container f)
  if falls then makeSuccess

/-- The command is answered once if `Carried` holds where it is carried out, and `next` where it asks for data. -/
def DataAnswerable (Carried : ContainerAnswers → Fields → Prop) (next : UInt64 → Prop) : Prop :=
  4 ≤ cmd.params.length → ∀ container, registered lex server cmd.params[0]? = .ok container →
    match Text.extractFieldSet lex cmd.params.tail cmd.data with
    | none => False
    | some (.error _) => True
    | some (.ok parsed) =>
      server.checkObjectAccess container.name container.name cmd.command = true →
        match parsed with
        | .needs size => next size
        | .fields f => Carried container f

theorem run_onDataCommand {body : ContainerAnswers → Fields → HandlerM Bool}
    {Carried : ContainerAnswers → Fields → Prop}
    (hbody : ∀ container f, ∃ as, (reply body container f).run {} = .ok () { answer := as } ∧
      (OneReply (as.map Write.answer) ↔ Carried container f)) :
    ((onDataCommand lex server body cmd).run {} = .undefined ∧
      ∀ next, ¬ DataAnswerable lex server cmd Carried next) ∨
    (∃ size, (onDataCommand lex server body cmd).run {} = .ok () { moreDataSize := size } ∧
      Text.extractFieldSet lex cmd.params.tail cmd.data = some (.ok (.needs size)) ∧
      ∀ next, DataAnswerable lex server cmd Carried next ↔ next size) ∨
    ∃ as, (onDataCommand lex server body cmd).run {} = .ok () { answer := as } ∧
      ∀ next, OneReply (as.map Write.answer) ↔ DataAnswerable lex server cmd Carried next := by
  have herror (text : Bytes) : OneReply ([Answer.error text].map Write.answer) := .answer trivial
  unfold onDataCommand DataAnswerable parseDataCommand
  by_cases hlen : cmd.params.length < 4
  · refine .inr (.inr ⟨[.error (ascii "Invalid parameter count")], ?_, fun next => ?_⟩)
    · simp [hlen, catching, Prog.run_bind, Prog.run_tryCatch, makeAnswer, invalidArgument]
    · exact iff_of_true (herror _) fun h => absurd h (by omega)
  cases hc : registered lex server cmd.params[0]? with
  | error e =>
    refine .inr (.inr ⟨[.error (invalidHandle e).what], ?_, fun next => ?_⟩)
    · simp [hlen, catching, Prog.run_bind, Prog.run_tryCatch, makeAnswer]
    · exact iff_of_true (herror _) (by simp)
  | ok container =>
    have hlen' : 4 ≤ cmd.params.length := by omega
    cases hx : Text.extractFieldSet lex cmd.params.tail cmd.data with
    | none =>
      refine .inl ⟨?_, fun next h => h hlen' container rfl⟩
      simp [hlen, catching, Prog.run_bind, Prog.run_tryCatch]
    | some parsed =>
      cases parsed with
      | error e =>
        refine .inr (.inr ⟨[.error e.what], ?_, fun next => ?_⟩)
        · simp [hlen, catching, Prog.run_bind, Prog.run_tryCatch, makeAnswer]
        · exact iff_of_true (herror _) (by simp)
      | ok parsed =>
        cases ha : server.checkObjectAccess container.name container.name cmd.command with
        | false =>
          refine .inr (.inr ⟨[.error (ascii "access denied")], ?_, fun next => ?_⟩)
          · simp [hlen, ha, catching, Prog.run_bind, Prog.run_tryCatch, makeAnswer, makeError]
          · exact iff_of_true (herror _) (by simp [ha])
        | true =>
          cases parsed with
          | needs size =>
            refine .inr (.inl ⟨size, ?_, rfl, fun next => ?_⟩)
            · simp [hlen, ha, catching, Prog.run_bind, Prog.run_tryCatch]
            · simp [hlen', ha]
          | fields f =>
            obtain ⟨as, hrun, hiff⟩ := hbody container f
            refine .inr (.inr ⟨as, ?_, fun next => ?_⟩)
            · rw [← hrun]
              simp [hlen, ha, reply, catching, Prog.run_bind, Prog.run_tryCatch]
            · rw [hiff]
              simp [hlen', ha]

theorem reply_of_run {body : ContainerAnswers → Fields → HandlerM Bool} {container : ContainerAnswers} {f : Fields}
    {x : Except Exc Unit} (h : (body container f).run {} = (Prog.ofExcept x >>= fun _ => pure true).run {}) :
    ∃ a, a.Ended ∧ (reply body container f).run {} = .ok () { answer := [a] } := by
  cases x with
  | error e =>
    refine ⟨.error e.what, trivial, ?_⟩
    simp [reply, catching, Prog.run_bind, Prog.run_tryCatch, h, makeAnswer]
  | ok _ =>
    refine ⟨.ok [], trivial, ?_⟩
    simp [reply, catching, Prog.run_bind, Prog.run_tryCatch, h, makeSuccess, makeAnswer]

theorem reply_of_return {body : ContainerAnswers → Fields → HandlerM Bool} {container : ContainerAnswers} {f : Fields}
    {a : Answer} (h : (body container f).run {} = .ok false { answer := [a] }) :
    (reply body container f).run {} = .ok () { answer := [a] } := by
  simp [reply, catching, Prog.run_bind, Prog.run_tryCatch, h]

def GetAnswerable (container : ContainerAnswers) (f : Fields) : Prop :=
  cmd.command = ascii "get" → ∀ record, container.getRecord f.key = .ok record → ¬ (f.key.isNull ∧ Blank record)

theorem run_anyDataCommand {command : Bytes} (hne : command ≠ ascii "get") (container : ContainerAnswers) (f : Fields) :
    (∃ x : Except Exc Unit,
      (anyDataCommand command container f).run {} = (Prog.ofExcept x >>= fun _ => pure true).run {}) ∨
      ∃ a : Answer, a.Ended ∧ (anyDataCommand command container f).run {} = .ok false { answer := [a] } := by
  unfold anyDataCommand
  dsimp only
  split
  · exact .inl ⟨_, rfl⟩
  split
  · exact .inl ⟨_, rfl⟩
  split
  · exact .inl ⟨_, rfl⟩
  split
  · exact .inl ⟨_, rfl⟩
  split
  · exact .inl ⟨_, rfl⟩
  split
  · -- `set_property` catches what it does not allow
    generalize (do
      let key ← f.key.asSz
      let value ← f.value.asSz
      container.setProperty key value) = x
    cases x with
    | ok _ => exact .inl ⟨.ok (), rfl⟩
    | error e => exact .inr ⟨.error (ascii "key and value must be strings"), trivial, rfl⟩
  split
  · generalize (do
      let key ← f.key.asSz
      container.getProperty key) = x
    cases x with
    | ok value => exact .inr ⟨.data f.key (.string value) .none, by simp [Answer.Ended, TioData.isNull], rfl⟩
    | error e => exact .inr ⟨.error (ascii "invalid key"), trivial, rfl⟩
  · exact .inl ⟨.ok (), rfl⟩

theorem reply_anyDataCommand (container : ContainerAnswers) (f : Fields) :
    ∃ as, (reply (anyDataCommand cmd.command) container f).run {} = .ok () { answer := as } ∧
      (OneReply (as.map Write.answer) ↔ GetAnswerable cmd container f) := by
  by_cases hget : cmd.command = ascii "get"
  · have hrun : anyDataCommand cmd.command container f = (do
        let record ← Prog.ofExcept (container.getRecord f.key)
        makeAnswer (.data (if record.key.isNull then f.key else record.key) record.value record.metadata)
        return false) := by
      rw [hget]
      rfl
    cases hg : container.getRecord f.key with
    | error e =>
      refine ⟨[.error e.what], ?_, iff_of_true (.answer trivial) ?_⟩
      · simp [reply, catching, hrun, hg, Prog.run_bind, Prog.run_tryCatch, makeAnswer]
      · simp [GetAnswerable, hg]
    | ok record =>
      refine ⟨[.data (if record.key.isNull then f.key else record.key) record.value record.metadata],
        reply_of_return ?_, ?_⟩
      · simp [hrun, hg, Prog.run_bind, makeAnswer]
      · rw [List.map_singleton, oneReply_answer]
        cases hk : record.key.isNull <;> simp [Answer.Ended, GetAnswerable, hget, hg, Blank, hk]
  · have hcond : GetAnswerable cmd container f := fun h => absurd h hget
    obtain ⟨x, hx⟩ | ⟨a, ha, hrun⟩ := run_anyDataCommand hget container f
    · obtain ⟨a, ha, hrun⟩ := reply_of_run hx
      exact ⟨[a], hrun, iff_of_true (.answer ha) hcond⟩
    · exact ⟨[a], reply_of_return hrun, iff_of_true (.answer ha) hcond⟩

/-- The sum is written. -/
def Modifies (container : ContainerAnswers) (f : Fields) : Prop :=
  ∃ toAdd record current, Modify.operand lex f.key f.value = .ok toAdd ∧ container.getRecord f.key = .ok record ∧
    record.value = .int current ∧ container.set ⟨f.key, .int (current + toAdd), .none⟩ = .ok ()

theorem reply_modifyCommand (container : ContainerAnswers) (f : Fields) :
    ∃ as, (reply (modifyCommand lex) container f).run {} = .ok () { answer := as } ∧
      (OneReply (as.map Write.answer) ↔ ¬ Modifies lex container f) := by
  have herror (text : Bytes) (h : ¬ Modifies lex container f) :
      OneReply ([Answer.error text].map Write.answer) ↔ ¬ Modifies lex container f :=
    iff_of_true (.answer trivial) h
  cases ho : Modify.operand lex f.key f.value with
  | error text =>
    refine ⟨[.error text], reply_of_return ?_, herror _ ?_⟩
    · simp [modifyCommand, ho, makeAnswer]
    · simp [Modifies, ho]
  | ok toAdd =>
    cases hg : container.getRecord f.key with
    | error e =>
      refine ⟨[.error e.what], ?_, herror _ ?_⟩
      · simp [reply, catching, modifyCommand, ho, hg, Prog.run_bind, Prog.run_tryCatch, makeAnswer]
      · simp [Modifies, hg]
    | ok record =>
      cases hv : record.value with
      | int current =>
        cases hs : container.set ⟨f.key, .int (current + toAdd), .none⟩ with
        | error e =>
          refine ⟨[.error e.what], ?_, herror _ ?_⟩
          · simp [reply, catching, modifyCommand, ho, hg, hv, hs, Prog.run_bind, Prog.run_tryCatch, makeAnswer]
          · simp [Modifies, ho, hg, hv, hs]
        | ok _ =>
          -- the answer with the sum, and the one at the end of the handler
          refine ⟨[.data .none (.int (current + toAdd)) .none, .ok []], ?_, ?_⟩
          · simp [reply, catching, modifyCommand, ho, hg, hv, hs, Prog.run_bind, Prog.run_tryCatch, makeAnswer,
              makeSuccess]
          · refine iff_of_false (not_oneReply_two (by simp)) ?_
            simp [Modifies, ho, hg, hv, hs]
      | none | double _ | string _ =>
        refine ⟨[.error (ascii "modified data must be integer")], reply_of_return ?_, herror _ ?_⟩
        · simp [modifyCommand, ho, hg, hv, Prog.run_bind, makeError, makeAnswer]
        · simp [Modifies, hg, hv]

/-! ## Queries with a regular expression -/

/-- The keys that the loop compares. -/
def compared (regexMatch : Bytes → Except Exc Bool) : List Fields → Nat → List Bytes
  | [], _ => []
  | _ :: _, 0 => []
  | record :: records, left + 1 =>
    match record.key with
    | .string key =>
      cstr key :: compared regexMatch records (if regexMatch (cstr key) = .ok true then left else left + 1)
    | _ => compared regexMatch records (left + 1)

/-- The loop sends some items, and throws if and only if a comparison does. -/
theorem run_sendMatches (regexMatch : Bytes → Except Exc Bool) (queryId : UInt32) (records : List Fields) (left : Nat)
    (out : Out) :
    ∃ items : List Fields, let out' := { out with sent := out.sent ++ items.map (.resultSetItem queryId) }
      ((∀ key ∈ compared regexMatch records left, ∃ b, regexMatch key = .ok b) ∧
        (sendMatches regexMatch queryId records left).run out = .ok () out') ∨
      ((¬ ∀ key ∈ compared regexMatch records left, ∃ b, regexMatch key = .ok b) ∧
        ∃ e, (sendMatches regexMatch queryId records left).run out = .throws e out') := by
  induction records generalizing left out with
  | nil => exact ⟨[], .inl ⟨by simp [compared], by simp [sendMatches]⟩⟩
  | cons record records ih =>
    cases left with
    | zero => exact ⟨[], .inl ⟨by simp [compared], by simp [sendMatches]⟩⟩
    | succ left =>
      cases hk : record.key with
      | none | int _ | double _ =>
        obtain ⟨items, h⟩ := ih (left + 1) out
        refine ⟨items, ?_⟩
        simpa [compared, sendMatches, hk] using h
      | string key =>
        cases hm : regexMatch (cstr key) with
        | error e => exact ⟨[], .inr ⟨by simp [compared, hk, hm], e, by simp [sendMatches, hk, hm, Prog.run_bind]⟩⟩
        | ok b =>
          cases b with
          | false =>
            obtain ⟨items, h⟩ := ih (left + 1) out
            refine ⟨items, ?_⟩
            simpa [compared, sendMatches, hk, hm, Prog.run_bind] using h
          | true =>
            obtain ⟨items, h⟩ := ih left { out with sent := out.sent ++ [.resultSetItem queryId record] }
            refine ⟨record :: items, ?_⟩
            simpa [compared, sendMatches, hk, hm, Prog.run_bind, send] using h

def recordLimit : Option UInt32 := (cmd.params[2]?).elim (some 0xFFFFFFFF) lex.toUnsigned

def QueryExAnswerable : Prop :=
  2 ≤ cmd.params.length → ∀ container, registered lex server cmd.params[0]? = .ok container →
    ∀ maxRecords, recordLimit lex cmd = some maxRecords →
      ∀ regexMatch, server.regex (cmd.params[1]?.getD []) = .ok regexMatch →
        ∀ records, container.query 0 0 .none = .ok records →
          ∀ key ∈ compared regexMatch records maxRecords.toNat, ∃ b, regexMatch key = .ok b

theorem run_queryEx :
    (Replies (onCommandQueryEx lex server cmd) ∧ QueryExAnswerable lex server cmd) ∨
      (¬ QueryExAnswerable lex server cmd ∧ ∃ e queryId items,
        (onCommandQueryEx lex server cmd).run {} = .throws e { sent := .resultSetStart queryId :: items }) := by
  unfold onCommandQueryEx QueryExAnswerable withContainer
  by_cases hp : cmd.params.length < 2
  · rw [if_pos hp]
    exact .inl ⟨replies_makeError _, fun h => absurd h (by omega)⟩
  rw [if_neg hp]
  have hp' : 2 ≤ cmd.params.length := by omega
  cases hc : registered lex server cmd.params[0]? with
  | error e => exact .inl ⟨replies_makeError _, by simp⟩
  | ok container =>
    dsimp only
    cases hl : recordLimit lex cmd with
    | none =>
      rw [recordLimit] at hl
      rw [hl]
      exact .inl ⟨replies_makeError _, by simp⟩
    | some maxRecords =>
      rw [recordLimit] at hl
      rw [hl]
      cases hr : server.regex (cmd.params[1]?.getD []) with
      | error e => exact .inl ⟨.inr ⟨e, rfl⟩, by simp⟩
      | ok regexMatch =>
        cases hq : container.query 0 0 .none with
        | error e => exact .inl ⟨.inr ⟨e, by simp [Prog.run_bind]⟩, by simp [hq]⟩
        | ok records =>
          obtain ⟨items, hrun⟩ := run_sendMatches regexMatch server.createNewQueryId records maxRecords.toNat
            { sent := [.resultSetStart server.createNewQueryId] }
          rcases hrun with ⟨hall, hrun⟩ | ⟨hno, e, hrun⟩
          · refine .inl ⟨.inl ⟨(), { sent := .resultSetStart server.createNewQueryId ::
              (items.map (.resultSetItem server.createNewQueryId) ++ [.resultSetEnd server.createNewQueryId]) },
              ?_, ?_, rfl⟩, ?_⟩
            · simp [Prog.run_bind, send, hrun]
            · simpa [Out.writes] using OneReply.resultSet server.createNewQueryId items
            · intro _ container' hc' maxRecords' hl' regexMatch' hr' records' hq'
              obtain rfl := Except.ok.inj hc'
              obtain rfl := Option.some.inj hl'
              obtain rfl := Except.ok.inj hr'
              obtain rfl := Except.ok.inj (hq.symm.trans hq')
              exact hall
          · refine .inr ⟨fun h => hno (h hp' container rfl maxRecords rfl regexMatch rfl records hq), e,
              server.createNewQueryId, items.map (.resultSetItem server.createNewQueryId), ?_⟩
            simp [Prog.run_bind, send, hrun]

end

/-! ## HTTP -/

/-- The `Accept` header asks for one of the formats there are. -/
def Renders (headers : StringMap Bytes) : Prop :=
  let accept := headers[ascii "Accept"]?
  (accept = none ∨ (∃ a ∈ accept, ascii "application/json" <:+: a) ∨ accept = some (ascii "*/*")) ∨
    ∃ a ∈ accept, ascii "text/html" <:+: a

def HttpAnswerable (server : ServerAnswers) (m : HttpMessage) : Prop :=
  m.method = ascii "GET" → normalizedPath m.url ≠ [] →
    ∃ container, server.openContainer [] (normalizedPath m.url) = .ok container ∧
      (Renders m.headers → ∃ records, container.query 0 0 .none = .ok records)

theorem createContainerHttpResponse_renders {headers : StringMap Bytes} (h : Renders headers) :
    ∃ response : ContainerAnswers → List Fields → HttpResponse,
      createContainerHttpResponse headers none = Prog.undefined ∧
      ∀ container, createContainerHttpResponse headers (some container) =
        (Prog.ofExcept (container.query 0 0 .none) >>= fun records => pure (response container records)) := by
  unfold createContainerHttpResponse
  dsimp only
  by_cases hjson : headers[ascii "Accept"]? = none ∨
      (∃ a ∈ headers[ascii "Accept"]?, ascii "application/json" <:+: a) ∨
      headers[ascii "Accept"]? = some (ascii "*/*")
  · rw [if_pos hjson]
    exact ⟨fun container records => ⟨200, ascii "application/json", .json container.name container.type records⟩, rfl,
      fun container => by rw [if_pos hjson]⟩
  · have hhtml := h.resolve_left hjson
    rw [if_neg hjson, if_pos hhtml]
    exact ⟨fun container records => ⟨200, ascii "text/html", .html container.name records⟩, rfl,
      fun container => by rw [if_neg hjson, if_pos hhtml]⟩

theorem createContainerHttpResponse_other {headers : StringMap Bytes} (h : ¬ Renders headers)
    (container : Option ContainerAnswers) :
    createContainerHttpResponse headers container = pure ⟨400, [], .text []⟩ := by
  unfold createContainerHttpResponse
  dsimp only
  rw [if_neg fun hjson => h (.inl hjson), if_neg fun hhtml => h (.inr hhtml)]

theorem run_onHttpCommand (server : ServerAnswers) (hello : Bytes) (m : HttpMessage) :
    (HttpAnswerable server m ∧
      ∃ response, (onHttpCommand server hello m).run {} = .ok () { sent := [.http response] }) ∨
    (¬ HttpAnswerable server m ∧ ((onHttpCommand server hello m).run {} = .undefined ∨
      ∃ r r', (onHttpCommand server hello m).run {} = .ok () { sent := [.http r, .http r'] })) := by
  unfold onHttpCommand
  by_cases hget : m.method = ascii "GET"
  · by_cases hpath : normalizedPath m.url = []
    · refine .inl ⟨fun _ h => absurd hpath h, plainResponse 200 hello, ?_⟩
      rw [Prog.run_tryCatch, if_pos hget, if_pos hpath]
      rfl
    simp only [if_pos hget, if_neg hpath]
    cases ho : server.openContainer [] (normalizedPath m.url) with
    | error e =>
      refine .inr ⟨?_, ?_⟩
      · intro h
        obtain ⟨container, hc, -⟩ := h hget hpath
        rw [ho] at hc
        cases hc
      · by_cases hkind : e.kind = .runtimeError
        · -- the response is sent, and the null container goes on
          by_cases hren : Renders m.headers
          · obtain ⟨response, hnone, -⟩ := createContainerHttpResponse_renders hren
            left
            simp [Prog.run_tryCatch, Prog.run_bind, hkind, hnone, sendHttpResponse, send]
          · right
            refine ⟨plainResponse 404 (ascii "container not found"), ⟨400, [], .text []⟩, ?_⟩
            simp [Prog.run_tryCatch, Prog.run_bind, hkind, createContainerHttpResponse_other hren, sendHttpResponse,
              send]
        · right
          refine ⟨plainResponse 400 (ascii "Bad Request"),
            plainResponse 500 (ascii "Internal Server Error : " ++ e.what), ?_⟩
          simp [Prog.run_tryCatch, Prog.run_bind, hkind, sendHttpResponse, send]
    | ok container =>
      by_cases hren : Renders m.headers
      · obtain ⟨response, -, hsome⟩ := createContainerHttpResponse_renders hren
        cases hq : container.query 0 0 .none with
        | error e =>
          refine .inr ⟨?_, .inr ?_⟩
          · intro h
            obtain ⟨container', hc, hrecords⟩ := h hget hpath
            obtain rfl := Except.ok.inj (ho.symm.trans hc)
            obtain ⟨records, hrec⟩ := hrecords hren
            rw [hq] at hrec
            cases hrec
          · refine ⟨plainResponse 400 (ascii "Bad Request"),
              plainResponse 500 (ascii "Internal Server Error : " ++ e.what), ?_⟩
            simp [Prog.run_tryCatch, Prog.run_bind, hsome, hq, sendHttpResponse, send]
        | ok records =>
          refine .inl ⟨fun _ _ => ⟨container, ho, fun _ => ⟨records, hq⟩⟩, response container records, ?_⟩
          simp [Prog.run_tryCatch, Prog.run_bind, hsome, hq, send]
      · refine .inl ⟨fun _ _ => ⟨container, ho, fun h => absurd h hren⟩, ⟨400, [], .text []⟩, ?_⟩
        simp [Prog.run_tryCatch, Prog.run_bind, createContainerHttpResponse_other hren, send]
  · refine .inl ⟨fun h => absurd h hget, plainResponse 400 (ascii "Bad Request"), ?_⟩
    rw [Prog.run_tryCatch, if_neg hget]
    rfl

/-! ## Every request -/

/-- A handler whose reply, or exception, comes to one reply. -/
theorem written_of_replies {x : HandlerM Unit} (h : Replies x) :
    ∃ out, Request.written (tryCatch x fun e => makeAnswer (internalError e)) = some out ∧ OneReply out.writes ∧
      out.moreDataSize = 0 := by
  obtain ⟨a, out, hrun, hone, hsize⟩ | ⟨e, hrun⟩ := h
  · refine ⟨out, ?_, hone, hsize⟩
    rw [Request.written, Prog.run_tryCatch, hrun]
  · refine ⟨{ answer := [internalError e] }, ?_, .answer trivial, rfl⟩
    rw [Request.written, Prog.run_tryCatch, hrun]
    rfl

variable (lex : LexicalCast)

/-- What one call for a command has to find, by its handler. -/
def CallAnswerable (server : ServerAnswers) (cmd : Command) (next : UInt64 → Prop) : Option Handler → Prop
  | some .anyDataCommand => DataAnswerable lex server cmd (GetAnswerable cmd) next
  | some .modify => DataAnswerable lex server cmd (fun container f => ¬ Modifies lex container f) next
  | some .pop => PopAnswerable lex server cmd
  | some .queryEx => QueryExAnswerable lex server cmd
  | _ => True

/-- A call has no defined end, or asks for data, or replies; and replies once if it finds what it has to find. -/
def CallEnds (server : ServerAnswers) (cmd : Command) (handler : Option Handler) (written : Option Out) : Prop :=
  (written = none ∧ ∀ next, ¬ CallAnswerable lex server cmd next handler) ∨
  (∃ size, written = some { moreDataSize := size } ∧
    Text.extractFieldSet lex cmd.params.tail cmd.data = some (.ok (.needs size)) ∧
    ∀ next, CallAnswerable lex server cmd next handler ↔ next size) ∨
  ∃ out, written = some out ∧ out.moreDataSize = 0 ∧
    ∀ next, OneReply out.writes ↔ CallAnswerable lex server cmd next handler

theorem callEnds_data {lex : LexicalCast} {server : ServerAnswers} {cmd : Command} {handler : Handler}
    {body : ContainerAnswers → Fields → HandlerM Bool} {Carried : ContainerAnswers → Fields → Prop}
    (hhandle : handle lex server cmd handler = onDataCommand lex server body cmd)
    (hcond : ∀ next, CallAnswerable lex server cmd next (some handler) = DataAnswerable lex server cmd Carried next)
    (hbody : ∀ container f, ∃ as, (reply body container f).run {} = .ok () { answer := as } ∧
      (OneReply (as.map Write.answer) ↔ Carried container f)) (f : Exc → HandlerM Unit) :
    CallEnds lex server cmd (some handler) (Request.written (tryCatch (handle lex server cmd handler) f)) := by
  unfold CallEnds Request.written
  rw [hhandle, Prog.run_tryCatch]
  simp only [hcond]
  obtain ⟨hrun, hno⟩ | ⟨size, hrun, hx, hiff⟩ | ⟨as, hrun, hiff⟩ := run_onDataCommand lex server cmd hbody
  · rw [hrun]
    exact .inl ⟨rfl, hno⟩
  · rw [hrun]
    exact .inr (.inl ⟨size, rfl, hx, hiff⟩)
  · rw [hrun]
    exact .inr (.inr ⟨{ answer := as }, rfl, rfl, hiff⟩)

theorem callEnds_onTextCommand (server : ServerAnswers) (cmd : Command) :
    CallEnds lex server cmd (dispatchMap.lookup cmd.command) (Request.written (onTextCommand lex server cmd)) := by
  unfold onTextCommand
  cases hl : dispatchMap.lookup cmd.command with
  | none => exact .inr (.inr ⟨{ answer := [.error (ascii "invalid command")] }, rfl, rfl, fun next =>
      iff_of_true (.answer trivial) trivial⟩)
  | some handler =>
    dsimp only
    -- the handlers that reply in every case
    have hall (h : Replies (handle lex server cmd handler))
        (hcond : ∀ next, CallAnswerable lex server cmd next (some handler)) :
        CallEnds lex server cmd (some handler)
          (Request.written (tryCatch (handle lex server cmd handler) fun e => makeAnswer (internalError e))) := by
      obtain ⟨out, hw, hone, hsize⟩ := written_of_replies h
      exact Or.inr (Or.inr ⟨out, hw, hsize, fun next => iff_of_true hone (hcond next)⟩)
    cases handler with
    | ping => exact hall (replies_ok _) fun _ => trivial
    | version => exact hall (replies_ok _) fun _ => trivial
    | createContainerOpenContainer => exact hall (replies_createContainerOpenContainer server cmd) fun _ => trivial
    | closeContainer => exact hall (replies_closeContainer lex server cmd) fun _ => trivial
    | deleteContainer => exact hall (replies_deleteContainer server cmd) fun _ => trivial
    | listHandles => exact hall (Replies.ite (replies_makeError _) (replies_makeError _)) fun _ => trivial
    | anyDataCommand => exact callEnds_data rfl (fun _ => rfl) (reply_anyDataCommand cmd) _
    | pop =>
      obtain ⟨a, hrun, hiff⟩ := run_pop lex server cmd
      refine .inr (.inr ⟨{ answer := [a] }, ?_, rfl, fun next => ?_⟩)
      · simp only [Request.written, handle, Prog.run_tryCatch, hrun]
      · exact oneReply_answer.trans hiff
    | modify => exact callEnds_data rfl (fun _ => rfl) (reply_modifyCommand lex) _
    | clear => exact hall (replies_clear lex server cmd) fun _ => trivial
    | getRecordCount => exact hall (replies_getRecordCount lex server cmd) fun _ => trivial
    | subscribeUnsubscribe => exact hall (replies_subscribeUnsubscribe lex server cmd) fun _ => trivial
    | customCommand => exact hall (replies_customCommand lex server cmd) fun _ => trivial
    | auth => exact hall (replies_auth server cmd) fun _ => trivial
    | pauseResume => exact hall (Replies.ite (replies_makeError _) replies_makeSuccess) fun _ => trivial
    | setPermission => exact hall (replies_setPermission server cmd) fun _ => trivial
    | query => exact hall (replies_query lex server cmd) fun _ => trivial
    | queryEx =>
      obtain ⟨h, hcond⟩ | ⟨hno, e, queryId, items, hrun⟩ := run_queryEx lex server cmd
      · exact hall h fun _ => hcond
      · -- the answer with the error comes into the middle of the result set
        refine .inr (.inr ⟨{ sent := .resultSetStart queryId :: items, answer := [internalError e] }, ?_, rfl,
          fun next => iff_of_false (not_oneReply_unfinished queryId items _) hno⟩)
        simp [Request.written, handle, Prog.run_tryCatch, hrun, makeAnswer]
    | groupAdd => exact hall (replies_groupAdd server cmd) fun _ => trivial
    | groupSubscribe => exact hall (replies_groupSubscribe cmd) fun _ => trivial

namespace Request

/-- The call with the data that the first call asks for. -/
def withData (r : Request) (size : UInt64) : Command := { r.cmd with data := r.payload.take size.toNat }

def Answerable (r : Request) : Prop :=
  r.unread.takeWhile (· ≠ 10) ≠ [] ∧
    (Connection.isProtocolChange r.cmd = false →
      if Connection.isHttpRequest r.cmd then ∃ m, r.http = .message m ∧ HttpAnswerable r.onLine m
      else
        let handler := dispatchMap.lookup r.cmd.command
        CallAnswerable lex r.onLine r.cmd
          (fun size => CallAnswerable lex r.onData (r.withData size) (fun _ => True) handler) handler)

/-- As many bytes follow the line as its handler asks for. -/
def Paid (r : Request) : Prop :=
  ∀ out ∈ written (onTextCommand lex r.onLine r.cmd), out.moreDataSize.toNat ≤ r.payload.length

instance (r : Request) : Decidable (r.Paid lex) :=
  inferInstanceAs (Decidable (∀ out ∈ written (onTextCommand lex r.onLine r.cmd), _))

theorem extract_withData {r : Request} {size : UInt64}
    (h : Text.extractFieldSet lex r.cmd.params.tail r.cmd.data = some (.ok (.needs size)))
    (hpaid : size.toNat ≤ r.payload.length) :
    size ≠ 0 ∧ ∀ size', Text.extractFieldSet lex (r.withData size).params.tail (r.withData size).data ≠
      some (.ok (.needs size')) := by
  have hlen : (r.withData size).data.length = size.toNat := by
    simp only [withData, List.length_take]
    omega
  unfold Text.extractFieldSet at h ⊢
  cases hx : Text.extractFields lex r.cmd.params.tail with
  | error e => simp [hx] at h
  | ok p =>
    obtain ⟨fields, total⟩ := p
    simp only [hx] at h
    split at h
    · rename_i hlt
      obtain rfl : total = size := by simpa using h
      refine ⟨?_, fun size' h' => ?_⟩
      · rintro rfl
        simp at hlt
      · have hparams : (r.withData total).params = r.cmd.params := rfl
        rw [hparams, hx] at h'
        dsimp only at h'
        rw [if_neg (by omega)] at h'
        obtain ⟨x, -, hmap⟩ := Option.map_eq_some_iff.mp h'
        cases x <;> cases hmap
    · obtain ⟨x, -, hmap⟩ := Option.map_eq_some_iff.mp h
      cases x <;> cases hmap

/-- A request is answered once, before the next line is read, if and only if it meets `Answerable`. -/
theorem one_reply_iff (r : Request) (hpaid : r.Paid lex) :
    (∃ ws, r.onReadCommand lex = some ws ∧ OneReply ws) ↔ r.Answerable lex := by
  unfold onReadCommand Answerable
  by_cases hline : r.unread.takeWhile (· ≠ 10) = []
  · rw [if_pos hline]
    refine iff_of_false ?_ fun h => h.1 hline
    rintro ⟨ws, hws, hone⟩
    obtain rfl := Option.some.inj hws
    exact not_oneReply_nil hone
  rw [if_neg hline]
  simp only [hline, ne_eq, not_false_eq_true, true_and]
  cases hproto : Connection.isProtocolChange r.cmd with
  | true => exact iff_of_true ⟨_, rfl, .goingBinary⟩ (by simp)
  | false =>
    cases hhttp : Connection.isHttpRequest r.cmd with
    | true =>
      simp only [if_true, Bool.false_eq_true, if_false, true_implies]
      cases hr : r.http with
      | error => exact iff_of_false (by simp [not_oneReply_nil]) (by simp)
      | unfinished => exact iff_of_false (by simp [not_oneReply_nil]) (by simp)
      | message m =>
        obtain ⟨hcond, response, hrun⟩ | ⟨hno, hrun | ⟨r₁, r₂, hrun⟩⟩ := run_onHttpCommand r.onLine r.hello m
        · refine iff_of_true ⟨[.http response], ?_, .http response⟩ ⟨m, rfl, hcond⟩
          simp [written, hrun, Out.writes]
        · refine iff_of_false ?_ ?_
          · simp [written, hrun]
          · rintro ⟨m', hm', hcond⟩
            obtain rfl := HttpRead.message.inj hm'
            exact hno hcond
        · refine iff_of_false ?_ ?_
          · rintro ⟨ws, hws, hone⟩
            obtain rfl : [.http r₁, .http r₂] = ws := by simpa [written, hrun, Out.writes] using hws
            exact not_oneReply_two (by simp) hone
          · rintro ⟨m', hm', hcond⟩
            obtain rfl := HttpRead.message.inj hm'
            exact hno hcond
    | false =>
      simp only [Bool.false_eq_true, if_false, true_implies]
      obtain ⟨hw, hno⟩ | ⟨size, hw, hx, hiff⟩ | ⟨out, hw, hsize, hiff⟩ := callEnds_onTextCommand lex r.onLine r.cmd
      · rw [hw]
        exact iff_of_false (by simp) (hno _)
      · -- the second call is the one that replies
        have hlen : size.toNat ≤ r.payload.length := hpaid _ hw
        obtain ⟨hne, hnext⟩ := extract_withData lex hx hlen
        rw [hw, hiff, Option.bind_some, if_neg hne, if_neg (not_lt.mpr hlen)]
        have hsame : (r.withData size).command = r.cmd.command := rfl
        obtain ⟨hw', hno⟩ | ⟨size', -, hx', -⟩ | ⟨out', hw', -, hiff'⟩ :=
          callEnds_onTextCommand lex r.onData (r.withData size)
        · change (∃ ws, (written (onTextCommand lex r.onData (r.withData size))).map _ = some ws ∧ _) ↔ _
          rw [hw']
          exact iff_of_false (by simp) (hsame ▸ hno _)
        · exact absurd hx' (hnext size')
        · change (∃ ws, (written (onTextCommand lex r.onData (r.withData size))).map _ = some ws ∧ _) ↔ _
          rw [hw', ← hsame, ← hiff' fun _ => True]
          simp [Out.writes]
      · rw [hw, Option.bind_some, if_pos hsize, ← hiff]
        simp

/-- A container of one record, that refuses nothing. -/
def oneRecord : ContainerAnswers where
  name := ascii "a"
  type := ascii "volatile_map"
  insert _ := .ok ()
  set _ := .ok ()
  pushBack _ := .ok ()
  pushFront _ := .ok ()
  delete _ := .ok ()
  popBack := .ok { key := .int 0, value := .int 5 }
  popFront := .ok { key := .int 0, value := .int 5 }
  getRecord _ := .ok { key := .string (ascii "k"), value := .int 5 }
  setProperty _ _ := .ok ()
  getProperty _ := .ok []
  clear := .ok ()
  getRecordCount := .ok 1
  command _ := .ok []
  query _ _ _ := .ok [{ key := .string (ascii "k"), value := .int 5 }]

/-- A server with that container under the handle 1, and no other. -/
def oneContainer : ServerAnswers where
  getRegisteredContainer handle := if handle = 1 then .ok oneRecord else .error (invalidArgument "invalid handle")
  checkObjectAccess _ _ _ := true
  checkCommandAccess _ := true
  createContainer _ _ := .ok oneRecord
  openContainer _ name := if name = ascii "a" then .ok oneRecord else .error (invalidArgument "key not found")
  deleteContainer _ _ := .ok ()
  containerExists _ name := .ok (name = ascii "a")
  registerContainer _ := 1
  closeContainerHandle _ := .ok ()
  addContainer _ _ := .ok ()
  password _ := .error (invalidArgument "key not found")
  createNewQueryId := 1
  regex _ := .ok fun _ => .ok true

def setRequest : Request where
  unread := ascii "set 1 key string 1 value string 2\r\nk\r\n+3\r\n"
  onLine := oneContainer
  onData := oneContainer
  http := .error
  hello := []
  newline := by decide

theorem one_reply_iff_set : setRequest.Paid .digits ∧
    setRequest.onReadCommand .digits = some [.answer (.ok [])] ∧ setRequest.Answerable .digits := by
  have hpaid : setRequest.Paid .digits := by decide +kernel
  have hrun : setRequest.onReadCommand .digits = some [.answer (.ok [])] := by decide +kernel
  exact ⟨hpaid, hrun, (one_reply_iff .digits setRequest hpaid).mp ⟨_, hrun, .answer trivial⟩⟩

/-- The same fields, for `modify`. -/
def modifyRequest : Request :=
  { setRequest with
    unread := ascii "modify 1 key string 1 value string 2\r\nk\r\n+3\r\n"
    newline := by decide }

def missingRequest : Request :=
  { setRequest with
    unread := ascii "GET /b HTTP/1.1\r\n\r\n"
    http := .message ⟨ascii "GET", ascii "/b", ∅⟩
    newline := by decide }

/-- The sum is followed by a second answer, and a container that is not found is told of in two responses. -/
theorem answered_twice :
    (modifyRequest.Paid .digits ∧
      modifyRequest.onReadCommand .digits = some [.answer (.data .none (.int 8) .none), .answer (.ok [])] ∧
      ¬ ∃ ws, modifyRequest.onReadCommand .digits = some ws ∧ OneReply ws) ∧
    missingRequest.onReadCommand .digits =
      some [.http (plainResponse 400 (ascii "Bad Request")),
        .http (plainResponse 500 (ascii "Internal Server Error : key not found"))] ∧
    ¬ ∃ ws, missingRequest.onReadCommand .digits = some ws ∧ OneReply ws := by
  have hmodify : modifyRequest.onReadCommand .digits =
      some [.answer (.data .none (.int 8) .none), .answer (.ok [])] := by decide +kernel
  have hmissing : missingRequest.onReadCommand .digits =
      some [.http (plainResponse 400 (ascii "Bad Request")),
        .http (plainResponse 500 (ascii "Internal Server Error : key not found"))] := by decide +kernel
  refine ⟨⟨by decide +kernel, hmodify, ?_⟩, hmissing, ?_⟩
  · rintro ⟨ws, hws, hone⟩
    obtain rfl := Option.some.inj (hmodify.symm.trans hws)
    exact not_oneReply_two (by simp) hone
  · rintro ⟨ws, hws, hone⟩
    obtain rfl := Option.some.inj (hmissing.symm.trans hws)
    exact not_oneReply_two (by simp) hone

end Request

end Handlers

end Tiodb
