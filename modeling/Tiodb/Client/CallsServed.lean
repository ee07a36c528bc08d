import Tiodb.Client.Calls

/-!
# A call is its messages

What the server answers to the request of a call makes the function of the client
return what the call does on the containers of the server.
-/

namespace Tiodb.Binary

open Lib Query

/-! ## The keys of a query -/

def Keyed (records : List Record) : Prop := ∀ r ∈ records, r.key ≠ .none

theorem keyed_nil : Keyed [] := fun _ hr => absurd hr List.not_mem_nil

theorem keyed_map {α : Type} (l : List α) {f : α → Record} (h : ∀ a, (f a).key ≠ .none) : Keyed (l.map f) := by
  intro r hr
  obtain ⟨a, -, rfl⟩ := List.mem_map.mp hr
  exact h a

theorem gives_listLockGuard {α : Type} {P : α → Prop} {x : ListStorage.ListM α} (h : x.Gives P) :
    (ListStorage.lockGuard x).Gives P := by
  intro s a s' hs
  rw [ListStorage.run_lockGuard] at hs
  cases hr : x.run { s with mutex := s.mutex + 1 } with
  | ok b t =>
    rw [hr] at hs
    obtain ⟨rfl, -⟩ := Outcome.ok.inj hs
    exact h _ _ _ hr
  | throws e t =>
    rw [hr] at hs
    cases hs
  | undefined =>
    rw [hr] at hs
    cases hs

theorem gives_vectorLockGuard {α : Type} {P : α → Prop} {x : VectorStorage.VectorM α} (h : x.Gives P) :
    (VectorStorage.lockGuard x).Gives P := by
  intro s a s' hs
  by_cases hlocked : s.locked = true
  · rw [VectorStorage.run_lockGuard_locked s x hlocked] at hs
    cases hs
  rw [VectorStorage.run_lockGuard s x (by simpa using hlocked)] at hs
  cases hr : x.run { s with locked := true } with
  | ok b t =>
    rw [hr] at hs
    obtain ⟨rfl, -⟩ := Outcome.ok.inj hs
    exact h _ _ _ hr
  | throws e t =>
    rw [hr] at hs
    cases hs
  | undefined =>
    rw [hr] at hs
    cases hs

section Storages

variable (start stop : Int32) (q : TioData)

theorem listQuery_keyed : (ListStorage.query start stop q).Gives Keyed := by
  unfold ListStorage.query
  split
  · exact Prog.gives_throw _
  · apply gives_listLockGuard
    refine Prog.gives_bind fun s => ?_
    split
    · exact Prog.gives_pure keyed_nil
    · refine Prog.gives_bind fun limits => Prog.gives_bind fun first => Prog.gives_bind fun last => ?_
      split
      · exact Prog.gives_undefined
      · exact Prog.gives_pure (keyed_map _ fun p => nofun)

theorem mapQuery_keyed : (MapStorage.query start stop q).Gives Keyed := by
  unfold MapStorage.query
  split
  · exact Prog.gives_throw _
  · refine Prog.gives_bind fun s => ?_
    dsimp only
    split
    · exact Prog.gives_pure (keyed_map _ fun p => nofun)
    split
    · refine Prog.gives_bind fun startOffset => Prog.gives_bind fun first => ?_
      exact Prog.gives_pure (keyed_map _ fun p => nofun)
    · refine Prog.gives_bind fun limits => Prog.gives_bind fun first => Prog.gives_bind fun last => ?_
      exact Prog.gives_pure (keyed_map _ fun p => nofun)

theorem vectorQuery_keyed : (VectorStorage.query start stop q).Gives Keyed := by
  unfold VectorStorage.query
  split
  · exact Prog.gives_throw _
  · apply gives_vectorLockGuard
    refine Prog.gives_bind fun count => ?_
    dsimp only
    -- an empty vector goes on as any other
    split <;>
    · refine Prog.gives_bind fun limits => Prog.gives_bind fun s => ?_
      split
      · exact Prog.gives_throw _
      split
      · exact Prog.gives_undefined
      · exact Prog.gives_pure (keyed_map _ fun p => nofun)

theorem query_keyed : (Container.query start stop q).Gives Keyed := by
  rintro ⟨storage, properties⟩ records c' h
  cases storage with
  | list s =>
    obtain ⟨s', hs, -⟩ := Outcome.mapState_ok h
    exact listQuery_keyed start stop q _ _ _ hs
  | map s =>
    obtain ⟨s', hs, -⟩ := Outcome.mapState_ok h
    exact mapQuery_keyed start stop q _ _ _ hs
  | vector s =>
    obtain ⟨s', hs, -⟩ := Outcome.mapState_ok h
    exact vectorQuery_keyed start stop q _ _ _ hs

end Storages

/-! ## What a function takes -/

def IsAnswer (m : Query.Fields) : Prop :=
  fieldFindById m fieldCommand = some (.int commandAnswer) ∨
    fieldFindById m fieldCommand = some (.int commandQueryItem)

/-- The messages are no events, and they make the function return the result, less the number of a query. -/
inductive Answers : Waiting → List Query.Fields → Result → Prop where
  | ends {w : Waiting} {m : Query.Fields} {r r' : Result} (hanswer : IsAnswer m)
    (h : onResponse m w = some (.ends r')) (hr : r'.unnumbered = r) : Answers w [m] r
  | waits {w w' : Waiting} {m : Query.Fields} {ms : List Query.Fields} {r : Result} (hanswer : IsAnswer m)
    (h : onResponse m w = some (.waits w')) (hrest : Answers w' ms r) : Answers w (m :: ms) r

section Answers

theorem answers_one {w : Waiting} {m : Query.Fields} {r : Result} (hanswer : IsAnswer m)
    (h : onResponse m w = some (.ends r)) (hr : r.unnumbered = r) : Answers w [m] r := .ends hanswer h hr

variable {w : Waiting} {m : Query.Fields} {ms : List Query.Fields} {r : Result}

theorem Answers.ne_nil (h : Answers w ms r) : ms ≠ [] := by
  cases h <;> simp

theorem Answers.answer (h : Answers w ms r) : ∀ m ∈ ms, IsAnswer m := by
  induction h with
  | ends hanswer => exact List.forall_mem_singleton.mpr hanswer
  | waits hanswer _ _ ih => exact List.forall_mem_cons.mpr ⟨hanswer, ih⟩

theorem Answers.next (h : Answers w (m :: ms) r) :
    (∃ w', onResponse m w = some (.waits w') ∧ Answers w' ms r) ∨
      (∃ r', onResponse m w = some (.ends r') ∧ r'.unnumbered = r ∧ ms = []) := by
  cases h with
  | ends _ h hr => exact .inr ⟨_, h, hr, rfl⟩
  | waits _ h hrest => exact .inl ⟨_, h, hrest⟩

end Answers

def IsError (m : Query.Fields) : Prop := (fieldFindById m fieldErrorCode).isSome

/-- The message is an error for a query, which cannot take it. -/
structure Refused (w : Waiting) (messages : List Query.Fields) : Prop where
  query : w = .query
  error : ∃ m, messages = [m] ∧ IsAnswer m ∧ IsError m ∧ onResponse m .query = none

/-- The value of the first program makes the function return the value of the second. -/
def Renders {α : Type} (A : α → Result → Prop) (x : ServerM α) (y : ServerM Result) : Prop :=
  ∀ s, (∃ a r s', x.run s = .ok a s' ∧ y.run s = .ok r s' ∧ A a r) ∨
    (∃ e s', x.run s = .throws e s' ∧ y.run s = .throws e s') ∨ (x.run s = .undefined ∧ y.run s = .undefined)

namespace Renders

variable {α β : Type} {A : α → Result → Prop}

theorem pure {a : α} {r : Result} (h : A a r) : Renders A (Pure.pure a) (Pure.pure r) :=
  fun s => .inl ⟨a, r, s, rfl, rfl, h⟩

theorem bind_of {P : β → Prop} {z : ServerM β} {f : β → ServerM α} {g : β → ServerM Result}
    (hz : z.Gives P) (h : ∀ b, P b → Renders A (f b) (g b)) : Renders A (z >>= f) (z >>= g) := by
  intro s
  rw [Prog.run_bind, Prog.run_bind]
  cases hr : z.run s with
  | ok b t => exact h b (hz s b t hr) t
  | throws e t => exact .inr (.inl ⟨e, t, rfl, rfl⟩)
  | undefined => exact .inr (.inr ⟨rfl, rfl⟩)

theorem bind {z : ServerM β} {f : β → ServerM α} {g : β → ServerM Result} (h : ∀ b, Renders A (f b) (g b)) :
    Renders A (z >>= f) (z >>= g) :=
  bind_of (fun _ _ _ _ => trivial) fun b (_ : True) => h b

theorem map {B : β → Result → Prop} {x : ServerM α} {y : ServerM Result} (h : Renders A x y) {f : α → β}
    (hf : ∀ a r, A a r → B (f a) r) : Renders B (do return f (← x)) y := by
  intro s
  rw [Prog.run_bind]
  rcases h s with ⟨a, r, s', hx, hy, hA⟩ | ⟨e, s', hx, hy⟩ | ⟨hx, hy⟩
  · rw [hx]
    exact .inl ⟨f a, r, s', rfl, hy, hf a r hA⟩
  · rw [hx]
    exact .inr (.inl ⟨e, s', rfl, hy⟩)
  · rw [hx]
    exact .inr (.inr ⟨rfl, hy⟩)

end Renders

/-! ## Requests that are read back -/

section Requests

variable (command handle : Int32) (key value metadata : Option TioData)

theorem dataMessage_data :
    fieldGetAsTioData (tioGenerateDataMessage command handle key value metadata) fieldKey = key.getD .none ∧
    fieldGetAsTioData (tioGenerateDataMessage command handle key value metadata) fieldValue = value.getD .none ∧
    fieldGetAsTioData (tioGenerateDataMessage command handle key value metadata) fieldMetadata =
      metadata.getD .none := by
  cases key <;> cases value <;> cases metadata <;> exact ⟨rfl, rfl, rfl⟩

theorem containerFromRequest (session : Nat) :
    getContainerFromRequest session (tioGenerateDataMessage command handle key value metadata) =
      containerOf session handle := rfl

end Requests

/-! ## Answers that are read -/

theorem binaryErrorAnswer_error {code : Int32} (h : code < 0) (description : Bytes) (next : Option Turn) :
    unlessFailed (binaryErrorAnswer code description) next =
      some (.ends (.failed code (some ((cstr description).take maxErrorDescriptionSize)))) := by
  have hcode : getErrorCode (binaryErrorAnswer code description) =
      some (code, some ((cstr description).take maxErrorDescriptionSize)) := by
    have hfields : fieldFindById (binaryErrorAnswer code description) fieldErrorCode = some (.int code) ∧
        fieldFindById (binaryErrorAnswer code description) fieldErrorDesc = some (.string (cstr description)) :=
      ⟨rfl, rfl⟩
    unfold getErrorCode
    rw [hfields.1, hfields.2]
    dsimp only
    rw [fieldGetInt_int]
    rfl
  unfold unlessFailed
  rw [hcode]
  exact if_pos h

theorem errorProtocol_neg : errorProtocol < 0 := by decide

theorem errorMissingParameter_neg : errorMissingParameter < 0 := by decide

theorem isAnswer_error (code : Int32) (description : Bytes) : IsAnswer (binaryErrorAnswer code description) := .inl rfl

section Data

variable (key value metadata : TioData)

theorem isAnswer_data : IsAnswer (binaryAnswer key value metadata) := by
  apply Or.inl
  cases key <;> cases value <;> cases metadata <;> rfl

theorem binaryAnswer_noError (next : Option Turn) : unlessFailed (binaryAnswer key value metadata) next = next := by
  have hcode : getErrorCode (binaryAnswer key value metadata) = some (0, none) := by
    cases key <;> cases value <;> cases metadata <;> rfl
  unfold unlessFailed
  rw [hcode]
  exact if_neg (by decide)

theorem binaryAnswer_data :
    fieldGetAsTioData (binaryAnswer key value metadata) fieldKey = key ∧
    fieldGetAsTioData (binaryAnswer key value metadata) fieldValue = value ∧
    fieldGetAsTioData (binaryAnswer key value metadata) fieldMetadata = metadata := by
  cases key <;> cases value <;> cases metadata <;> exact ⟨rfl, rfl, rfl⟩

end Data

theorem answers_success : Answers .response simpleAnswer .success :=
  answers_one (isAnswer_data .none .none .none) (binaryAnswer_noError .none .none .none _) rfl

theorem answers_error {w : Waiting} (hw : ∀ m, ∃ next, onResponse m w = unlessFailed m next) {code : Int32}
    (hcode : code < 0) (description : Bytes) :
    Answers w [binaryErrorAnswer code description]
      (.failed code (some ((cstr description).take maxErrorDescriptionSize))) := by
  refine answers_one (isAnswer_error ..) ?_ rfl
  obtain ⟨next, hnext⟩ := hw (binaryErrorAnswer code description)
  rw [hnext, binaryErrorAnswer_error hcode]

/-! ## The handlers -/

variable {regex : Bytes → Except Exc (Bytes → Bool)} (session : Nat)

theorem cstr_cstr (b : Bytes) : cstr (cstr b) = cstr b := List.takeWhile_idem

theorem onPing_renders (payload : Bytes) :
    Renders (Answers (Call.ping payload).waiting) (onPing (Call.ping payload).request)
      ((Call.ping payload).perform regex session) := by
  apply Renders.pure
  refine answers_one (.inl rfl) ?_ rfl
  have hvalue : ∀ d, fieldFindById [(fieldCommand, .int commandAnswer), (fieldValue, d)] fieldValue = some d :=
    fun _ => rfl
  simp only [Call.waiting, onResponse]
  rw [hvalue, cstr_cstr]
  exact congrArg (fun r => some (Turn.ends r)) (if_pos rfl)

theorem onOpenOrCreate_renders (create : Bool) (name : Bytes) (type : Option Bytes) :
    Renders (Answers .createOrOpen) (onOpenOrCreate session (Call.createOrOpen create name type).request create)
      ((Call.createOrOpen create name type).perform regex session) := by
  have hname : getString (Call.createOrOpen create name type).request fieldName = some (cstr name) := rfl
  have htype : getString (Call.createOrOpen create name type).request fieldType = type.map cstr := by
    cases type <;> rfl
  unfold onOpenOrCreate Call.perform
  rw [hname, htype]
  dsimp only
  split
  · apply Renders.pure
    have htext : (cstr (ascii "must inform type on container creation (MESSAGE_FIELD_ID_TYPE)")).take
        maxErrorDescriptionSize = ascii "must inform type on container creation (MESSAGE_FIELD_ID_TYPE)" := by
      decide +kernel
    have h : Answers .createOrOpen _ _ := answers_error (fun m => ⟨_, rfl⟩) errorMissingParameter_neg
      (ascii "must inform type on container creation (MESSAGE_FIELD_ID_TYPE)")
    rwa [htext] at h
  · refine Renders.bind fun container => Renders.bind fun handle => Renders.pure (answers_one (.inl rfl) ?_ rfl)
    have hhandle : fieldFindById [(fieldCommand, .int commandAnswer), (fieldHandle, .int handle.toInt32)] fieldHandle =
        some (.int handle.toInt32) := rfl
    have hcode : getErrorCode [(fieldCommand, .int commandAnswer), (fieldHandle, .int handle.toInt32)] =
        some (0, none) := rfl
    simp only [onResponse, unlessFailed]
    rw [hcode, hhandle]
    dsimp only
    rw [if_neg (by decide), fieldGetInt_int]
    rfl

theorem onClose_renders (handle : Int32) :
    Renders (Answers .response) (onClose session (Call.close handle).request) ((Call.close handle).perform regex session) :=
  Renders.bind fun _ => Renders.pure answers_success

section Containers

variable (command : InputCommand) (handle : Int32) (key value metadata : Option TioData)

theorem onChange_renders :
    Renders (Answers .response) (onChange session (tioGenerateDataMessage command.commandId handle key value metadata) command.change)
      (do
        let container ← containerOf session handle
        onContainer container (command.change (key.getD .none) (value.getD .none) (metadata.getD .none))
        return .success) := by
  obtain ⟨hkey, hvalue, hmetadata⟩ := dataMessage_data command.commandId handle key value metadata
  unfold onChange
  rw [containerFromRequest, hkey, hvalue, hmetadata]
  exact Renders.bind fun container => Renders.bind fun _ => Renders.pure answers_success

theorem onInputCommand_renders :
    Renders (Answers .response) (onCommand session (Call.inputCommand command handle key value metadata).request command.commandId)
      ((Call.inputCommand command handle key value metadata).perform regex session) := by
  cases command with
  | subscribe => exact Renders.bind fun _ => Renders.pure answers_success
  | unsubscribe =>
    intro s
    -- nothing is written
    have hset : (setSession session fun se => se.unsubscribe handle.toUInt32).run s = .ok () s := by
      unfold setSession Session.unsubscribe
      rw [Prog.run_modify, Function.update_eq_self]
    refine .inl ⟨simpleAnswer, .success, s, ?_, rfl, answers_success⟩
    change (setSession session (fun se => se.unsubscribe handle.toUInt32) >>= fun _ => pure simpleAnswer).run s = _
    rw [Prog.run_bind_ok _ _ hset]
    rfl
  | waitAndPopNext =>
    have htext : (cstr (ascii "invalid command")).take maxErrorDescriptionSize = ascii "invalid command" := by
      decide +kernel
    have h : Answers .response _ _ :=
      answers_error (fun m => ⟨_, rfl⟩) errorProtocol_neg (ascii "invalid command")
    rw [htext] at h
    exact Renders.pure h
  | pushBack => exact onChange_renders session .pushBack handle key value metadata
  | pushFront => exact onChange_renders session .pushFront handle key value metadata
  | set => exact onChange_renders session .set handle key value metadata
  | insert => exact onChange_renders session .insert handle key value metadata
  | delete => exact onChange_renders session .delete handle key value metadata
  | clear => exact onChange_renders session .clear handle key value metadata
  | propset => exact onChange_renders session .propset handle key value metadata

theorem answers_record (record : Record) :
    Answers .data [binaryAnswer record.key record.value record.metadata]
      (.record record.key record.value record.metadata) := by
  refine answers_one (isAnswer_data ..) ?_ rfl
  obtain ⟨hkey, hvalue, hmetadata⟩ := binaryAnswer_data record.key record.value record.metadata
  simp only [onResponse]
  rw [binaryAnswer_noError, hkey, hvalue, hmetadata]

theorem onPop_renders (command : Int32) (pop : Container.ContainerM Record) :
    Renders (Answers .data) (onPop session (tioGenerateDataMessage command handle none none none) pop)
      (do
        let container ← containerOf session handle
        let record ← onContainer container pop
        return .record record.key record.value record.metadata) :=
  Renders.bind fun _ => Renders.bind fun record => Renders.pure (answers_record record)

theorem onGet_renders (searchKey : Option TioData) :
    Renders (Answers .data) (onGet session (Call.get handle searchKey).request)
      ((Call.get handle searchKey).perform regex session) := by
  obtain ⟨hkey, -, -⟩ := dataMessage_data commandGet handle searchKey none none
  unfold onGet Call.perform Call.request
  rw [hkey]
  exact Renders.bind fun _ => Renders.bind fun record => Renders.pure (answers_record record)

theorem onPropget_renders (searchKey : Option TioData) :
    Renders (Answers .value) (onPropget session (Call.propget handle searchKey).request)
      ((Call.propget handle searchKey).perform regex session) := by
  obtain ⟨hkey, -, -⟩ := dataMessage_data commandPropget handle searchKey none none
  unfold onPropget Call.perform Call.request
  rw [hkey]
  refine Renders.bind fun container => Renders.bind fun k => Renders.bind fun value => Renders.pure ?_
  refine answers_one (isAnswer_data ..) ?_ rfl
  obtain ⟨-, hvalue, -⟩ := binaryAnswer_data (searchKey.getD .none) (.string value) .none
  simp only [onResponse]
  rw [binaryAnswer_noError, hvalue]

theorem onCount_renders :
    Renders (Answers .count) (onCount session (Call.getCount handle).request) ((Call.getCount handle).perform regex session) :=
  Renders.bind fun _ => Renders.bind fun _ => Renders.pure (answers_one (.inl rfl) rfl rfl)

end Containers

/-! ## Queries -/

section Queries

variable (queryId : Int32)

theorem answers_items (taken : List Record) {records : List Record} (h : Keyed records) :
    Answers (.items queryId taken) (records.map (queryItem queryId) ++ [queryEnd queryId])
      (.queried 0 (taken ++ records)) := by
  induction records generalizing taken with
  | nil =>
    rw [List.append_nil]
    exact .ends (.inr (queryEnd_command queryId)) rfl rfl
  | cons r records ih =>
    have hitem : onResponse (queryItem queryId r) (.items queryId taken) =
        some (.waits (.items queryId (taken ++ [r]))) := by
      simp only [onResponse, itemOf_queryItem queryId (h r List.mem_cons_self)]
    have hrest := ih (taken ++ [r]) fun r' h' => h r' (List.mem_cons_of_mem r h')
    rw [List.append_assoc, List.singleton_append] at hrest
    exact .waits (.inr (queryItem_command queryId r)) hitem hrest

theorem answers_query {records : List Record} (h : Keyed records) :
    Answers .query (queryAnswer queryId :: (records.map (queryItem queryId) ++ [queryEnd queryId])) (.queried 0 records) :=
  .waits (.inl rfl) rfl (answers_items queryId [] h)

theorem sendItems_eq (keyMatches : Option (TioData → Bool)) {maxRecords : UInt32} (records : List Record) (a : UInt32) :
    sendItems queryId keyMatches maxRecords records a =
      ((records.filter fun r => keyMatches.all fun f => f r.key).take (maxRecords.toNat - a.toNat)).map
        (queryItem queryId) := by
  induction records generalizing a with
  | nil => simp [sendItems]
  | cons r rest ih =>
    rw [sendItems]
    by_cases ha : a < maxRecords
    · have hlt : a.toNat < maxRecords.toNat := UInt32.lt_iff_toNat_lt.mp ha
      have hmax := maxRecords.toNat_lt
      have hnext : (a + 1).toNat = a.toNat + 1 := by
        rw [UInt32.toNat_add]
        exact Nat.mod_eq_of_lt (by simp; omega)
      rw [if_pos ha]
      by_cases hkey : (keyMatches.all fun f => f r.key) = true
      · have hleft : maxRecords.toNat - a.toNat = maxRecords.toNat - (a + 1).toNat + 1 := by omega
        rw [if_pos hkey, ih, List.filter_cons, if_pos hkey, hleft, List.take_succ_cons, List.map_cons]
      · rw [if_neg hkey, ih, List.filter_cons, if_neg hkey]
    · have hnone : maxRecords.toNat - a.toNat = 0 := by
        have := UInt32.lt_iff_toNat_lt.not.mp ha
        omega
      rw [if_neg ha, hnone]
      rfl

theorem sendBinaryResultSet_eq (keyMatches : Option (TioData → Bool)) (maxRecords : UInt32) (records : List Record) :
    sendBinaryResultSet records queryId keyMatches maxRecords =
      queryAnswer queryId :: (((records.filter fun r => keyMatches.all fun f => f r.key).take
        (if maxRecords = 0 then 0xFFFFFFFF else maxRecords).toNat).map (queryItem queryId) ++ [queryEnd queryId]) := by
  unfold sendBinaryResultSet
  dsimp only
  rw [sendItems_eq]
  rfl

end Queries

/-- Whatever its number is, a result set makes the function return its records. -/
def Numbered (resultSet : ResultSet) (r : Result) : Prop := ∀ queryId, Answers .query (resultSet.messages queryId) r

theorem resultSet_renders {query : ServerM (List Record)} (hkeyed : query.Gives Keyed)
    (keyMatches : Option (TioData → Bool)) (stop : Int32) :
    Renders Numbered (do return ⟨← query, keyMatches, stop.toUInt32⟩)
      (do
        let records ← query
        return .queried 0 ((records.filter fun r => keyMatches.all fun f => f r.key).take
          (if stop.toUInt32 = 0 then 0xFFFFFFFF else stop.toUInt32).toNat)) := by
  refine Renders.bind_of hkeyed fun records hrecords => Renders.pure fun queryId => ?_
  rw [ResultSet.messages, sendBinaryResultSet_eq]
  exact answers_query queryId fun r hr => hrecords r (List.mem_of_mem_filter (List.mem_of_mem_take hr))

theorem query_gives_keyed (container : Nat) (start stop : Int32) (q : TioData) :
    (onContainer container (Container.query start stop q)).Gives Keyed := by
  intro s records s' h
  obtain ⟨manager, hmanager, -⟩ := Outcome.mapState_ok h
  unfold ContainerManager.withObject at hmanager
  dsimp only at hmanager
  split at hmanager
  · cases hmanager
  split at hmanager
  · cases hmanager
  obtain ⟨c', hc, -⟩ := Outcome.mapState_ok hmanager
  exact query_keyed start stop q _ _ _ hc

theorem queryResultSet_request (query : Int32 → Int32 → TioData → ServerM (List Record)) (handle start stop : Int32)
    (expression : Option Bytes) :
    queryResultSet regex query (Query.request handle start stop expression) =
      if expression.getD [] = [] then do
        return ⟨← query start stop .none, none, stop.toUInt32⟩
      else do
        let e ← Prog.ofExcept (regex (expression.getD []))
        let keyMatches (key : TioData) : Bool := match key with
          | .string k => e (cstr k)
          | _ => false
        return ⟨← query 0 0 .none, some keyMatches, stop.toUInt32⟩ := by
  cases expression <;> rfl

theorem onQueryCommand_renders (handle start stop : Int32) (expression : Option Bytes) :
    Renders Numbered (onQueryCommand session (Call.query handle start stop expression).request regex)
      ((Call.query handle start stop expression).perform regex session) := by
  unfold onQueryCommand Call.perform
  refine Renders.bind fun container => ?_
  have hkeyed := fun start stop => query_gives_keyed container start stop .none
  unfold Call.request
  dsimp only
  rw [queryResultSet_request]
  by_cases hempty : (expression.map cstr).getD [] = []
  · rw [if_pos hempty, if_pos hempty]
    exact resultSet_renders (hkeyed start stop) none stop
  · rw [if_neg hempty, if_neg hempty]
    exact Renders.bind fun e => resultSet_renders (hkeyed 0 0)
      (some fun key => match key with
        | .string k => e (cstr k)
        | _ => false) stop

/-! ## Every call -/

def Call.commandId : Call → Int32
  | ping _ => commandPing
  | createOrOpen create _ _ => if create then commandCreate else commandOpen
  | close _ => commandClose
  | inputCommand command _ _ _ _ => command.commandId
  | popBack _ => commandPopBack
  | popFront _ => commandPopFront
  | get _ _ => commandGet
  | propget _ _ => commandPropget
  | getCount _ => commandCount
  | query _ _ _ _ => commandQuery

theorem request_command (call : Call) : getNumber call.request fieldCommand = some call.commandId := by
  cases call <;> rfl

def Reply.Answers (w : Waiting) : Reply → Result → Prop
  | messages ms, r => Binary.Answers w ms r ∨ Refused w ms
  | resultSet rs, r => w = .query ∧ Numbered rs r

theorem Reply.Answers.isAnswer {w : Waiting} {ms : List Query.Fields} {r : Result}
    (h : (Reply.messages ms).Answers w r) : ∀ m ∈ ms, IsAnswer m := by
  rcases h with h | ⟨-, m, rfl, hanswer, -⟩
  · exact h.answer
  · exact List.forall_mem_singleton.mpr hanswer

theorem Reply.Answers.ne_nil {w : Waiting} {ms : List Query.Fields} {r : Result}
    (h : (Reply.messages ms).Answers w r) : ms ≠ [] := by
  rcases h with h | ⟨-, m, rfl, -⟩
  · exact h.ne_nil
  · simp

theorem replyTo_renders (call : Call) :
    Renders (Reply.Answers call.waiting) (replyTo session call.request regex call.commandId)
      (call.perform regex session) := by
  have hmessages {w : Waiting} {x : ServerM (List Query.Fields)} {y : ServerM Result} (h : Renders (Binary.Answers w) x y) :
      Renders (Reply.Answers w) (do return .messages (← x)) y := h.map fun _ _ h => .inl h
  cases call with
  | ping payload => exact hmessages (onPing_renders session payload)
  | createOrOpen create name type =>
    cases create with
    | false => exact hmessages (onOpenOrCreate_renders session false name type)
    | true => exact hmessages (onOpenOrCreate_renders session true name type)
  | close handle => exact hmessages (onClose_renders session handle)
  | inputCommand command handle key value metadata =>
    have hquery : (Call.inputCommand command handle key value metadata).commandId ≠ commandQuery := by
      cases command <;> exact ne_of_beq_false rfl
    unfold replyTo
    rw [if_neg hquery]
    exact hmessages (onInputCommand_renders session command handle key value metadata)
  | popBack handle => exact hmessages (onPop_renders session handle commandPopBack Container.popBack)
  | popFront handle => exact hmessages (onPop_renders session handle commandPopFront Container.popFront)
  | get handle searchKey => exact hmessages (onGet_renders session handle searchKey)
  | propget handle searchKey => exact hmessages (onPropget_renders session handle searchKey)
  | getCount handle => exact hmessages (onCount_renders session handle)
  | query handle start stop expression =>
    exact (onQueryCommand_renders session handle start stop expression).map fun _ _ h => ⟨rfl, h⟩

theorem answers_thrown (call : Call) (e : Exc) :
    (Reply.messages [binaryErrorAnswer errorProtocol e.what]).Answers call.waiting (call.thrown e) := by
  cases call with
  | ping => exact .inl (answers_one (isAnswer_error ..) rfl rfl)
  | query => exact .inr ⟨rfl, _, rfl, isAnswer_error .., rfl, rfl⟩
  | createOrOpen => exact .inl (answers_error (fun m => ⟨_, rfl⟩) errorProtocol_neg e.what)
  | close => exact .inl (answers_error (fun m => ⟨_, rfl⟩) errorProtocol_neg e.what)
  | inputCommand => exact .inl (answers_error (fun m => ⟨_, rfl⟩) errorProtocol_neg e.what)
  | popBack => exact .inl (answers_error (fun m => ⟨_, rfl⟩) errorProtocol_neg e.what)
  | popFront => exact .inl (answers_error (fun m => ⟨_, rfl⟩) errorProtocol_neg e.what)
  | get => exact .inl (answers_error (fun m => ⟨_, rfl⟩) errorProtocol_neg e.what)
  | propget => exact .inl (answers_error (fun m => ⟨_, rfl⟩) errorProtocol_neg e.what)
  | getCount => exact .inl (answers_error (fun m => ⟨_, rfl⟩) errorProtocol_neg e.what)

/-- Without messages, nothing is numbered. -/
theorem perform_unnumbered (call : Call) : (call.perform regex session).Gives fun r => r.unnumbered = r := by
  cases call with
  | ping => exact Prog.gives_pure rfl
  | createOrOpen create name type =>
    unfold Call.perform
    dsimp only
    split
    · exact Prog.gives_pure rfl
    · exact Prog.gives_bind fun _ => Prog.gives_bind fun _ => Prog.gives_pure rfl
  | close => exact Prog.gives_bind fun _ => Prog.gives_pure rfl
  | inputCommand command =>
    cases command with
    | subscribe => exact Prog.gives_bind fun _ => Prog.gives_pure rfl
    | unsubscribe => exact Prog.gives_pure rfl
    | waitAndPopNext => exact Prog.gives_pure rfl
    | _ => exact Prog.gives_bind fun _ => Prog.gives_bind fun _ => Prog.gives_pure rfl
  | popBack => exact Prog.gives_bind fun _ => Prog.gives_bind fun _ => Prog.gives_pure rfl
  | popFront => exact Prog.gives_bind fun _ => Prog.gives_bind fun _ => Prog.gives_pure rfl
  | get => exact Prog.gives_bind fun _ => Prog.gives_bind fun _ => Prog.gives_pure rfl
  | propget => exact Prog.gives_bind fun _ => Prog.gives_bind fun _ => Prog.gives_bind fun _ => Prog.gives_pure rfl
  | getCount => exact Prog.gives_bind fun _ => Prog.gives_bind fun _ => Prog.gives_pure rfl
  | query =>
    refine Prog.gives_bind fun _ => ?_
    dsimp only
    split
    · exact Prog.gives_bind fun _ => Prog.gives_pure rfl
    · exact Prog.gives_bind fun _ => Prog.gives_bind fun _ => Prog.gives_pure rfl

theorem result_unnumbered {call : Call} {s s' : Server} {r : Result}
    (h : call.result regex session s = some (r, s')) : r.unnumbered = r := by
  unfold Call.result at h
  cases hrun : (call.perform regex session).run s with
  | ok r' t =>
    rw [hrun] at h
    obtain ⟨rfl, -⟩ := Prod.mk.inj (Option.some.inj h)
    exact perform_unnumbered session call _ _ _ hrun
  | throws e t =>
    rw [hrun] at h
    obtain ⟨rfl, -⟩ := Prod.mk.inj (Option.some.inj h)
    cases call <;> rfl
  | undefined =>
    rw [hrun] at h
    cases h

/-- The reply to the request of a call makes the function return what the call does without messages. -/
theorem onBinaryCommand_request (call : Call) (s : Server) :
    Option.Rel (fun x y => x.1.Answers call.waiting y.1 ∧ x.2 = y.2)
      (onBinaryCommand session call.request regex s) (call.result regex session s) := by
  unfold onBinaryCommand Call.result
  rw [request_command]
  dsimp only
  rcases @replyTo_renders regex session call s with
    ⟨reply, r, s', hx, hy, h⟩ | ⟨e, s', hx, hy⟩ | ⟨hx, hy⟩
  · rw [hx, hy]
    exact .some ⟨h, rfl⟩
  · rw [hx, hy]
    exact .some ⟨answers_thrown call e, rfl⟩
  · rw [hx, hy]
    exact .none

end Tiodb.Binary
