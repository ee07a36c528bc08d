import Tiodb.Client.PyCommand
import Tiodb.Server.OneReply
import Tiodb.Storage.Slices

/-!
# Slices of a remote list

`Query` of `tioclient.py` puts the offsets that are not `None` behind the handle, and
`OnCommand_Query` reads them by their places. An end of 0 is no bound to the list.
-/

namespace Tiodb.Python

open Lib

/-- The words of `Query`, with blanks between them. -/
def queryText (handle : Str) (startOffset endOffset : Option Int32) : Str :=
  let l := [str (ascii "query"), handle]
  let l := l ++ (startOffset.map fun i => str (intDigits i.toInt)).toList
  let l := l ++ (endOffset.map fun i => str (intDigits i.toInt)).toList
  List.intercalate (str (ascii " ")) l

def query (handle : Str) (startOffset endOffset : Option Int32) : Option Bytes :=
  sendCommand (queryText handle startOffset endOffset)

variable (lex : LexicalCast) (server : Handlers.ServerAnswers)

def itemValue : Handlers.Write → Option TioData
  | .resultSetItem _ record => some record.value
  | _ => none

/-- `RemoteContainer.query`: the values of the result set as they were sent. `none` is an exception. The text of an
item, and how the client reads it, are left out here; they are in `PyMessages`. -/
def remoteQuery (handle : UInt32) (startOffset endOffset : Option Int32) : Option (List TioData) :=
  (query (str (digits handle.toNat)) startOffset endOffset).bind fun bytes =>
    match (Handlers.onCommandQuery lex server (Command.parse (Connection.nextLine bytes))).run {} with
    | .ok _ out => if out.answer = [] then some (out.sent.filterMap itemValue) else none
    | _ => none

/-- The container answers queries as the list does. -/
def AnswersFor (container : Handlers.ContainerAnswers) (s : ListStorage) : Prop :=
  ∀ start stop records, (ListStorage.query start stop .none).run s = .ok records s →
    container.query start stop .none = .ok (records.map fun r => ⟨r.key, r.value, r.metadata⟩)

def values (s : ListStorage) : List TioData := s.data.map ValueAndMetadata.value

/-- `l[start:stop]`. -/
def localSlice {α : Type} (l : List α) (start stop : Option Int32) : List α :=
  pySlice l ((start.map Int32.toInt).getD 0) (stop.map Int32.toInt)

/-- The stop is not given; or the start is given, and the stop is not 0, or nothing is behind the start; or the
list is one part twice, and the stop is between the two. -/
def Positional {α : Type} (l : List α) : Option Int32 → Option Int32 → Prop
  | _, none => True
  | some start, some stop => stop ≠ 0 ∨ l = [] ∨ (l.length : Int) ≤ start.toInt
  | none, some stop => ∃ half, l = half ++ half ∧ half.length = pyBound stop.toInt l.length

/-! ## What is sent -/

/-- The offsets that the server has. -/
def sent (start stop : Option Int32) : Int32 × Int32 :=
  match start, stop with
  | some start, stop => (start, stop.getD 0)
  | none, stop => (stop.getD 0, 0)

/-- The slice that the server reads. -/
def sentSlice {α : Type} (l : List α) (start stop : Option Int32) : List α :=
  pySlice l (sent start stop).1.toInt (queryStop (sent start stop).2)

def offsetWords (start stop : Option Int32) : List Bytes :=
  (start.toList ++ stop.toList).map fun i => intDigits i.toInt

def queryLine (handle : UInt32) (start stop : Option Int32) : Bytes :=
  ascii "query" ++ (digits handle.toNat :: offsetWords start stop).flatMap (32 :: ·)

variable {lex server} {handle : UInt32} {start stop : Option Int32}

theorem queryText_eq : queryText (str (digits handle.toNat)) start stop = str (queryLine handle start stop) := by
  have hblank (b : Bytes) : str (32 :: b) = str (ascii " ") ++ str b := rfl
  unfold queryText queryLine offsetWords
  cases start <;> cases stop <;> simp [List.intercalate, List.intersperse, str_append, hblank]

theorem plain_words : ∀ w ∈ digits handle.toNat :: offsetWords start stop, ∀ c ∈ w, 32 < c ∧ c < 127 := by
  intro w hw c hc
  obtain rfl | hw := List.mem_cons.mp hw
  · exact plain_of_mem_digits hc
  · obtain ⟨i, -, rfl⟩ := List.mem_map.mp hw
    exact plain_of_mem_intDigits hc

theorem plain_queryLine : ∀ c ∈ queryLine handle start stop, 32 ≤ c ∧ c < 127 := by
  intro c hc
  obtain hc | hc := List.mem_append.mp hc
  · have hquery : ∀ c ∈ ascii "query", 32 ≤ c ∧ c < 127 := by simp [ascii]
    exact hquery c hc
  · obtain ⟨w, hw, hc⟩ := List.mem_flatMap.mp hc
    obtain rfl | hc := List.mem_cons.mp hc
    · simp
    · exact ⟨UInt8.le_of_lt (plain_words w hw c hc).1, (plain_words w hw c hc).2⟩

theorem length_queryLine : (queryLine handle start stop).length ≤ 40 := by
  have hhandle : (digits handle.toNat).length ≤ 10 :=
    length_digits_le (by decide) (lt_trans handle.toNat_lt (by decide))
  have hoffset (i : Int32) := length_intDigits_le i
  unfold queryLine offsetWords
  cases start with
  | none =>
    cases stop with
    | none => simp [ascii]; omega
    | some stop => have := hoffset stop; simp [ascii]; omega
  | some start =>
    have := hoffset start
    cases stop with
    | none => simp [ascii]; omega
    | some stop => have := hoffset stop; simp [ascii]; omega

theorem query_eq : query (str (digits handle.toNat)) start stop = some (queryLine handle start stop ++ Text.lineEnd) := by
  have hlow : ∀ c ∈ queryLine handle start stop ++ Text.lineEnd, c < 128 :=
    Text.ascii_append_lineEnd fun c hc => UInt8.lt_trans (plain_queryLine c hc).2 (by decide)
  have hnoend : ¬ str Text.lineEnd <:+ str (queryLine handle start stop) := by
    intro hend
    obtain ⟨c, hc, heq⟩ := List.mem_map.mp (hend.subset (show (13 : CodePoint) ∈ str Text.lineEnd by decide))
    obtain rfl : c = 13 := UInt8.toNat_inj.mp (Fin.mk.inj heq)
    exact absurd (plain_queryLine 13 hc).1 (by decide)
  have hfits : ¬ maxSize < (str (queryLine handle start stop) ++ str Text.lineEnd).length := by
    have hline : (queryLine handle start stop).length ≤ 40 := length_queryLine
    rw [List.length_append, length_str, length_str]
    simp only [maxSize, Text.lineEnd, List.length_cons, List.length_nil]
    omega
  unfold query sendCommand
  rw [queryText_eq, if_neg hnoend]
  dsimp only
  rw [if_neg hfits, encode_eq_some, ← str_append, utf8_str hlow]
  refine ⟨fun c hc => ?_, rfl⟩
  obtain ⟨d, hd, rfl⟩ := List.mem_map.mp hc
  exact isSurrogate_of_lt (UInt8.lt_iff_toNat_lt.mp (hlow d hd))

theorem parse_query :
    Command.parse (Connection.nextLine (queryLine handle start stop ++ Text.lineEnd)) =
      { command := ascii "query", params := digits handle.toNat :: offsetWords start stop } := by
  have hblank {w : Bytes} (hw : ∀ c ∈ w, 32 < c ∧ c < 127) : 32 ∉ w := fun hmem => absurd (hw 32 hmem).1 (by simp)
  have hplain : ∀ c ∈ queryLine handle start stop, 32 ≤ c := fun c hc => (plain_queryLine c hc).1
  obtain ⟨hline, -, hcstr⟩ := nextLine_of_plain hplain []
  rw [List.append_nil] at hline
  rw [hline, Command.parse, hcstr, queryLine,
    splitOn_words (by simp [ascii]) fun w hw => hblank (plain_words w hw)]

/-! ## What comes back -/

theorem remoteQuery_eq (hlex : ReadsNumbers lex) {container : Handlers.ContainerAnswers} {s : ListStorage}
    (hregistered : Handlers.registered lex server (some (digits handle.toNat)) = .ok container)
    (hcontainer : AnswersFor container s) (hlen : s.data.length < 2 ^ 31) :
    remoteQuery lex server handle start stop =
      some (sentSlice (values s) start stop) := by
  let records : List Fields := (sentSlice s.records start stop).map fun r => ⟨r.key, r.value, r.metadata⟩
  have hquery : container.query (sent start stop).1 (sent start stop).2 .none = .ok records :=
    hcontainer _ _ _ (s.query_spec _ _ hlen)
  have hrun : (Handlers.onCommandQuery lex server
      { command := ascii "query", params := digits handle.toNat :: offsetWords start stop }).run {} =
      .ok () { sent := .resultSetStart server.createNewQueryId ::
        records.map (.resultSetItem server.createNewQueryId) ++ [.resultSetEnd server.createNewQueryId] } := by
    have hread (i : Int32) : lex.toInt (intDigits i.toInt) = some i := hlex.toInt i
    have hparams : (offsetWords start stop)[0]?.elim (some 0) lex.toInt = some (sent start stop).1 ∧
        (offsetWords start stop)[1]?.elim (some 0) lex.toInt = some (sent start stop).2 := by
      cases start <;> cases stop <;> simp [offsetWords, sent, hread]
    unfold Handlers.onCommandQuery Handlers.withContainer
    rw [if_neg (by simp)]
    simp only [List.getElem?_cons_zero, List.getElem?_cons_succ, hregistered, hparams, hquery, Handlers.catching,
      Prog.run_bind, Prog.run_tryCatch, Prog.run_ofExcept_ok, Handlers.run_sendTextResultSet, Prog.run_pure,
      List.nil_append]
  have hvalues : (sentSlice s.records start stop).map Record.value = sentSlice (values s) start stop := by
    have hmap : s.records.map Record.value = values s := by
      apply List.ext_getElem?
      intro i
      rw [List.getElem?_map, s.records_getElem?, values, List.getElem?_map, Option.map_map]
      rfl
    unfold sentSlice pySlice
    rw [List.map_take, List.map_drop, hmap, s.length_records]
    simp [values]
  unfold remoteQuery
  rw [query_eq, Option.bind_some, parse_query, hrun]
  rw [← hvalues]
  simp [List.filterMap_cons, itemValue, records, List.filterMap_append, List.filterMap_map, Function.comp_def]

/-! ## The slices -/

theorem localSlice_stop {α : Type} (l : List α) (start : Option Int32) :
    localSlice l start none = l.drop (pyBound ((start.map Int32.toInt).getD 0) l.length) := by
  unfold localSlice pySlice
  rw [List.take_of_length_le (by simp)]

theorem sentSlice_no_stop {α : Type} (l : List α) (start : Option Int32) :
    sentSlice l start none = localSlice l start none := by
  cases start <;> rfl

theorem sentSlice_zero {α : Type} (l : List α) (start : Int32) :
    sentSlice l (some start) (some 0) = localSlice l (some start) none := rfl

theorem sentSlice_ne_zero {α : Type} (l : List α) (start : Int32) {stop : Int32} (h : stop ≠ 0) :
    sentSlice l (some start) (some stop) = localSlice l (some start) (some stop) := by
  simp [sentSlice, sent, queryStop, localSlice, h]

theorem sentSlice_no_start {α : Type} (l : List α) (stop : Int32) :
    sentSlice l none (some stop) = localSlice l (some stop) none := rfl

theorem slices_agree_iff {α : Type} (l : List α) (start stop : Option Int32) :
    sentSlice l start stop = localSlice l start stop ↔ Positional l start stop := by
  cases stop with
  | none => simp [sentSlice_no_stop, Positional]
  | some stop =>
    cases start with
    | some start =>
      unfold Positional
      by_cases hstop : stop = 0
      · subst hstop
        have hempty : localSlice l (some start) (some 0) = [] := by simp [localSlice, pySlice, pyBound]
        rw [hempty, sentSlice_zero, localSlice_stop, List.drop_eq_nil_iff]
        simp only [ne_eq, not_true_eq_false, false_or, Option.map_some, Option.getD_some, pyBound,
          ← List.length_eq_zero_iff]
        split_ifs <;> omega
      · simp [sentSlice_ne_zero, hstop]
    | none =>
      have hstart : localSlice l none (some stop) = l.take (pyBound stop.toInt l.length) := by
        simp [localSlice, pySlice, pyBound]
      have hle := pyBound_le stop.toInt l.length
      rw [hstart, sentSlice_no_start, localSlice_stop]
      simp only [Positional, Option.map_some, Option.getD_some]
      constructor
      · intro h
        refine ⟨l.take (pyBound stop.toInt l.length), ?_, by simpa using hle⟩
        exact (List.take_append_drop _ l).symm.trans (congrArg _ h)
      · rintro ⟨half, hl, hhalf⟩
        rw [← hhalf, hl, List.drop_left, List.take_left]

/-- The client gets the slice of the values exactly if its offsets stand where the server reads them. -/
theorem query_is_slice_iff (hlex : ReadsNumbers lex) {container : Handlers.ContainerAnswers} {s : ListStorage}
    (hregistered : Handlers.registered lex server (some (digits handle.toNat)) = .ok container)
    (hcontainer : AnswersFor container s) (hlen : s.data.length < 2 ^ 31) (start stop : Option Int32) :
    remoteQuery lex server handle start stop = some (localSlice (values s) start stop) ↔
      Positional (values s) start stop := by
  rw [remoteQuery_eq hlex hregistered hcontainer hlen, Option.some_inj]
  exact slices_agree_iff _ _ _

/-- A list with the values 5, 6 and 7. -/
def threeValues : ListStorage :=
  { ListStorage.new [] [] with data := [⟨.int 5, .none⟩, ⟨.int 6, .none⟩, ⟨.int 7, .none⟩] }

/-- The list as a container, which answers nothing but queries. -/
def onlyQueries (s : ListStorage) : Handlers.ContainerAnswers where
  name := []
  type := ascii "volatile_list"
  insert _ := .error (runtimeError "")
  set _ := .error (runtimeError "")
  pushBack _ := .error (runtimeError "")
  pushFront _ := .error (runtimeError "")
  delete _ := .error (runtimeError "")
  popBack := .error (runtimeError "")
  popFront := .error (runtimeError "")
  getRecord _ := .error (runtimeError "")
  setProperty _ _ := .error (runtimeError "")
  getProperty _ := .error (runtimeError "")
  clear := .error (runtimeError "")
  getRecordCount := .error (runtimeError "")
  command _ := .error (runtimeError "")
  query start stop q :=
    match (ListStorage.query start stop q).run s with
    | .ok records _ => .ok (records.map fun r => ⟨r.key, r.value, r.metadata⟩)
    | _ => .error (runtimeError "")

def oneContainer (container : Handlers.ContainerAnswers) : Handlers.ServerAnswers where
  getRegisteredContainer handle := if handle = 1 then .ok container else .error (invalidArgument "invalid handle")
  checkObjectAccess _ _ _ := true
  checkCommandAccess _ := true
  createContainer _ _ := .error (runtimeError "")
  openContainer _ _ := .error (runtimeError "")
  deleteContainer _ _ := .error (runtimeError "")
  containerExists _ _ := .ok false
  registerContainer _ := 1
  closeContainerHandle _ := .ok ()
  addContainer _ _ := .ok ()
  password _ := .ok .none
  createNewQueryId := 1
  regex _ := .error (runtimeError "")

theorem query_is_slice_last_but_one :
    remoteQuery .signed (oneContainer (onlyQueries threeValues)) 1 (some (-2)) (some (-1)) = some [.int 6] :=
  (query_is_slice_iff (s := threeValues) signed_readsNumbers rfl
    (fun start stop records h => by simp [onlyQueries, h]) (by decide) (some (-2)) (some (-1))).mpr (.inl (by decide))

/-- `l[:1]` comes back as `l[1:]`. -/
theorem stop_read_as_start :
    remoteQuery .signed (oneContainer (onlyQueries threeValues)) 1 none (some 1) = some [.int 6, .int 7] ∧
      localSlice (values threeValues) none (some 1) = [.int 5] ∧
      remoteQuery .signed (oneContainer (onlyQueries threeValues)) 1 (some 1) (some 0) = some [.int 6, .int 7] ∧
      localSlice (values threeValues) (some 1) (some 0) = [] := by
  decide +kernel

end Tiodb.Python
