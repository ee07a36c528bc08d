import Tiodb.Lib.Lists
import Tiodb.Lib.Machine
import Tiodb.Server.Access

/-!
# The lines and the data of a session

`OnReadCommand` and `OnCommandData` of `TioTcpSession.cpp`. Whether the bytes after a
line are data or another line is for the handler of the line to say, by the size it
asks for.
-/

namespace Tiodb

open Lib

/-- What the session waits for. After `left` it reads no more lines. -/
inductive Phase where
  | line
  | data (cmd : Command) (size : UInt64)
  | left
  deriving DecidableEq, Repr

/-- `unread` is what the client has sent and the session has not taken from its buffer, and `dispatched` the lines
that were parsed. -/
structure Connection where
  server : TextServer
  unread : Bytes
  phase : Phase
  dispatched : List Bytes

namespace Connection

variable (lex : LexicalCast) (others : Command → TextServer.ServerM (List Answer))

/-- `getline`, and the end of line of a client that sends `\r\n`. -/
def nextLine (unread : Bytes) : Bytes :=
  let str := unread.takeWhile (· ≠ 10)
  if str.getLast? = some 13 then str.dropLast else str

def isProtocolChange (cmd : Command) : Bool := cmd.command = ascii "protocol" && cmd.params = [ascii "binary"]

def isHttpRequest (cmd : Command) : Bool := cmd.command ≠ ascii "protocol" && cmd.isHttp

/-- `OnReadCommand` from `Parse` on, with the line off the buffer. -/
def onLine (c : Connection) (line : Bytes) : Option Connection :=
  let cmd := Command.parse line
  if isProtocolChange cmd || isHttpRequest cmd then some { c with phase := .left }
  else
    match (TextServer.onTextCommand lex others cmd).run c.server with
    | .ok reply server =>
      some { c with
        server := server
        phase := if reply.moreDataSize = 0 then .line else .data cmd reply.moreDataSize }
    | _ => none

/-- `async_read_until` calls back with a line, and no sooner. -/
def onReadCommand (c : Connection) : Option Connection :=
  if 10 ∉ c.unread then none
  else
    let rest := (c.unread.dropWhile (· ≠ 10)).tail
    -- can happen if client send binary data
    if c.unread.takeWhile (· ≠ 10) = [] then some { c with unread := rest }
    else
      let line := nextLine c.unread
      onLine lex others { c with unread := rest, dispatched := c.dispatched ++ [cstr line] } line

def onCommandData (c : Connection) (cmd : Command) (size : UInt64) : Option Connection :=
  if c.unread.length < size.toNat then none
  else
    match (TextServer.onTextCommand lex others { cmd with data := c.unread.take size.toNat }).run c.server with
    | .ok _ server => some { c with server := server, unread := c.unread.drop size.toNat, phase := .line }
    | _ => none

/-- `rest` is whatever the other sessions do to the server. -/
inductive Step where
  | read
  | rest (server : TextServer)

def step (c : Connection) : Step → Option Connection
  | .read =>
    match c.phase with
    | .line => onReadCommand lex others c
    | .data cmd size => onCommandData lex others c cmd size
    | .left => none
  | .rest server => some { c with server := server }

/-! ## What a client sends -/

def takesData (command : Bytes) : Bool := TextServer.handlerOf command ∈ [TextServer.Handler.anyData, .modify]

def declaredSize (cmd : Command) : Option Nat :=
  if takesData cmd.command then
    match Text.extractFields lex cmd.params.tail with
    | .ok (fields, _) => some (fields.map fun f => f.size.toNat + 2).sum
    | .error _ => none
  else some 0

structure Sent where
  line : Bytes
  crlf : Bool
  payload : Bytes
  deriving DecidableEq, Repr

def Sent.bytes (x : Sent) : Bytes := x.line ++ (if x.crlf then [13, 10] else [10]) ++ x.payload

/-- A line of text, and after it as many bytes as it declares. -/
structure Sent.WellFormed (x : Sent) : Prop where
  ne_nil : x.line ≠ []
  no_newline : 10 ∉ x.line
  line_end : x.crlf = false → x.line.getLast? ≠ some 13
  payload : declaredSize lex (.parse x.line) = some x.payload.length

def connect (server : TextServer) (sent : List Sent) : Connection :=
  ⟨server, sent.flatMap Sent.bytes, .line, []⟩

/-- The handle of the command is registered, and the session may use it as the server sees it. -/
def accepts (s : TextServer) (cmd : Command) : Bool :=
  match ((cmd.params[0]?).bind lex.toUnsigned).bind (s.handles[·]?) with
  | none => false
  | some o =>
    match s.manager.containerOf o with
    | none => false
    | some c => s.checkObjectAccess c.getName c.getName cmd.command

/-- The session stays in step with the client over the command. -/
def InStep (s : TextServer) (cmd : Command) : Prop :=
  isProtocolChange cmd = false ∧ isHttpRequest cmd = false ∧
    (takesData cmd.command → 4 ≤ cmd.params.length →
      accepts lex s cmd ∧ ∀ n ∈ declaredSize lex cmd, n < 2 ^ 64)

def Safe (c : Connection) : Step → Prop
  | .read => c.phase = .line → 0 ∉ nextLine c.unread ∧ InStep lex c.server (.parse (nextLine c.unread))
  | .rest _ => True

instance (s : TextServer) (cmd : Command) : Decidable (InStep lex s cmd) :=
  inferInstanceAs (Decidable (_ ∧ _ ∧ (_ → _ → _ ∧ _)))

instance (c : Connection) : DecidablePred (Safe lex c)
  | .read => inferInstanceAs (Decidable (_ → _))
  | .rest _ => inferInstanceAs (Decidable True)

variable {lex others} {c c' : Connection} {x : Sent} {cmd : Command} {s s' : TextServer}

/-! ## The line at the front -/

theorem Sent.WellFormed.bytes_eq (h : x.WellFormed lex) (rest : Bytes) :
    ∃ str, x.bytes ++ rest = str ++ 10 :: (x.payload ++ rest) ∧ 10 ∉ str ∧ str ≠ [] ∧
      (if str.getLast? = some 13 then str.dropLast else str) = x.line := by
  unfold Sent.bytes
  cases hcrlf : x.crlf with
  | true => exact ⟨x.line ++ [13], by simp, by simp [h.no_newline], by simp, by simp⟩
  | false => exact ⟨x.line, by simp, h.no_newline, h.ne_nil, if_neg (h.line_end hcrlf)⟩

theorem onReadCommand_line (others : Command → TextServer.ServerM (List Answer)) (h : x.WellFormed lex) {rest : Bytes}
    (hu : c.unread = x.bytes ++ rest) :
    nextLine c.unread = x.line ∧
      onReadCommand lex others c =
        onLine lex others { c with unread := x.payload ++ rest, dispatched := c.dispatched ++ [cstr x.line] }
          x.line := by
  obtain ⟨str, hbytes, hstr, hne, hline⟩ := h.bytes_eq rest
  rw [hbytes] at hu
  obtain ⟨htake, hdrop⟩ := takeWhile_append_cons hstr (x.payload ++ rest)
  have hnext : nextLine c.unread = x.line := by
    rw [nextLine, hu, htake]
    exact hline
  refine ⟨hnext, ?_⟩
  unfold onReadCommand
  rw [hnext, hu, htake, hdrop, if_neg (by simp), if_neg hne]

/-! ## What a command declares -/

theorem declaredSize_data {n : Nat} (hdata : takesData cmd.command) (h : declaredSize lex cmd = some n) :
    ∃ fields total, Text.extractFields lex cmd.params.tail = .ok (fields, total) ∧
      (fields.map fun f => f.size.toNat + 2).sum = n := by
  rw [declaredSize, if_pos hdata] at h
  split at h
  · rename_i fields total hf
    exact ⟨fields, total, hf, Option.some.inj h⟩
  · cases h

/-! ## What a handler asks for -/

def NoData (x : TextServer.ServerM Reply) : Prop := ∀ s r s', x.run s = .ok r s' → r.moreDataSize = 0

theorem noData_answer (a : Answer) : NoData (TextServer.answer a) := by
  intro s r s' h
  cases h
  rfl

theorem NoData.bind {α : Type} {y : TextServer.ServerM α} {f : α → TextServer.ServerM Reply} (hf : ∀ a, NoData (f a)) :
    NoData (y >>= f) := by
  intro s r s' h
  rw [Prog.run_bind] at h
  split at h
  · exact hf _ _ _ _ h
  · cases h
  · cases h

theorem NoData.tryCatch {y : TextServer.ServerM Reply} {f : Exc → TextServer.ServerM Reply} (hy : NoData y)
    (hf : ∀ e, NoData (f e)) : NoData (MonadExcept.tryCatch y f) := by
  intro s r s' h
  rw [Prog.run_tryCatch] at h
  split at h
  · exact hf _ _ _ _ h
  · exact hy _ _ _ h

theorem noData_throw (e : Exc) : NoData (throw e) := by
  intro s r s' h
  cases h

theorem noData_undefined : NoData Prog.undefined := by
  intro s r s' h
  cases h

theorem NoData.ite {p : Prop} [Decidable p] {y z : TextServer.ServerM Reply} (hy : NoData y) (hz : NoData z) :
    NoData (if p then y else z) := by
  split
  · exact hy
  · exact hz

theorem noData_catching {y : TextServer.ServerM Reply} (hy : NoData y) : NoData (TextServer.catching y) :=
  hy.tryCatch fun _ => noData_answer _

theorem noData_answers (l : List Answer) : NoData (pure { answers := l }) := by
  intro s r s' h
  cases h
  rfl

theorem noData_pop (cmd : Command) : NoData (TextServer.onCommandPop lex cmd) := by
  refine noData_catching ?_
  split
  · split
    · exact noData_throw _
    · refine NoData.bind fun d => NoData.bind fun s => (noData_answer _).ite ?_
      exact NoData.bind noData_answers
  · exact noData_answer _

theorem noData_subscribe (cmd : Command) : NoData (TextServer.onCommandSubscribeUnsubscribe lex cmd) := by
  refine (noData_answer _).ite ?_
  split
  · exact noData_answer _
  · refine noData_catching (NoData.bind fun d => NoData.bind fun s => (noData_answer _).ite ?_)
    refine NoData.bind fun _ => NoData.ite ?_ (noData_answer _)
    exact NoData.bind fun _ => noData_answer _

theorem noData_setPermission (cmd : Command) : NoData (TextServer.onCommandSetPermission cmd) := by
  unfold TextServer.onCommandSetPermission
  split
  · refine (noData_answer _).ite (NoData.bind fun s => ?_)
    dsimp only
    split
    · exact noData_answer _
    · refine NoData.bind fun s => ?_
      split
      · exact noData_undefined
      · exact noData_throw _
      · refine (noData_answer _).ite ?_
        split
        · exact NoData.bind fun _ => noData_answer _
        · exact (noData_answer _).ite (NoData.bind fun _ => noData_answer _)
  · exact noData_answer _

theorem noData_onTextCommand (hdata : takesData cmd.command = false) :
    NoData (TextServer.onTextCommand lex others cmd) := by
  refine NoData.tryCatch ?_ fun e => noData_answer _
  cases hh : TextServer.handlerOf cmd.command with
  | anyData => simp [takesData, hh] at hdata
  | modify => simp [takesData, hh] at hdata
  | pop => exact noData_pop cmd
  | subscribeUnsubscribe => exact noData_subscribe cmd
  | setPermission => exact noData_setPermission cmd
  | other => exact NoData.bind noData_answers

theorem accepts_cases (h : accepts lex s cmd) :
    ∃ handle o c, (cmd.params[0]?).bind lex.toUnsigned = some handle ∧ s.handles[handle]? = some o ∧
      s.manager.containerOf o = some c ∧ s.checkObjectAccess c.getName c.getName cmd.command = true := by
  unfold accepts at h
  split at h
  · cases h
  · rename_i o ho
    obtain ⟨handle, hp, ho⟩ := Option.bind_eq_some_iff.mp ho
    split at h
    · cases h
    · rename_i c hc
      exact ⟨handle, o, c, hp, ho, hc, h⟩

theorem onDataCommand_first {n : Nat} (body : Fields → Container.ContainerM (List Answer))
    (hdata : takesData cmd.command) (hempty : cmd.data = []) (hdecl : declaredSize lex cmd = some n)
    (hin : InStep lex s cmd) :
    ∃ r, (TextServer.onDataCommand lex body cmd).run s = .ok r s ∧ r.moreDataSize.toNat = n := by
  obtain ⟨fields, total, hf, hn⟩ := declaredSize_data hdata hdecl
  have hlength := Text.extractFields_length hf
  rw [List.length_tail] at hlength
  unfold TextServer.onDataCommand
  by_cases hlen : cmd.params.length < 4
  · have hnil : fields = [] := List.length_eq_zero_iff.mp (by omega)
    have hparse : (TextServer.parseDataCommand lex cmd).run s =
        .throws (invalidArgument "Invalid parameter count") s := by
      rw [TextServer.parseDataCommand, if_pos hlen]
      rfl
    rw [TextServer.run_catching_throws (Prog.run_bind_throws _ _ hparse)]
    refine ⟨_, rfl, ?_⟩
    rw [← hn, hnil]
    rfl
  · obtain ⟨hacc, hbound⟩ := hin.2.2 hdata (by omega)
    obtain ⟨handle, o, c, hp, ho, hc, hallow⟩ := accepts_cases hacc
    have hlt : n < 2 ^ 64 := hbound n hdecl
    have htotal : total.toNat = n := by
      rw [Text.extractFields_total hf, hn, Nat.mod_eq_of_lt hlt]
    have hpos : 0 < n := by
      obtain ⟨f, fields, rfl⟩ := List.exists_cons_of_length_pos (l := fields) (by omega)
      simp only [List.map_cons, List.sum_cons] at hn
      omega
    have hset : Text.extractFieldSet lex cmd.params.tail cmd.data = some (.ok (.needs total)) := by
      rw [Text.extractFieldSet, hf]
      exact if_pos (by rw [hempty, htotal]; exact hpos)
    have hparse := TextServer.parseDataCommand_run hp ho hc
    rw [if_neg hlen, hset] at hparse
    rw [TextServer.run_catching_bind hparse, TextServer.run_catching_bind (Prog.run_get s)]
    simp only [hallow, Bool.not_true, Bool.false_eq_true, if_false]
    exact ⟨_, TextServer.run_catching_ok (Prog.run_pure _ s), htotal⟩

theorem onTextCommand_data (others : Command → TextServer.ServerM (List Answer)) {n : Nat}
    (hdata : takesData cmd.command) (hempty : cmd.data = []) (hdecl : declaredSize lex cmd = some n) (hin : InStep lex s cmd) :
    ∃ r, (TextServer.onTextCommand lex others cmd).run s = .ok r s ∧ r.moreDataSize.toNat = n := by
  have hask : TextServer.asksPermission cmd.command := by
    simp only [takesData, TextServer.asksPermission, List.mem_cons, decide_eq_true_eq] at hdata ⊢
    tauto
  rw [TextServer.onTextCommand_run hask]
  cases hh : TextServer.handlerOf cmd.command with
  | anyData => exact onDataCommand_first _ hdata hempty hdecl hin
  | modify => exact onDataCommand_first _ hdata hempty hdecl hin
  | _ => simp [takesData, hh] at hdata

/-- Over a command that is in step, the session asks for exactly the bytes that the client sends as its data. -/
theorem onTextCommand_asks {n : Nat} {r : Reply} (hempty : cmd.data = []) (hdecl : declaredSize lex cmd = some n)
    (hin : InStep lex s cmd) (hr : (TextServer.onTextCommand lex others cmd).run s = .ok r s') :
    r.moreDataSize.toNat = n := by
  cases hdata : takesData cmd.command with
  | true =>
    obtain ⟨r', hr', hn⟩ := onTextCommand_data others hdata hempty hdecl hin
    cases hr'.symm.trans hr
    exact hn
  | false =>
    rw [noData_onTextCommand hdata s r s' hr]
    rw [declaredSize, if_neg (by simp [hdata])] at hdecl
    exact Option.some.inj hdecl

/-! ## In step with the client -/

/-- The lines dispatched are those of the first commands, and what is unread is the rest. -/
def Following (sent : List Sent) (c : Connection) : Prop :=
  ∃ before after, sent = before ++ after ∧ c.dispatched = before.map Sent.line ∧
    match c.phase with
    | .line => c.unread = after.flatMap Sent.bytes
    | .data _ size => ∃ payload, c.unread = payload ++ after.flatMap Sent.bytes ∧ payload.length = size.toNat
    | .left => False

theorem parse_data (line : Bytes) : (Command.parse line).data = [] := by
  unfold Command.parse
  split <;> rfl

theorem following_line {sent before after : List Sent} (hsent : sent = before ++ x :: after)
    (hx : x.WellFormed lex) (hd : c.dispatched = before.map Sent.line)
    (hu : c.unread = (x :: after).flatMap Sent.bytes) (hnul : 0 ∉ nextLine c.unread)
    (hin : InStep lex c.server (.parse (nextLine c.unread))) (hs : onReadCommand lex others c = some c') :
    Following sent c' := by
  rw [List.flatMap_cons] at hu
  obtain ⟨hnext, hread⟩ := onReadCommand_line others hx hu
  rw [hnext] at hnul hin
  rw [hread, onLine, hin.1, hin.2.1] at hs
  simp only [Bool.or_self, Bool.false_eq_true, if_false] at hs
  split at hs
  · rename_i reply server hr
    cases hs
    have hsize := onTextCommand_asks (parse_data x.line) hx.payload hin hr
    refine ⟨before ++ [x], after, by simp [hsent], by simp [hd, cstr_eq_self hnul], ?_⟩
    by_cases hzero : reply.moreDataSize = 0
    · have hnil : x.payload = [] := by
        rw [hzero] at hsize
        exact List.length_eq_zero_iff.mp hsize.symm
      simp [hzero, hnil]
    · simp only [if_neg hzero]
      exact ⟨x.payload, rfl, hsize.symm⟩
  · cases hs

theorem following_data {sent before after : List Sent} {size : UInt64} {payload : Bytes}
    (hsent : sent = before ++ after) (hd : c.dispatched = before.map Sent.line)
    (hu : c.unread = payload ++ after.flatMap Sent.bytes) (hsize : payload.length = size.toNat)
    (hs : onCommandData lex others c cmd size = some c') : Following sent c' := by
  unfold onCommandData at hs
  split at hs
  · cases hs
  · split at hs
    · cases hs
      refine ⟨before, after, hsent, hd, ?_⟩
      rw [hu, ← hsize]
      exact List.drop_left
    · cases hs

theorem step_following {sent : List Sent} (hsent : ∀ x ∈ sent, x.WellFormed lex) (c : Connection) (a : Step)
    (c' : Connection) (h : Following sent c) (hsafe : Safe lex c a) (hs : step lex others c a = some c') :
    Following sent c' := by
  obtain ⟨before, after, hsplit, hd, hphase⟩ := h
  cases a with
  | rest server =>
    cases hs
    exact ⟨before, after, hsplit, hd, hphase⟩
  | read =>
    unfold step at hs
    cases hp : c.phase with
    | line =>
      rw [hp] at hphase hs
      cases after with
      | nil =>
        -- every command of the client is done
        have hnone : onReadCommand lex others c = none := by
          rw [onReadCommand, hphase]
          rfl
        rw [hnone] at hs
        cases hs
      | cons x after =>
        have hx : x.WellFormed lex := hsent x (by simp [hsplit])
        exact following_line hsplit hx hd hphase (hsafe hp).1 (hsafe hp).2 hs
    | data cmd size =>
      rw [hp] at hphase hs
      obtain ⟨payload, hu, hsize⟩ := hphase
      exact following_data hsplit hd hu hsize hs
    | left =>
      rw [hp] at hphase
      exact hphase.elim

theorem onTextCommand_ne_throws (e : Exc) : (TextServer.onTextCommand lex others cmd).run s ≠ .throws e s' := by
  rw [TextServer.onTextCommand, Prog.run_tryCatch]
  split
  · nofun
  · rename_i hne
    exact hne e s'

theorem Following.reads_on {sent : List Sent} (hsent : ∀ x ∈ sent, x.WellFormed lex) (h : Following sent c)
    (hstuck : step lex others c .read = none) :
    c.phase = .line ∧ c.unread = [] ∨ ∃ cmd, (TextServer.onTextCommand lex others cmd).run c.server = .undefined := by
  obtain ⟨before, after, hsplit, -, hphase⟩ := h
  unfold step at hstuck
  cases hp : c.phase with
  | line =>
    rw [hp] at hphase hstuck
    cases after with
    | nil => exact .inl ⟨rfl, hphase⟩
    | cons x after =>
      obtain ⟨-, hread⟩ := onReadCommand_line others (hsent x (by simp [hsplit])) hphase
      rw [hread, onLine] at hstuck
      dsimp only at hstuck
      split at hstuck
      · cases hstuck
      · cases hr : (TextServer.onTextCommand lex others (.parse x.line)).run c.server with
        | ok reply server => simp [hr] at hstuck
        | throws e server => exact absurd hr (onTextCommand_ne_throws e)
        | undefined => exact .inr ⟨_, hr⟩
  | data cmd size =>
    rw [hp] at hphase hstuck
    obtain ⟨payload, hu, hsize⟩ := hphase
    have henough : ¬ c.unread.length < size.toNat := by
      rw [hu, List.length_append]
      omega
    change onCommandData lex others c cmd size = none at hstuck
    rw [onCommandData, if_neg henough] at hstuck
    cases hr : (TextServer.onTextCommand lex others { cmd with data := c.unread.take size.toNat }).run c.server with
    | ok reply server => simp [hr] at hstuck
    | throws e server => exact absurd hr (onTextCommand_ne_throws e)
    | undefined => exact .inr ⟨_, hr⟩
  | left =>
    rw [hp] at hphase
    exact hphase.elim

/-- In every run in which the session stays in step over each command, the lines dispatched are the first lines that
the client sent, and all of them when nothing is left to read. The session reads until then, unless a command is
undefined. -/
theorem lines_dispatched (lex : LexicalCast) (others : Command → TextServer.ServerM (List Answer))
    (server : TextServer) (sent : List Sent) (hsent : ∀ x ∈ sent, x.WellFormed lex) (as : List Step) (c : Connection)
    (hsafe : Meets (step lex others) (Safe lex) (connect server sent) as)
    (hrun : run (step lex others) (connect server sent) as = some c) :
    c.dispatched <+: sent.map Sent.line ∧
      (c.phase = .line → c.unread = [] → c.dispatched = sent.map Sent.line) ∧
      (step lex others c .read = none →
        c.phase = .line ∧ c.unread = [] ∨
          ∃ cmd, (TextServer.onTextCommand lex others cmd).run c.server = .undefined) := by
  have hstart : Following sent (connect server sent) := ⟨[], sent, rfl, rfl, rfl⟩
  have hend : Following sent c := run_keeps (step_following hsent) hstart hsafe hrun
  refine ⟨?_, ?_, hend.reads_on hsent⟩
  · obtain ⟨before, after, hsplit, hd, -⟩ := hend
    exact ⟨after.map Sent.line, by simp [hd, hsplit]⟩
  · intro hp hu
    obtain ⟨before, after, hsplit, hd, hphase⟩ := hend
    rw [hp] at hphase
    cases after with
    | nil => simp [hd, hsplit]
    | cons x after =>
      have hx := hsent x (by simp [hsplit])
      simp [hu, Sent.bytes, hx.ne_nil] at hphase

def pushAndPing (handle : String) : List Sent :=
  [⟨ascii ("push_back " ++ handle ++ " value string 4"), true, ascii "ping\r\n"⟩, ⟨ascii "ver", false, []⟩]

theorem pushAndPing_wellFormed {handle : String} (h : handle = "1" ∨ handle = "9") :
    ∀ x ∈ pushAndPing handle, x.WellFormed .digits := by
  intro x hx
  simp only [pushAndPing, List.mem_cons, List.not_mem_nil, or_false] at hx
  obtain rfl | rfl := h
  · obtain rfl | rfl := hx
    · exact ⟨by decide, by decide, by decide, by decide⟩
    · exact ⟨by decide, by decide, by decide, by decide⟩
  · obtain rfl | rfl := hx
    · exact ⟨by decide, by decide, by decide, by decide⟩
    · exact ⟨by decide, by decide, by decide, by decide⟩

theorem lines_dispatched_record :
    ∃ c, run (step .digits TextServer.noOthers) (connect (TextServer.oneList (ascii "x")) (pushAndPing "1"))
        [.read, .read, .read] = some c ∧ c.dispatched = (pushAndPing "1").map Sent.line := by
  generalize hr : run (step .digits TextServer.noOthers) _ _ = r
  have hview : r.map (fun c => (c.phase, c.unread)) = some (.line, []) := by
    rw [← hr]
    decide +kernel
  obtain ⟨c, rfl, hc⟩ := Option.map_eq_some_iff.mp hview
  obtain ⟨hp, hu⟩ := Prod.mk.inj hc
  exact ⟨c, rfl, (lines_dispatched .digits TextServer.noOthers (TextServer.oneList (ascii "x")) (pushAndPing "1")
    (pushAndPing_wellFormed (.inl rfl)) _ c (by decide) hr).2.1 hp hu⟩

/-- The handle is not registered: the data is dispatched as a command. -/
theorem data_dispatched :
    (∀ x ∈ pushAndPing "9", x.WellFormed .digits) ∧
      ∃ c, run (step .digits TextServer.noOthers) (connect (TextServer.oneList (ascii "x")) (pushAndPing "9"))
        [.read, .read] = some c ∧ c.dispatched = [ascii "push_back 9 value string 4", ascii "ping"] ∧
        ¬ c.dispatched <+: (pushAndPing "9").map Sent.line := by
  refine ⟨pushAndPing_wellFormed (.inr rfl), ?_⟩
  generalize hr : run (step .digits TextServer.noOthers) _ _ = r
  have hview : r.map Connection.dispatched = some [ascii "push_back 9 value string 4", ascii "ping"] := by
    rw [← hr]
    decide +kernel
  obtain ⟨c, rfl, hc⟩ := Option.map_eq_some_iff.mp hview
  refine ⟨c, rfl, hc, ?_⟩
  rw [hc]
  decide

end Connection

end Tiodb
