import Tiodb.Lib.Machine
import Tiodb.Storage.Container

/-!
# The modify command

The body of `OnModify` of `TioTcpServer.cpp`, once the command has its data. It reads
the record and writes it back in two calls of the container, and other sessions run
between the two.
-/

namespace Tiodb

open Lib

/-- An answer of the text protocol. `data` is the answer with the fields that are not null. -/
inductive Answer where
  | ok (text : Bytes)
  | error (text : Bytes)
  | data (key value metadata : TioData)
  deriving DecidableEq, Repr

def Answer.isError : Answer → Bool
  | .error _ => true
  | _ => false

namespace Modify

variable (lex : LexicalCast)

/-- The checks up to `toAdd`. A value that is no string has at least the two bytes asked for. -/
def operand (key value : TioData) : Except Bytes Int32 :=
  if key.isNull || value.isNull then .error (ascii "need key and data")
  else
    match value.asSz with
    | .error e => .error e.what
    | .ok sz =>
      -- only sum yet
      if sz.head? ≠ some 43 then .error (ascii "invalid operation")
      else
        match lex.toInt sz.tail with
        | some toAdd => .ok toAdd
        | none => .error badLexicalCast.what

/-- The body up to `GetRecord`: the number read and the number to add, or the text of the error answer. -/
def read (key value : TioData) : Container.ContainerM (Except Bytes (Int32 × Int32)) := do
  match operand lex key value with
  | .error text => return .error text
  | .ok toAdd =>
    match (← Container.getRecord key).value with
    | .int current => return .ok (current, toAdd)
    | _ => return .error (ascii "modified data must be integer")

/-- The rest of the body. Two answers are made. -/
def write (key : TioData) (current toAdd : Int32) : Container.ContainerM (List Answer) := do
  Container.set key (.int (current + toAdd)) .none
  return [.data .none (.int (current + toAdd)) .none, .ok []]

/-- The body of `OnModify`, from the read of the record to the answer. -/
def body (key value : TioData) : Container.ContainerM (List Answer) :=
  tryCatch
    (do
      match ← read lex key value with
      | .error text => return [.error text]
      | .ok (current, toAdd) => write key current toAdd)
    fun e => return [.error e.what]

/-! ## Sessions side by side -/

/-- How far a command has got. -/
inductive Phase where
  | waiting
  | got (current toAdd : Int32)
  | answered (answers : List Answer)
  deriving DecidableEq, Repr

/-- A `modify` of a session. -/
structure Task where
  key : TioData
  value : TioData
  phase : Phase
  deriving DecidableEq, Repr

/-- Commands of several sessions on one container. -/
structure Sessions where
  container : Container
  tasks : List Task
  deriving DecidableEq

inductive Step where
  | read (i : Nat)
  | write (i : Nat)
  deriving DecidableEq, Repr

/-- The read of the record, after which another session may come in. -/
def readStep (c : Container) (t : Task) : Option (Container × Phase) :=
  match t.phase with
  | .waiting =>
    match (read lex t.key t.value).run c with
    | .ok (.ok (current, toAdd)) c' => some (c', .got current toAdd)
    | .ok (.error text) c' => some (c', .answered [.error text])
    | .throws e c' => some (c', .answered [.error e.what])
    | .undefined => none
  | _ => none

/-- The write of the sum. -/
def writeStep (c : Container) (t : Task) : Option (Container × Phase) :=
  match t.phase with
  | .got current toAdd =>
    match (write t.key current toAdd).run c with
    | .ok answers c' => some (c', .answered answers)
    | .throws e c' => some (c', .answered [.error e.what])
    | .undefined => none
  | _ => none

def advance (s : Sessions) (i : Nat) (f : Container → Task → Option (Container × Phase)) : Option Sessions :=
  s.tasks[i]?.bind fun t =>
    (f s.container t).map fun (c, phase) => ⟨c, s.tasks.set i { t with phase := phase }⟩

def step (s : Sessions) : Step → Option Sessions
  | .read i => advance s i (readStep lex)
  | .write i => advance s i writeStep

/-- The record still holds the number that was read. -/
def Phase.Fresh (pos : Container.Position) (c : Container) : Phase → Prop
  | .got current _ => c.valueAt pos = some (.int current)
  | _ => True

/-- A task that writes finds the record as it read it. -/
def Fresh (pos : Container.Position) (s : Sessions) : Step → Prop
  | .read _ => True
  | .write i => ∀ t ∈ s.tasks[i]?, t.phase.Fresh pos s.container

instance (pos : Container.Position) (c : Container) : DecidablePred (Phase.Fresh pos c)
  | .got _ _ => inferInstanceAs (Decidable (_ = _))
  | .waiting => inferInstanceAs (Decidable True)
  | .answered _ => inferInstanceAs (Decidable True)

instance (pos : Container.Position) (s : Sessions) : DecidablePred (Fresh pos s)
  | .read _ => inferInstanceAs (Decidable True)
  | .write i => inferInstanceAs (Decidable (∀ t ∈ s.tasks[i]?, t.phase.Fresh pos s.container))

/-- The commands before the first step. -/
def start (c : Container) (cmds : List (TioData × TioData)) : Sessions :=
  ⟨c, cmds.map fun cmd => ⟨cmd.1, cmd.2, .waiting⟩⟩

/-! ## What the answered tasks have added -/

/-- What a command with success has added. -/
def Task.credit (t : Task) : Int32 :=
  match t.phase with
  | .answered answers =>
    if answers.any Answer.isError then 0
    else
      match operand lex t.key t.value with
      | .ok toAdd => toAdd
      | .error _ => 0
  | _ => 0

/-- The record holds what it held at first, and what each task with a success has added. -/
structure Counted (pos : Container.Position) (v : Int32) (cmds : List (TioData × TioData))
    (s : Sessions) : Prop where
  cmds : s.tasks.map (fun t => (t.key, t.value)) = cmds
  position : ∀ t ∈ s.tasks, s.container.position t.key = some pos
  got : ∀ t ∈ s.tasks, ∀ current toAdd, t.phase = .got current toAdd → operand lex t.key t.value = .ok toAdd
  value : s.container.valueAt pos = some (.int (v + (s.tasks.map (Task.credit lex)).sum))

variable {lex} {pos : Container.Position} {v : Int32} {cmds : List (TioData × TioData)}

theorem sum_map_set (f : Task → Int32) {l : List Task} {i : Nat} {t : Task} (t' : Task) (hi : l[i]? = some t)
    (h0 : f t = 0) : ((l.set i t').map f).sum = (l.map f).sum + f t' := by
  induction l generalizing i with
  | nil => simp at hi
  | cons a l ih =>
    cases i with
    | zero =>
      obtain rfl : a = t := by simpa using hi
      simp [h0, Int32.add_comm]
    | succ i =>
      simp only [List.set_cons_succ, List.map_cons, List.sum_cons]
      rw [ih (by simpa using hi), Int32.add_assoc]

theorem Counted.advance {s : Sessions} (h : Counted lex pos v cmds s) {i : Nat} {t : Task} {c : Container}
    {phase : Phase} (hi : s.tasks[i]? = some t) (h0 : t.credit lex = 0)
    (hpos : ∀ key, c.position key = s.container.position key)
    (hgot : ∀ current toAdd, phase = .got current toAdd → operand lex t.key t.value = .ok toAdd)
    (hval : c.valueAt pos = some (.int (v + (s.tasks.map (Task.credit lex)).sum +
      Task.credit lex { t with phase := phase }))) :
    Counted lex pos v cmds ⟨c, s.tasks.set i { t with phase := phase }⟩ := by
  have hmem : t ∈ s.tasks := List.mem_of_getElem? hi
  refine ⟨?_, ?_, ?_, ?_⟩
  · rw [← h.cmds, List.map_set]
    obtain ⟨hlt, rfl⟩ := List.getElem?_eq_some_iff.mp hi
    apply List.ext_getElem (by simp)
    intro j hj hj'
    rw [List.getElem_set]
    split_ifs with hij
    · simp [hij]
    · rfl
  · intro t' ht'
    rw [hpos]
    rcases List.mem_or_eq_of_mem_set ht' with ht' | rfl
    · exact h.position t' ht'
    · exact h.position t hmem
  · intro t' ht'
    rcases List.mem_or_eq_of_mem_set ht' with ht' | rfl
    · exact h.got t' ht'
    · exact hgot
  · rw [hval, sum_map_set _ _ hi h0, Int32.add_assoc]

theorem read_reads (key value : TioData) : (read lex key value).Reads := by
  unfold read
  cases operand lex key value with
  | error text => exact Prog.reads_pure _
  | ok toAdd =>
    refine (Container.getRecord_reads key).bind fun r => ?_
    cases r.value <;> exact Prog.reads_pure _

theorem read_toAdd {key value : TioData} {c c' : Container} {current toAdd : Int32}
    (h : (read lex key value).run c = .ok (.ok (current, toAdd)) c') : operand lex key value = .ok toAdd := by
  unfold read at h
  cases ho : operand lex key value with
  | error text => simp [ho] at h
  | ok k =>
    simp only [ho, Prog.run_bind] at h
    cases hr : (Container.getRecord key).run c with
    | ok r c'' =>
      simp only [hr] at h
      cases hv : r.value with
      | int x =>
        simp [hv] at h
        rw [h.1.2]
      | _ => simp [hv] at h
    | throws e c'' => simp [hr] at h
    | undefined => simp [hr] at h

theorem Counted.read {s s' : Sessions} {i : Nat} (h : Counted lex pos v cmds s)
    (hs : step lex s (.read i) = some s') : Counted lex pos v cmds s' := by
  simp only [step, Modify.advance, Option.bind_eq_some_iff, Option.map_eq_some_iff] at hs
  obtain ⟨t, hi, ⟨c, phase⟩, hstep, rfl⟩ := hs
  unfold readStep at hstep
  cases hp : t.phase with
  | waiting =>
    have h0 : t.credit lex = 0 := by simp [Task.credit, hp]
    have hsame (c' : Container) (hn : ((Modify.read lex t.key t.value).run s.container).next = some c') :
        c' = s.container := read_reads _ _ _ _ hn
    simp only [hp] at hstep
    cases hr : (Modify.read lex t.key t.value).run s.container with
    | ok r c' =>
      obtain rfl := hsame c' (by rw [hr]; rfl)
      cases r with
      | ok n =>
        obtain ⟨rfl, rfl⟩ : s.container = c ∧ Phase.got n.1 n.2 = phase := by simpa [hr] using hstep
        refine h.advance hi h0 (fun _ => rfl) ?_ (by simpa [Task.credit] using h.value)
        rintro current toAdd ⟨⟩
        exact read_toAdd hr
      | error text =>
        obtain ⟨rfl, rfl⟩ : s.container = c ∧ Phase.answered [.error text] = phase := by simpa [hr] using hstep
        exact h.advance hi h0 (fun _ => rfl) (fun _ _ hg => nomatch hg)
          (by simpa [Task.credit, Answer.isError] using h.value)
    | throws e c' =>
      obtain rfl := hsame c' (by rw [hr]; rfl)
      obtain ⟨rfl, rfl⟩ : s.container = c ∧ Phase.answered [.error e.what] = phase := by simpa [hr] using hstep
      exact h.advance hi h0 (fun _ => rfl) (fun _ _ hg => nomatch hg)
        (by simpa [Task.credit, Answer.isError] using h.value)
    | undefined => simp [hr] at hstep
  | got current toAdd => simp [hp] at hstep
  | answered answers => simp [hp] at hstep

theorem Counted.write {s s' : Sessions} {i : Nat} (h : Counted lex pos v cmds s)
    (hfresh : Fresh pos s (.write i)) (hs : step lex s (.write i) = some s') : Counted lex pos v cmds s' := by
  simp only [step, Modify.advance, Option.bind_eq_some_iff, Option.map_eq_some_iff] at hs
  obtain ⟨t, hi, ⟨c, phase⟩, hstep, rfl⟩ := hs
  unfold writeStep at hstep
  cases hp : t.phase with
  | got current toAdd =>
    have hmem : t ∈ s.tasks := List.mem_of_getElem? hi
    have h0 : t.credit lex = 0 := by simp [Task.credit, hp]
    have hop := h.got t hmem current toAdd hp
    have hcur : current = v + (s.tasks.map (Task.credit lex)).sum := by
      have hval := hfresh t hi
      rw [hp, Phase.Fresh, h.value] at hval
      simpa using hval.symm
    simp only [hp, Modify.write, Prog.run_bind] at hstep
    cases hr : (Container.set t.key (.int (current + toAdd)) .none).run s.container with
    | ok u c' =>
      obtain ⟨hkeys, p, hpos, hnew⟩ := Container.set_position rfl hr
      obtain rfl : pos = p := Option.some.inj ((h.position t hmem).symm.trans hpos)
      obtain ⟨rfl, rfl⟩ : c' = c ∧
          Phase.answered [.data .none (.int (current + toAdd)) .none, .ok []] = phase := by
        simpa [hr] using hstep
      refine h.advance hi h0 hkeys (fun _ _ hg => nomatch hg) ?_
      rw [hnew, hcur]
      simp [Task.credit, Answer.isError, hop]
    | throws e c' =>
      obtain rfl := Container.set_throws hr
      obtain ⟨rfl, rfl⟩ : s.container = c ∧ Phase.answered [.error e.what] = phase := by simpa [hr] using hstep
      exact h.advance hi h0 (fun _ => rfl) (fun _ _ hg => nomatch hg)
        (by simpa [Task.credit, Answer.isError] using h.value)
    | undefined => simp [hr] at hstep
  | waiting => simp [hp] at hstep
  | answered answers => simp [hp] at hstep

theorem step_counted (s : Sessions) (a : Step) (s' : Sessions) (h : Counted lex pos v cmds s)
    (hfresh : Fresh pos s a) (hs : step lex s a = some s') : Counted lex pos v cmds s' := by
  cases a with
  | read i => exact h.read hs
  | write i => exact h.write hfresh hs

/-! ## Whole runs -/

theorem start_counted (c : Container) (hpos : ∀ cmd ∈ cmds, c.position cmd.1 = some pos)
    (hv : c.valueAt pos = some (.int v)) : Counted lex pos v cmds (start c cmds) := by
  have hzero : ((start c cmds).tasks.map (Task.credit lex)).sum = 0 := by
    clear hpos
    induction cmds with
    | nil => rfl
    | cons cmd cmds ih =>
      have hcredit : Task.credit lex ⟨cmd.1, cmd.2, .waiting⟩ = 0 := rfl
      simp only [start, List.map_cons, List.sum_cons, hcredit, Int32.zero_add] at ih ⊢
      exact ih
  refine ⟨?_, ?_, ?_, ?_⟩
  · simp [start, Function.comp_def]
  · intro t ht
    obtain ⟨cmd, hcmd, rfl⟩ := List.mem_map.mp ht
    exact hpos cmd hcmd
  · intro t ht current toAdd hp
    obtain ⟨cmd, hcmd, rfl⟩ := List.mem_map.mp ht
    cases hp
  · rw [hzero, Int32.add_zero]
    exact hv

/-- In every run whose writes find the number that was read, once every command has its success, the
record holds the sum. -/
theorem modify_sums (lex : LexicalCast) (c : Container) (pos : Container.Position) (v : Int32)
    (cmds : List (TioData × TioData)) (ks : List Int32)
    (hks : cmds.map (fun cmd => operand lex cmd.1 cmd.2) = ks.map .ok)
    (hpos : ∀ cmd ∈ cmds, c.position cmd.1 = some pos) (hv : c.valueAt pos = some (.int v))
    (as : List Step) (s : Sessions) (hfresh : Meets (step lex) (Fresh pos) (start c cmds) as)
    (hrun : run (step lex) (start c cmds) as = some s)
    (hdone : ∀ t ∈ s.tasks, ∃ answers, t.phase = .answered answers ∧ answers.any Answer.isError = false) :
    s.container.valueAt pos = some (.int (v + ks.sum)) := by
  have h : Counted lex pos v cmds s := run_keeps step_counted (start_counted c hpos hv) hfresh hrun
  have hcredit : s.tasks.map (Task.credit lex) = ks := by
    let num (x : Except Bytes Int32) : Int32 := x.toOption.getD 0
    calc s.tasks.map (Task.credit lex)
        = (s.tasks.map fun t => operand lex t.key t.value).map num := by
          rw [List.map_map]
          apply List.map_congr_left
          intro t ht
          obtain ⟨answers, hp, hok⟩ := hdone t ht
          simp only [Task.credit, hp, hok, Function.comp_apply, num]
          cases operand lex t.key t.value <;> rfl
      _ = (cmds.map fun cmd => operand lex cmd.1 cmd.2).map num := by
          rw [← h.cmds]
          simp only [List.map_map]
          rfl
      _ = ks := by
          rw [hks, List.map_map]
          exact List.map_id ks
  rw [h.value, hcredit]

def oneNumber (n : Int32) : Container :=
  ⟨.list { ListStorage.new (ascii "l") (ascii "volatile_list") with data := [⟨.int n, .none⟩] }, ∅⟩

def plus (k : String) : TioData × TioData := (.int 0, .string (ascii ("+" ++ k)))

theorem modify_sums_in_turn :
    ∃ s, run (step .digits) (start (oneNumber 5) [plus "1", plus "2"]) [.read 0, .write 0, .read 1, .write 1] =
        some s ∧ s.container.valueAt (.index 0) = some (.int (5 + [1, 2].sum)) := by
  generalize hr : run (step .digits) _ _ = r
  have hview : r.map Sessions.tasks =
      some [⟨.int 0, .string (ascii "+1"), .answered [.data .none (.int 6) .none, .ok []]⟩,
        ⟨.int 0, .string (ascii "+2"), .answered [.data .none (.int 8) .none, .ok []]⟩] := by
    rw [← hr]
    decide
  obtain ⟨s, rfl, hs⟩ := Option.map_eq_some_iff.mp hview
  refine ⟨s, rfl, modify_sums .digits (oneNumber 5) (.index 0) 5 _ [1, 2] ?_ ?_ ?_ _ s ?_ hr ?_⟩
  · decide
  · decide
  · decide
  · decide
  · simp [hs, Answer.isError]

/-- Two commands that read before either writes: one increment is lost, and both have their success. -/
theorem modify_lost_update :
    (run (step .digits) (start (oneNumber 5) [plus "1", plus "2"]) [.read 0, .read 1, .write 0, .write 1]).map
        (fun s => (s.tasks.map (fun t => t.phase), s.container.valueAt (.index 0))) =
      some ([.answered [.data .none (.int 6) .none, .ok []], .answered [.data .none (.int 7) .none, .ok []]],
        some (.int 7)) := by
  decide

end Modify

end Tiodb
