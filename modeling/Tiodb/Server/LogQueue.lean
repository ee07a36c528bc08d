import Tiodb.Data
import Tiodb.Lib.Circular
import Tiodb.Lib.Machine

/-!
# The queue of the log writer

`RawLog` and `WriteRawLogThread` of `BinaryProtocolLogger.h`. The producers are behind
a lock and the consumer is not: it may go on between any two statements of `RawLog`,
and sees the head before it is wrapped. A step is one statement.
-/

namespace Tiodb

open Lib

/-- The next statement of the producer that has the lock. -/
inductive RawLog where
  | outside
  | assign (what : Bytes)
  | fullTest
  | increment
  | wrap
  deriving DecidableEq, Repr

/-- What the producer has not stored. -/
def RawLog.waiting : RawLog → Bytes
  | .assign what => what
  | _ => []

/-- The next statement stores the line. -/
def RawLog.stores : RawLog → Bool
  | .assign _ => true
  | _ => false

/-- The next statement of `WriteRawLogThread`. -/
inductive WriteRawLog where
  | compare
  | write
  | clear
  | increment
  | wrap
  deriving DecidableEq, Repr

/-- `lines` has what was given to `RawLog`, in the order of the lock. -/
structure LogQueue where
  rawLogQueue : Nat → Bytes := fun _ => []
  logQueueHead : Nat := 0
  logQueueTail : Nat := 0
  producer : RawLog := .outside
  consumer : WriteRawLog := .compare
  file : Bytes := []
  lines : List Bytes := []

namespace LogQueue

/- `RAW_LOG_QUEUE_SIZE` -/
variable (n : Nat)

/-- `IsLogQueueFull` -/
def isLogQueueFull (s : LogQueue) : Bool := (n - s.logQueueTail + s.logQueueHead) % n = n - 1

/-- The next statement of `RawLog`. -/
def rawLog (s : LogQueue) : Option LogQueue :=
  match s.producer with
  | .outside => none
  | .assign what =>
    some { s with rawLogQueue := Function.update s.rawLogQueue s.logQueueHead what, producer := .fullTest }
  -- it sleeps, and tests again
  | .fullTest => some (if s.isLogQueueFull n then s else { s with producer := .increment })
  | .increment => some { s with logQueueHead := s.logQueueHead + 1, producer := .wrap }
  | .wrap => some { s with logQueueHead := if n ≤ s.logQueueHead then 0 else s.logQueueHead, producer := .outside }

/-- The next statement of `WriteRawLogThread`. -/
def writeRawLogThread (s : LogQueue) : LogQueue :=
  match s.consumer with
  -- it flushes and sleeps, and compares again
  | .compare => if s.logQueueTail ≠ s.logQueueHead then { s with consumer := .write } else s
  | .write => { s with file := s.file ++ s.rawLogQueue s.logQueueTail, consumer := .clear }
  | .clear => { s with rawLogQueue := Function.update s.rawLogQueue s.logQueueTail [], consumer := .increment }
  | .increment => { s with logQueueTail := s.logQueueTail + 1, consumer := .wrap }
  | .wrap => { s with logQueueTail := if n ≤ s.logQueueTail then 0 else s.logQueueTail, consumer := .compare }

/-- A producer gets the lock, or one of the two sides runs its next statement. -/
inductive Step where
  | lock (what : Bytes)
  | produce
  | consume
  deriving DecidableEq, Repr

/-- A statement of one of the two threads, or the next call of `RawLog`. -/
def step (s : LogQueue) : Step → Option LogQueue
  | .lock what =>
    if s.producer = .outside then some { s with producer := .assign what, lines := s.lines ++ [what] } else none
  | .produce => s.rawLog n
  | .consume => some (s.writeRawLogThread n)

/-- The slot that the consumer has written is not stored into before it is cleared, and a line that is in it after
that is not counted before the tail has moved on. -/
def Undisturbed (s : LogQueue) : Step → Prop
  | .produce =>
    s.logQueueHead = s.logQueueTail →
      (s.consumer = .clear → s.producer.stores = false) ∧
        (s.consumer = .increment → s.producer = .fullTest → s.rawLogQueue s.logQueueHead = [])
  | _ => True

instance (s : LogQueue) : DecidablePred (Undisturbed s)
  | .produce => inferInstanceAs (Decidable (_ → _ ∧ _))
  | .lock _ | .consume => isTrue trivial

/-! ## What is in the queue -/

def tailPlace (s : LogQueue) : Nat := place n s.logQueueTail

def headPlace (s : LogQueue) : Nat := place n s.logQueueHead

/-- How many slots are between the two ends. -/
def count (s : LogQueue) : Nat := distance n (s.tailPlace n) (s.headPlace n)

/-- The slots from the tail on. -/
def cell (s : LogQueue) (k : Nat) : Bytes := s.rawLogQueue (place n (s.tailPlace n + k))

/-- What the consumer has not written. -/
def pending (s : LogQueue) : Bytes :=
  if s.consumer = .clear then behind n s.rawLogQueue (s.tailPlace n) else around n s.rawLogQueue (s.tailPlace n)

/-- The lines are in the file or in the slots, in order, and no slot that is not counted has one, but for the one that
the producer has stored. -/
structure InOrder (s : LogQueue) : Prop where
  head_le : s.logQueueHead ≤ n
  head_lt : s.producer ≠ .wrap → s.logQueueHead < n
  tail_le : s.logQueueTail ≤ n
  tail_lt : s.consumer ≠ .wrap → s.logQueueTail < n
  empty : ∀ k, s.count n ≤ k → k < n →
    s.cell n k = [] ∨ k = s.count n ∧ (s.producer = .fullTest ∨ s.producer = .increment)
  cleared : s.consumer = .increment → s.cell n 0 = [] ∨ s.count n = 0 ∧ s.producer = .fullTest
  room : s.producer = .increment → s.count n = n - 1 → ∀ k < n, s.cell n k = []
  lines : s.file ++ s.pending n ++ s.producer.waiting = s.lines.flatten

variable {n} {s : LogQueue}

theorem InOrder.tailPlace_lt (hn : 2 ≤ n) (h : s.InOrder n) : s.tailPlace n < n := by
  have hle := h.tail_le
  unfold tailPlace place
  split_ifs <;> omega

theorem InOrder.headPlace_lt (hn : 2 ≤ n) (h : s.InOrder n) : s.headPlace n < n := by
  have hle := h.head_le
  unfold headPlace place
  split_ifs <;> omega

theorem start_inOrder (hn : 2 ≤ n) : ({} : LogQueue).InOrder n := by
  refine ⟨Nat.zero_le n, fun _ => ?_, Nat.zero_le n, fun _ => ?_, fun k _ _ => .inl rfl, nofun, nofun, ?_⟩
  · exact Nat.lt_of_lt_of_le Nat.zero_lt_two hn
  · exact Nat.lt_of_lt_of_le Nat.zero_lt_two hn
  · simp [pending, around, RawLog.waiting]

/-! ## The statements of `RawLog` -/

theorem InOrder.lock (h : s.InOrder n) (hp : s.producer = .outside) (what : Bytes) :
    InOrder n { s with producer := .assign what, lines := s.lines ++ [what] } := by
  refine ⟨h.head_le, fun _ => h.head_lt (by simp [hp]), h.tail_le, h.tail_lt, ?_, ?_, nofun, ?_⟩
  · intro k hlow hk
    exact .inl ((h.empty k hlow hk).resolve_right (by simp [hp]))
  · intro hc
    exact .inl ((h.cleared hc).resolve_right (by simp [hp]))
  · have hlines := h.lines
    rw [hp] at hlines
    change s.file ++ s.pending n ++ what = (s.lines ++ [what]).flatten
    rw [List.flatten_append, ← hlines]
    simp [RawLog.waiting]

/-- The line that is stored comes last, unless its slot is the one that was written and is to be cleared. -/
theorem InOrder.pending_assign (hn : 2 ≤ n) (h : s.InOrder n) {what : Bytes} (hp : s.producer = .assign what)
    (hok : s.consumer = .clear → s.logQueueHead ≠ s.logQueueTail) :
    pending n { s with rawLogQueue := Function.update s.rawLogQueue s.logQueueHead what, producer := .fullTest } =
      s.pending n ++ what := by
  have ht := h.tailPlace_lt hn
  have hhead : s.logQueueHead < n := h.head_lt (by simp [hp])
  have hplace : s.headPlace n = s.logQueueHead := place_of_lt hhead
  have hempty : ∀ k, distance n (s.tailPlace n) s.logQueueHead ≤ k → k < n →
      s.rawLogQueue (place n (s.tailPlace n + k)) = [] := by
    intro k hlow hk
    rw [← hplace] at hlow
    exact (h.empty k hlow hk).resolve_right (by simp [hp])
  have haround := around_update ht hhead hempty what
  unfold pending
  change (if s.consumer = .clear then behind n _ (s.tailPlace n) else around n _ (s.tailPlace n)) = _
  split_ifs with hc
  · have htail : s.tailPlace n = s.logQueueTail := place_of_lt (h.tail_lt (by simp [hc]))
    have hne : s.tailPlace n ≠ s.logQueueHead := fun heq => hok hc (heq ▸ htail).symm.symm
    rw [around_eq ht, around_eq ht, Function.update_of_ne hne, List.append_assoc] at haround
    exact List.append_cancel_left haround
  · exact haround

theorem InOrder.assign (hn : 2 ≤ n) (h : s.InOrder n) {what : Bytes} (hp : s.producer = .assign what)
    (hok : s.consumer = .clear → s.logQueueHead ≠ s.logQueueTail) :
    InOrder n
      { s with rawLogQueue := Function.update s.rawLogQueue s.logQueueHead what, producer := .fullTest } := by
  have ht := h.tailPlace_lt hn
  have hhead : s.logQueueHead < n := h.head_lt (by simp [hp])
  have hplace : s.headPlace n = s.logQueueHead := place_of_lt hhead
  have hcount : place n (s.tailPlace n + s.count n) = s.logQueueHead := by
    rw [← hplace]
    exact place_distance ht (h.headPlace_lt hn)
  have hother {k : Nat} (hk : k < n) (hne : k ≠ s.count n) :
      Function.update s.rawLogQueue s.logQueueHead what (place n (s.tailPlace n + k)) = s.cell n k := by
    refine Function.update_of_ne (fun heq => hne ?_) _ _
    exact place_inj hk (distance_lt ht (h.headPlace_lt hn)) (heq.trans hcount.symm)
  refine ⟨h.head_le, fun _ => hhead, h.tail_le, h.tail_lt, ?_, ?_, nofun, ?_⟩
  · intro k hlow hk
    by_cases hne : k = s.count n
    · exact .inr ⟨hne, .inl rfl⟩
    · exact .inl ((hother hk hne).trans ((h.empty k hlow hk).resolve_right (by simp [hp])))
  · intro hc
    by_cases hzero : 0 = s.count n
    · exact .inr ⟨hzero.symm, rfl⟩
    · exact .inl ((hother (by omega) hzero).trans ((h.cleared hc).resolve_right (by simp [hp])))
  · have hlines := h.lines
    rw [hp] at hlines
    rw [h.pending_assign hn hp hok, ← List.append_assoc]
    simpa [RawLog.waiting] using hlines

theorem InOrder.fullTest (h : s.InOrder n) (hp : s.producer = .fullTest) (hroom : s.isLogQueueFull n = false)
    (hok : s.logQueueHead = s.logQueueTail → s.consumer = .increment → s.rawLogQueue s.logQueueHead = []) :
    InOrder n { s with producer := .increment } := by
  have hhead : s.logQueueHead < n := h.head_lt (by simp [hp])
  have hplace : s.headPlace n = s.logQueueHead := place_of_lt hhead
  have hcount : s.count n ≠ n - 1 := by
    have hmod := mod_eq_distance h.tail_le hhead
    simp only [isLogQueueFull, decide_eq_false_iff_not, hmod] at hroom
    rwa [count, hplace]
  refine ⟨h.head_le, fun _ => hhead, h.tail_le, h.tail_lt, ?_, ?_, fun _ hfull => absurd hfull hcount, ?_⟩
  · intro k hlow hk
    exact (h.empty k hlow hk).imp_right fun hk => ⟨hk.1, .inr rfl⟩
  · intro (hc : s.consumer = .increment)
    refine .inl ?_
    change s.cell n 0 = []
    rcases h.cleared hc with hnil | ⟨hzero, -⟩
    · exact hnil
    · have ht := h.tail_lt (by simp [hc])
      have htail : s.tailPlace n = s.logQueueTail := place_of_lt ht
      have heq : s.logQueueHead = s.logQueueTail := by
        have := (distance_eq_zero (htail ▸ ht)).mp hzero
        rwa [htail, hplace] at this
      have hcell : s.cell n 0 = s.rawLogQueue s.logQueueTail := by
        rw [cell, htail, Nat.add_zero, place_of_lt ht]
      rw [hcell, ← heq]
      exact hok heq hc
  · have hlines := h.lines
    rw [hp] at hlines
    exact hlines

theorem InOrder.moveHead (hn : 2 ≤ n) (h : s.InOrder n) (hp : s.producer = .increment) :
    InOrder n { s with logQueueHead := s.logQueueHead + 1, producer := .wrap } := by
  have hhead : s.logQueueHead < n := h.head_lt (by simp [hp])
  have hplace : s.headPlace n = s.logQueueHead := place_of_lt hhead
  have hcount : count n { s with logQueueHead := s.logQueueHead + 1, producer := .wrap } =
      if s.count n = n - 1 then 0 else s.count n + 1 := by
    change distance n (s.tailPlace n) (place n (s.logQueueHead + 1)) = _
    rw [← hplace]
    exact distance_next_head (h.tailPlace_lt hn) (h.headPlace_lt hn)
  refine ⟨hhead, nofun, h.tail_le, h.tail_lt, ?_, ?_, nofun, ?_⟩
  · intro k hlow hk
    rw [hcount] at hlow
    refine .inl ?_
    split_ifs at hlow with hfull
    · exact h.room hp hfull k hk
    · exact (h.empty k (by omega) hk).resolve_right (by omega)
  · intro hc
    exact .inl ((h.cleared hc).resolve_right (by simp [hp]))
  · have hlines := h.lines
    rw [hp] at hlines
    exact hlines

theorem InOrder.wrapHead (hn : 2 ≤ n) (h : s.InOrder n) (hp : s.producer = .wrap) :
    InOrder n { s with
      logQueueHead := if n ≤ s.logQueueHead then 0 else s.logQueueHead, producer := .outside } := by
  have hle := h.head_le
  have hplace : place n (if n ≤ s.logQueueHead then 0 else s.logQueueHead) = s.headPlace n := by
    unfold headPlace place
    split_ifs <;> omega
  have hcount : count n { s with
      logQueueHead := if n ≤ s.logQueueHead then 0 else s.logQueueHead, producer := .outside } = s.count n :=
    congrArg (distance n (s.tailPlace n)) hplace
  refine ⟨?_, fun _ => ?_, h.tail_le, h.tail_lt, ?_, ?_, nofun, ?_⟩
  · dsimp only
    split_ifs <;> omega
  · dsimp only
    split_ifs <;> omega
  · intro k hlow hk
    rw [hcount] at hlow
    exact .inl ((h.empty k hlow hk).resolve_right (by simp [hp]))
  · intro hc
    exact .inl ((h.cleared hc).resolve_right (by simp [hp]))
  · have hlines := h.lines
    rw [hp] at hlines
    exact hlines

/-! ## The statements of `WriteRawLogThread` -/

theorem InOrder.write (hn : 2 ≤ n) (h : s.InOrder n) (hc : s.consumer = .write) :
    InOrder n { s with file := s.file ++ s.rawLogQueue s.logQueueTail, consumer := .clear } := by
  have htail : s.tailPlace n = s.logQueueTail := place_of_lt (h.tail_lt (by simp [hc]))
  refine ⟨h.head_le, h.head_lt, h.tail_le, fun _ => h.tail_lt (by simp [hc]), h.empty, nofun, h.room, ?_⟩
  have hlines := h.lines
  rw [pending, if_neg (by simp [hc]), around_eq (h.tailPlace_lt hn), htail] at hlines
  change s.file ++ s.rawLogQueue s.logQueueTail ++ behind n s.rawLogQueue (s.tailPlace n) ++ _ = _
  rw [← hlines, htail]
  simp

theorem InOrder.clear (hn : 2 ≤ n) (h : s.InOrder n) (hc : s.consumer = .clear) :
    InOrder n { s with
      rawLogQueue := Function.update s.rawLogQueue s.logQueueTail [], consumer := .increment } := by
  have ht := h.tailPlace_lt hn
  have htail : s.tailPlace n = s.logQueueTail := place_of_lt (h.tail_lt (by simp [hc]))
  have hcell {k : Nat} (hnil : s.cell n k = []) :
      Function.update s.rawLogQueue s.logQueueTail [] (place n (s.tailPlace n + k)) = [] := by
    rw [Function.update_apply]
    split_ifs
    · rfl
    · exact hnil
  refine ⟨h.head_le, h.head_lt, h.tail_le, fun _ => h.tail_lt (by simp [hc]), ?_, ?_, ?_, ?_⟩
  · exact fun k hlow hk => (h.empty k hlow hk).imp_left hcell
  · intro _
    refine .inl ?_
    change Function.update s.rawLogQueue s.logQueueTail [] (place n (s.tailPlace n + 0)) = []
    rw [Nat.add_zero, place_of_lt ht, htail, Function.update_self]
  · exact fun hp hfull k hk => hcell (h.room hp hfull k hk)
  · have hlines := h.lines
    rw [pending, if_pos hc, htail] at hlines
    have haround : around n (Function.update s.rawLogQueue s.logQueueTail []) s.logQueueTail =
        behind n s.rawLogQueue s.logQueueTail := by
      rw [htail] at ht
      rw [around_eq ht, Function.update_self, behind_update_self ht, List.nil_append]
    change s.file ++ around n (Function.update s.rawLogQueue s.logQueueTail []) (s.tailPlace n) ++ _ = _
    rw [htail, haround]
    exact hlines

/-- Seen from the next place, the cells are the same but for the first, which comes last. -/
theorem InOrder.cell_next (hn : 2 ≤ n) (h : s.InOrder n) (hc : s.consumer = .increment) {k : Nat} (hk : k < n) :
    cell n { s with logQueueTail := s.logQueueTail + 1, consumer := .wrap } k =
      if k = n - 1 then s.cell n 0 else s.cell n (k + 1) := by
  have ht := h.tailPlace_lt hn
  have htail : s.tailPlace n = s.logQueueTail := place_of_lt (h.tail_lt (by simp [hc]))
  change s.rawLogQueue (place n (place n (s.logQueueTail + 1) + k)) = _
  rw [← htail]
  split_ifs with hlast
  · rw [hlast, place_round ht, cell, Nat.add_zero, place_of_lt ht]
  · rw [place_next ht (by omega)]
    rfl

theorem InOrder.moveTail (hn : 2 ≤ n) (h : s.InOrder n) (hc : s.consumer = .increment) :
    InOrder n { s with logQueueTail := s.logQueueTail + 1, consumer := .wrap } := by
  have ht := h.tailPlace_lt hn
  have htail : s.tailPlace n = s.logQueueTail := place_of_lt (h.tail_lt (by simp [hc]))
  have hcount : count n { s with logQueueTail := s.logQueueTail + 1, consumer := .wrap } =
      if s.count n = 0 then n - 1 else s.count n - 1 := by
    change distance n (place n (s.logQueueTail + 1)) (s.headPlace n) = _
    rw [← htail]
    exact distance_next_tail ht (h.headPlace_lt hn)
  have hlow := distance_lt ht (h.headPlace_lt hn)
  have hfirst : s.cell n 0 = s.rawLogQueue (s.tailPlace n) := by
    rw [cell, Nat.add_zero, place_of_lt ht]
  refine ⟨h.head_le, h.head_lt, htail ▸ ht, nofun, ?_, nofun, ?_, ?_⟩
  · intro k hle hk
    rw [h.cell_next hn hc hk]
    rw [hcount] at hle ⊢
    by_cases hlast : k = n - 1
    · rw [if_pos hlast]
      exact (h.cleared hc).imp_right fun hcleared => ⟨by rw [if_pos hcleared.1, hlast], .inl hcleared.2⟩
    · have hne : s.count n ≠ 0 := by
        intro hzero
        rw [if_pos hzero] at hle
        omega
      rw [if_neg hne] at hle ⊢
      rw [if_neg hlast]
      exact (h.empty (k + 1) (by omega) (by omega)).imp_right fun hnext => ⟨by omega, hnext.2⟩
  · intro (hp : s.producer = .increment) hfull k hk
    rw [hcount] at hfull
    rw [h.cell_next hn hc hk]
    have hzero : s.count n = 0 := by
      unfold count
      unfold count at hfull
      split_ifs at hfull <;> omega
    split_ifs
    · exact (h.cleared hc).resolve_right fun hcleared => by simp [hp] at hcleared
    · exact (h.empty (k + 1) (by omega) (by omega)).resolve_right (by omega)
  · have hlines := h.lines
    rw [pending, if_neg (by simp [hc]), around_eq ht, ← hfirst] at hlines
    -- the cell that is passed is empty, or there is nothing behind it
    have hturn : behind n s.rawLogQueue (s.tailPlace n) ++ s.cell n 0 =
        s.cell n 0 ++ behind n s.rawLogQueue (s.tailPlace n) := by
      rcases h.cleared hc with hnil | ⟨hzero, -⟩
      · simp [hnil]
      · have hbehind : behind n s.rawLogQueue (s.tailPlace n) = [] := by
          refine List.flatMap_eq_nil_iff.mpr fun k hk => ?_
          have hlt := List.mem_range.mp hk
          exact (h.empty (k + 1) (by omega) (by omega)).resolve_right (by omega)
        simp [hbehind]
    change s.file ++ around n s.rawLogQueue (place n (s.logQueueTail + 1)) ++ _ = _
    rw [← htail, around_next ht, ← hfirst, hturn]
    exact hlines

theorem InOrder.wrapTail (hn : 2 ≤ n) (h : s.InOrder n) (hc : s.consumer = .wrap) :
    InOrder n { s with
      logQueueTail := if n ≤ s.logQueueTail then 0 else s.logQueueTail, consumer := .compare } := by
  have hle := h.tail_le
  have hplace : place n (if n ≤ s.logQueueTail then 0 else s.logQueueTail) = s.tailPlace n := by
    unfold tailPlace place
    split_ifs <;> omega
  have hcell (k : Nat) : cell n { s with
      logQueueTail := if n ≤ s.logQueueTail then 0 else s.logQueueTail, consumer := .compare } k = s.cell n k :=
    congrArg (fun t => s.rawLogQueue (place n (t + k))) hplace
  have hcount : count n { s with
      logQueueTail := if n ≤ s.logQueueTail then 0 else s.logQueueTail, consumer := .compare } = s.count n :=
    congrArg (distance n · (s.headPlace n)) hplace
  refine ⟨h.head_le, h.head_lt, ?_, fun _ => ?_, ?_, nofun, ?_, ?_⟩
  · dsimp only
    split_ifs <;> omega
  · dsimp only
    split_ifs <;> omega
  · intro k hlow hk
    rw [hcount] at hlow ⊢
    rw [hcell]
    exact h.empty k hlow hk
  · intro hp hfull k hk
    rw [hcount] at hfull
    rw [hcell]
    exact h.room hp hfull k hk
  · have hlines := h.lines
    rw [pending, if_neg (by simp [hc])] at hlines
    change s.file ++ around n s.rawLogQueue (place n (if n ≤ s.logQueueTail then 0 else s.logQueueTail)) ++ _ = _
    rw [hplace]
    exact hlines

/-! ## A run -/

theorem step_inOrder (hn : 2 ≤ n) {a : Step} {s' : LogQueue} (h : s.InOrder n) (hok : s.Undisturbed a)
    (hs : s.step n a = some s') : s'.InOrder n := by
  cases a with
  | lock what =>
    simp only [step, Option.ite_none_right_eq_some, Option.some.injEq] at hs
    obtain ⟨hp, rfl⟩ := hs
    exact h.lock hp what
  | produce =>
    simp only [step, rawLog] at hs
    cases hp : s.producer with
    | outside =>
      rw [hp] at hs
      cases hs
    | assign what =>
      rw [hp] at hs
      obtain rfl := Option.some.inj hs
      refine h.assign hn hp fun hc heq => ?_
      have hfree := (hok heq).1 hc
      rw [hp] at hfree
      cases hfree
    | fullTest =>
      rw [hp] at hs
      obtain rfl := Option.some.inj hs
      split_ifs with hfull
      · exact h
      · exact h.fullTest hp (by simpa using hfull) fun heq hc => (hok heq).2 hc hp
    | increment =>
      rw [hp] at hs
      obtain rfl := Option.some.inj hs
      exact h.moveHead hn hp
    | wrap =>
      rw [hp] at hs
      obtain rfl := Option.some.inj hs
      exact h.wrapHead hn hp
  | consume =>
    obtain rfl := Option.some.inj hs
    unfold writeRawLogThread
    cases hc : s.consumer with
    | compare =>
      dsimp only
      split_ifs
      · refine ⟨h.head_le, h.head_lt, h.tail_le, fun _ => h.tail_lt (by simp [hc]), h.empty, nofun, h.room, ?_⟩
        have hlines := h.lines
        rw [pending, if_neg (by simp [hc])] at hlines
        exact hlines
      · exact h
    | write => exact h.write hn hc
    | clear => exact h.clear hn hc
    | increment => exact h.moveTail hn hc
    | wrap => exact h.wrapTail hn hc

/-- What the file has is always a beginning of the lines, and it is all of them where nothing is under way. -/
theorem file_has_lines (hn : 2 ≤ n) {as : List Step} (hm : Meets (step n) Undisturbed {} as)
    (hr : run (step n) {} as = some s) :
    s.file <+: s.lines.flatten ∧
      (s.producer = .outside → s.consumer = .compare → s.logQueueTail = s.logQueueHead →
        s.file = s.lines.flatten) := by
  have h : s.InOrder n := run_keeps (fun _ _ _ => step_inOrder hn) (start_inOrder hn) hm hr
  have hlines := h.lines
  refine ⟨⟨s.pending n ++ s.producer.waiting, by rw [← List.append_assoc, hlines]⟩, fun hp hc heq => ?_⟩
  have ht := h.tailPlace_lt hn
  have htail : s.tailPlace n = s.logQueueTail := place_of_lt (h.tail_lt (by simp [hc]))
  have hhead : s.headPlace n = s.logQueueHead := place_of_lt (h.head_lt (by simp [hp]))
  have hzero : s.count n = 0 := (distance_eq_zero ht).mpr (by rw [hhead, htail, heq])
  have hpending : s.pending n = [] := by
    rw [pending, if_neg (by simp [hc])]
    refine List.flatMap_eq_nil_iff.mpr fun k hk => ?_
    exact (h.empty k (by omega) (List.mem_range.mp hk)).resolve_right (by simp [hp])
  rw [← hlines, hpending, hp]
  simp [RawLog.waiting]

def produces (k : Nat) : List Step := List.replicate k .produce

def consumes (k : Nat) : List Step := List.replicate k .consume

/-- Two lines around the end of two slots, the second stored while the first is written. -/
def twoLines : List Step :=
  .lock (ascii "a") :: produces 4 ++ consumes 2 ++ .lock (ascii "b") :: produces 1 ++ consumes 3 ++ produces 3 ++
    consumes 5

theorem file_has_two_lines :
    ∃ s, run (step 2) {} twoLines = some s ∧ s.file <+: s.lines.flatten ∧
      (s.producer = .outside → s.consumer = .compare → s.logQueueTail = s.logQueueHead → s.file = s.lines.flatten) :=
  ⟨_, rfl, @file_has_lines 2 _ (by decide) twoLines (by decide) rfl⟩

/-- The consumer sees the head past the end of the slots, and so goes into an empty queue; the third line is stored
into the slot that it then clears. -/
def disturbed : List Step :=
  .lock (ascii "a") :: produces 4 ++ consumes 5 ++ .lock (ascii "b") :: produces 3 ++ consumes 6 ++ produces 1 ++
    consumes 1 ++ .lock (ascii "c") :: produces 1 ++ consumes 3 ++ produces 1 ++ consumes 5 ++ produces 3 ++ consumes 6

theorem third_line_is_lost :
    ∃ s, run (step 2) {} disturbed = some s ∧ s.lines = [ascii "a", ascii "b", ascii "c"] ∧ s.producer = .outside ∧
      s.consumer = .compare ∧ s.logQueueTail = s.logQueueHead ∧ s.file = ascii "ab" ∧ s.file ≠ s.lines.flatten :=
  ⟨_, rfl, rfl, rfl, rfl, rfl, rfl, by decide⟩

end LogQueue

end Tiodb
