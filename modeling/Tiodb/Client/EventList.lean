import Tiodb.Client.NetworkBatch

/-!
# The list of pending events

`events_list_push`, `event_list_is_empty` and `events_list_pop` of `tioclient.c`, over a
heap of nodes. The address of a new node is any that is not in use, also one that was
freed before, and an access to a node that is not there is `none`.
-/

namespace Tiodb.Client

open Lib

variable {μ : Type}

/-- `heap` has the nodes that are allocated, and a pointer is `none` for `NULL`. `returned` is history. -/
structure EventList (μ : Type) where
  heap : Nat → Option (Node μ) := fun _ => none
  eventListQueueEnd : Option Nat := none
  pendingEventCount : Int32 := 0
  returned : List (Option μ) := []

namespace EventList

/-- `node` is what `malloc` gives. -/
def eventsListPush (c : EventList μ) (node : Nat) (message : μ) : Option (EventList μ) :=
  match c.eventListQueueEnd with
  | none => some { c with
      heap := Function.update c.heap node (some ⟨node, message⟩)
      eventListQueueEnd := some node
      pendingEventCount := c.pendingEventCount + 1 }
  | some queueEnd => (c.heap queueEnd).map fun last => { c with
      heap := Function.update (Function.update c.heap node (some ⟨last.next, message⟩)) queueEnd
        (some { last with next := node })
      eventListQueueEnd := some node
      pendingEventCount := c.pendingEventCount + 1 }

def eventListIsEmpty (c : EventList μ) : Bool := c.eventListQueueEnd.isNone

def eventsListPop (c : EventList μ) : Option (Option μ × EventList μ) :=
  match c.eventListQueueEnd with
  | none => some (none, c)
  | some queueEnd => do
    let last ← c.heap queueEnd
    let first ← c.heap last.next
    let c' :=
      if last.next = queueEnd then { c with eventListQueueEnd := none }
      else { c with heap := Function.update c.heap queueEnd (some { last with next := first.next }) }
    some (some first.item, { c' with
      heap := Function.update c'.heap last.next none
      pendingEventCount := c'.pendingEventCount - 1 })

inductive Call (μ : Type) where
  | push (node : Nat) (message : μ)
  | pop
  deriving DecidableEq

def step (c : EventList μ) : Call μ → Option (EventList μ)
  | .push node message => c.eventsListPush node message
  | .pop => c.eventsListPop.map fun (message, c) => { c with returned := c.returned ++ [message] }

/-- `malloc` gives memory that is not in use. -/
def Fresh (c : EventList μ) : Call μ → Prop
  | .push node _ => c.heap node = none
  | .pop => True

/-- A queue of messages, and what was taken from it. -/
structure Fifo (μ : Type) where
  queue : List (Nat × μ) := []
  returned : List (Option μ) := []

def Fifo.step (q : Fifo μ) : Call μ → Fifo μ
  | .push node message => { q with queue := q.queue ++ [(node, message)] }
  | .pop => ⟨q.queue.tail, q.returned ++ [q.queue.head?.map Prod.snd]⟩

def Fifo.run (q : Fifo μ) (calls : List (Call μ)) : Fifo μ := calls.foldl Fifo.step q

def pushed : List (Call μ) → List μ
  | [] => []
  | .push _ message :: calls => message :: pushed calls
  | .pop :: calls => pushed calls

/-- The list is the queue: the pointer is to the node that was pushed last, the nodes are a cycle that begins
with the oldest, and no other node is allocated. -/
structure Holds (c : EventList μ) (q : Fifo μ) (count : Int32) : Prop where
  cycle : Lib.Ring.Cycle c.heap c.eventListQueueEnd q.queue
  allocated : ∀ a, (c.heap a).isSome ↔ a ∈ q.queue.map Prod.fst
  count : c.pendingEventCount = count + Int32.ofNat q.queue.length
  returned : c.returned = q.returned

variable {c : EventList μ} {q : Fifo μ} {count : Int32}

theorem isSome_update_some {heap : Nat → Option (Node μ)} {a b : Nat} {node : Node μ} :
    (Function.update heap a (some node) b).isSome ↔ b = a ∨ (heap b).isSome := by
  rw [Function.update_apply]
  split <;> simp_all

theorem isSome_update_none {heap : Nat → Option (Node μ)} {a b : Nat} :
    (Function.update heap a none b).isSome ↔ b ≠ a ∧ (heap b).isSome := by
  rw [Function.update_apply]
  split <;> simp_all

theorem Holds.isEmpty_iff (h : c.Holds q count) : c.eventListIsEmpty ↔ q.queue = [] := by
  unfold eventListIsEmpty
  rw [h.cycle.last]
  simp

theorem Holds.push (h : c.Holds q count) {node : Nat} (hnode : c.heap node = none) (message : μ) :
    ∃ c', c.eventsListPush node message = some c' ∧ c'.Holds (q.step (.push node message)) count := by
  have hnew : node ∉ q.queue.map Prod.fst := by
    rw [← h.allocated, hnode]
    simp
  have hcount : c.pendingEventCount + 1 = count + Int32.ofNat (q.queue ++ [(node, message)]).length := by
    rw [h.count, List.length_append, List.length_singleton, Int32.ofNat_add, Int32.add_assoc]
    rfl
  have hallocated : ∀ a, a = node ∨ (c.heap a).isSome ↔ a ∈ (q.queue ++ [(node, message)]).map Prod.fst := by
    intro a
    rw [h.allocated, List.map_append, List.mem_append, or_comm]
    simp
  unfold eventsListPush Fifo.step
  cases hqueue : q.queue using List.reverseRecOn with
  | nil =>
    rw [h.cycle.last, hqueue]
    rw [hqueue] at hcount hallocated
    refine ⟨_, rfl, Lib.Ring.cycle_single .., fun a => ?_, hcount, h.returned⟩
    exact isSome_update_some.trans (hallocated a)
  | append_singleton cells last =>
    obtain ⟨l, m⟩ := last
    have hcycle := h.cycle
    rw [hqueue] at hcount hallocated hcycle hnew
    obtain ⟨first, hlast, hpush⟩ := hcycle.push hnew message
    rw [hcycle.last_concat]
    simp only [hlast, Option.map_some]
    refine ⟨_, rfl, hpush, fun a => ?_, hcount, h.returned⟩
    refine (isSome_update_some.trans (or_congr_right isSome_update_some)).trans (.trans ?_ (hallocated a))
    rw [or_iff_right_iff_imp]
    rintro rfl
    exact .inr (by simp [hlast])

theorem eventsListPop_single {a : Nat} {m : μ} (hend : c.eventListQueueEnd = some a) (ha : c.heap a = some ⟨a, m⟩) :
    c.eventsListPop = some (some m, { c with
      heap := Function.update c.heap a none
      eventListQueueEnd := none
      pendingEventCount := c.pendingEventCount - 1 }) := by
  unfold eventsListPop
  simp [hend, ha]

theorem eventsListPop_many {a l second : Nat} {m y : μ} (hend : c.eventListQueueEnd = some l)
    (hl : c.heap l = some ⟨a, y⟩) (ha : c.heap a = some ⟨second, m⟩) (hne : a ≠ l) :
    c.eventsListPop = some (some m, { c with
      heap := Function.update (Function.update c.heap l (some ⟨second, y⟩)) a none
      pendingEventCount := c.pendingEventCount - 1 }) := by
  unfold eventsListPop
  simp [hend, hl, ha, hne]

theorem Holds.pop_nil (h : c.Holds q count) (hqueue : q.queue = []) :
    c.eventsListPop = some (none, c) ∧ { c with returned := c.returned ++ [none] }.Holds (q.step .pop) count := by
  have hend : c.eventListQueueEnd = none := Lib.Ring.cycle_nil.mp (hqueue ▸ h.cycle)
  constructor
  · unfold eventsListPop
    rw [hend]
  · unfold Fifo.step
    rw [hqueue]
    refine ⟨Lib.Ring.cycle_nil.mpr hend, ?_, ?_, ?_⟩
    · simpa [hqueue] using h.allocated
    · simpa [hqueue] using h.count
    · simp [h.returned]

theorem Holds.pop_cons (h : c.Holds q count) {a : Nat} {m : μ} {rest : List (Nat × μ)}
    (hqueue : q.queue = (a, m) :: rest) :
    ∃ c', c.eventsListPop = some (some m, c') ∧
      { c' with returned := c'.returned ++ [some m] }.Holds (q.step .pop) count := by
  have hcycle := h.cycle
  rw [hqueue] at hcycle
  have ha : a ∉ rest.map Prod.fst := (List.nodup_cons.mp hcycle.distinct).1
  have hcount : c.pendingEventCount - 1 = count + Int32.ofNat rest.length := by
    rw [h.count, hqueue, List.length_cons, Int32.ofNat_add, ← Int32.add_assoc]
    exact Int32.add_sub_cancel ..
  have hallocated : ∀ b, b ≠ a → ((c.heap b).isSome ↔ b ∈ rest.map Prod.fst) := by
    intro b hb
    rw [h.allocated, hqueue, List.map_cons, List.mem_cons]
    simp [hb]
  have hreturned : c.returned ++ [some m] = (q.step .pop).returned := by simp [Fifo.step, hqueue, h.returned]
  have hrestq : (q.step .pop).queue = rest := by simp [Fifo.step, hqueue]
  rw [← hrestq] at hcount
  cases hrest : rest using List.reverseRecOn with
  | nil =>
    subst hrest
    refine ⟨_, eventsListPop_single hcycle.last hcycle.pop_single, ?_, fun b => ?_, hcount, hreturned⟩
    · rw [hrestq]
      exact Lib.Ring.cycle_nil.mpr rfl
    · rw [hrestq]
      refine isSome_update_none.trans ⟨fun hb => (hallocated b hb.1).mp hb.2, by simp⟩
  | append_singleton cells last =>
    obtain ⟨l, y⟩ := last
    subst hrest
    obtain ⟨second, hne, hlast, hfirst, hpop⟩ := hcycle.pop
    rw [← List.cons_append] at hcycle
    have hend : c.eventListQueueEnd = some l := hcycle.last_concat
    refine ⟨_, eventsListPop_many hend hlast hfirst hne, ?_, fun b => ?_, hcount, hreturned⟩
    · rw [hrestq]
      exact hpop
    · rw [hrestq]
      refine isSome_update_none.trans ?_
      rw [isSome_update_some]
      constructor
      · rintro ⟨hb, rfl | hsome⟩
        · simp
        · exact (hallocated b hb).mp hsome
      · intro hmem
        have hb : b ≠ a := fun he => ha (he ▸ hmem)
        exact ⟨hb, .inr ((hallocated b hb).mpr hmem)⟩

theorem Holds.step (h : c.Holds q count) {call : Call μ} (hfresh : c.Fresh call) :
    ∃ c', c.step call = some c' ∧ c'.Holds (q.step call) count := by
  cases call with
  | push node message => exact h.push hfresh message
  | pop =>
    unfold EventList.step
    cases hqueue : q.queue with
    | nil =>
      obtain ⟨hpop, hholds⟩ := h.pop_nil hqueue
      exact ⟨_, by rw [hpop]; rfl, hholds⟩
    | cons cell rest =>
      obtain ⟨c', hpop, hholds⟩ := h.pop_cons hqueue
      exact ⟨_, by rw [hpop]; rfl, hholds⟩

theorem Holds.run (h : c.Holds q count) {calls : List (Call μ)} (hfresh : Meets EventList.step Fresh c calls) :
    ∃ c', Lib.run EventList.step c calls = some c' ∧ c'.Holds (q.run calls) count := by
  induction calls generalizing c q with
  | nil => exact ⟨c, rfl, h⟩
  | cons call calls ih =>
    obtain ⟨c₁, hstep, hholds⟩ := h.step hfresh.1
    obtain ⟨c', hrun, hholds'⟩ := ih hholds (hfresh.2 c₁ hstep)
    exact ⟨c', run_cons.mpr ⟨c₁, hstep, hrun⟩, hholds'⟩

theorem holds_empty (count : Int32) : ({ pendingEventCount := count } : EventList μ).Holds {} count :=
  ⟨Lib.Ring.cycle_nil.mpr rfl, by simp, by simp, rfl⟩

theorem Fifo.run_pushed (q : Fifo μ) (calls : List (Call μ)) :
    (q.run calls).returned.filterMap id ++ (q.run calls).queue.map Prod.snd =
      q.returned.filterMap id ++ q.queue.map Prod.snd ++ pushed calls := by
  unfold Fifo.run
  induction calls generalizing q with
  | nil => simp [pushed]
  | cons call calls ih =>
    rw [List.foldl_cons, ih]
    cases call with
    | push node message => simp [Fifo.step, pushed]
    | pop =>
      unfold Fifo.step
      cases q.queue with
      | nil => simp [pushed]
      | cons cell rest => simp [pushed]

theorem Holds.count_toInt (h : c.Holds q count) (hlt : count.toInt + q.queue.length < 2 ^ 31) :
    c.pendingEventCount.toInt = count.toInt + q.queue.length := by
  have hle := count.le_toInt
  have hsize : (Int32.size : Int) = 2 ^ 32 := rfl
  rw [h.count, Int32.toInt_add, Int32.toInt_ofNat', Int.add_bmod_bmod]
  exact Int.bmod_eq_of_le (by omega) (by omega)

/-- Any calls on an empty list leave the queue that they are to leave, and return its messages in their order. -/
theorem calls_are_fifo (count : Int32) {calls : List (Call μ)}
    (hfresh : Meets EventList.step Fresh { pendingEventCount := count } calls) :
    ∃ c q, run EventList.step { pendingEventCount := count } calls = some c ∧ q = Fifo.run {} calls ∧
      c.Holds q count ∧ (c.eventListIsEmpty ↔ q.queue = []) ∧
      q.returned.filterMap id ++ q.queue.map Prod.snd = pushed calls ∧
      (count.toInt + q.queue.length < 2 ^ 31 → c.pendingEventCount.toInt = count.toInt + q.queue.length) := by
  obtain ⟨c, hrun, hholds⟩ := (holds_empty count).run hfresh
  exact ⟨c, _, hrun, rfl, hholds, hholds.isEmpty_iff, by simpa using Fifo.run_pushed {} calls, hholds.count_toInt⟩

instance (c : EventList μ) : ∀ call, Decidable (c.Fresh call)
  | .push node _ => decidable_of_iff ((c.heap node).isNone) (by simp [Fresh])
  | .pop => isTrue trivial

/-- The second node has the address of the first, which is free again. -/
theorem fifo_address_again : ∃ c q, run EventList.step { pendingEventCount := 0 }
      [.push 8 'a', .push 4 'b', .pop, .push 8 'c', .pop] = some c ∧
    q = Fifo.run {} [.push 8 'a', .push 4 'b', .pop, .push 8 'c', .pop] ∧ c.Holds q 0 ∧
    q.returned = [some 'a', some 'b'] := by
  have hfresh : Meets EventList.step Fresh { pendingEventCount := 0 }
      [.push 8 'a', .push 4 'b', .pop, .push 8 'c', .pop] := by
    decide +kernel
  obtain ⟨c, q, hrun, hq, hholds, -⟩ := calls_are_fifo 0 hfresh
  exact ⟨c, q, hrun, hq, hholds, hq ▸ rfl⟩

/-! ## The list of a connection -/

/-- The list with the nodes of the ring. -/
def ofRing (r : Lib.Ring μ) (count : Int32) : EventList μ :=
  { heap := r.nodes, eventListQueueEnd := r.last, pendingEventCount := count }

/-- The queue of a connection is this list, where `malloc` gives addresses in order. -/
theorem eventsListPush_ofRing (r : Lib.Ring μ) (count : Int32) (message : μ) :
    (ofRing r count).eventsListPush r.mallocs message = (r.push message).map (ofRing · (count + 1)) := by
  unfold eventsListPush Lib.Ring.push ofRing
  cases r.last with
  | none => simp
  | some l => simp [Function.comp_def]

theorem eventsListPop_ofRing (r : Lib.Ring μ) (count : Int32) :
    (ofRing r count).eventsListPop =
      r.pop.map fun (message, r) => (message, ofRing r (if message.isNone then count else count - 1)) := by
  unfold eventsListPop Lib.Ring.pop ofRing
  cases hlast : r.last with
  | none => simp [hlast]
  | some l =>
    cases hl : r.nodes l with
    | none => simp [hl]
    | some last =>
      cases hfirst : r.nodes last.next with
      | none => simp [hl, hfirst]
      | some first =>
        by_cases he : last.next = l
        · simp [hl, he]
        · simp [hl, hfirst, he]

end EventList

end Tiodb.Client
