import Mathlib.Data.List.Basic
import Mathlib.Logic.Function.Basic
import Tiodb.Client.PyCommand
import Tiodb.Lib.Machine

/-!
# Pending events of the Python client

`HandleEvent` and `DispatchPendingHandleEvents` of `tioclient.py`. An event waits in the
list of its handle until a call gives it to its sinks. What a sink does is not part of
the connection, and the data of an event are of any type.
-/

namespace Tiodb.Python

open Lib

/-- A function of the program. -/
abbrev Sink := Nat

structure RemoteContainer where
  handle : Int
  type : Bytes
  name : Bytes
  deriving DecidableEq

/-- `number` is the identity of the object. -/
structure Event (δ : Type) where
  number : Nat
  handle : Int
  name : Bytes
  key : δ
  value : δ
  metadata : δ
  deriving DecidableEq

structure SinkCall (δ : Type) where
  sink : Sink
  container : RemoteContainer
  event : Event δ
  deriving DecidableEq

/-- A popper that is not `None` is called. -/
structure Poppers (δ : Type) where
  wnpKey : Option (δ → Option (List (Option Sink))) := none
  wnpNext : Option (List (Option Sink)) := none

/-- A call of `DispatchPendingHandleEvents`: the events that waited, those that went to their sinks, and the result. -/
structure Dispatch (δ : Type) where
  max : Nat
  pending : List (Event δ)
  given : List (Event δ)
  returned : Nat
  deriving DecidableEq

/-- `received`, `invoked`, `given` and `dispatches` are history. -/
structure EventConnection (δ : Type) where
  sinks : Int → Option (Bytes → Option (List Sink))
  containers : Int → Option RemoteContainer
  poppers : Int → Option (Poppers δ) := fun _ => none
  pendingEvents : Int → Option (List (Event δ)) := fun _ => none
  received : Nat := 0
  invoked : List (SinkCall δ) := []
  given : List (Event δ) := []
  dispatches : List (Dispatch δ) := []

namespace EventConnection

section Functions

variable {δ : Type} [DecidableEq δ]

def pending (c : EventConnection δ) (handle : Int) : List (Event δ) := (c.pendingEvents handle).getD []

def handleEvent (c : EventConnection δ) (e : Event δ) : EventConnection δ :=
  { c with pendingEvents := Function.update c.pendingEvents e.handle (some (c.pending e.handle ++ [e])) }

/-- `none` is a `KeyError`. -/
def callSink (c : EventConnection δ) (e : Event δ) (sink : Sink) : Option (EventConnection δ) :=
  (c.containers e.handle).map fun container => { c with invoked := c.invoked ++ [⟨sink, container, e⟩] }

def callPopper (c : EventConnection δ) (e : Event δ) : Option Sink → Option (EventConnection δ)
  | some f => c.callSink e f
  | none => some c

/-- `list.pop`; `none` is an `IndexError`. -/
def popLast (poppers : List (Option Sink)) : Option (Option Sink × List (Option Sink)) :=
  poppers.getLast?.map fun f => (f, poppers.dropLast)

def giveWnpKey (c : EventConnection δ) (handle : Int) (e : Event δ) : Option (EventConnection δ) := do
  let poppers ← c.poppers handle
  let wnpKey ← poppers.wnpKey
  let (f, rest) ← (wnpKey e.key).bind popLast
  let poppers := { poppers with wnpKey := some (Function.update wnpKey e.key (some rest)) }
  { c with poppers := Function.update c.poppers handle (some poppers) }.callPopper e f

def giveWnpNext (c : EventConnection δ) (handle : Int) (e : Event δ) : Option (EventConnection δ) := do
  let poppers ← c.poppers handle
  let (f, rest) ← poppers.wnpNext.bind popLast
  let poppers := { poppers with wnpNext := some rest }
  { c with poppers := Function.update c.poppers handle (some poppers) }.callPopper e f

/-- The sinks of the event, or those of all the events where it has none. -/
def sinksOf (sinks : Bytes → Option (List Sink)) (name : Bytes) : List Sink :=
  ((sinks name).orElse fun _ => sinks (ascii "*")).getD []

def giveSinks (c : EventConnection δ) (handle : Int) (e : Event δ) : Option (EventConnection δ) := do
  let sinks ← c.sinks handle
  (sinksOf sinks e.name).foldlM (fun c sink => c.callSink e sink) c

/-- The body of the loop. -/
def giveEvent (c : EventConnection δ) (handle : Int) (e : Event δ) : Option (EventConnection δ) :=
  (if e.name = ascii "wnp_key" then c.giveWnpKey handle e
  else if e.name = ascii "wnp_next" then c.giveWnpNext handle e
  else c.giveSinks handle e).map fun c => { c with given := c.given ++ [e] }

/-- The loop over `enumerate(events)`, with the value of `index` so far. The result has its last value. -/
def dispatchLoop (handle : Int) (max : Nat) :
    Nat → List (Event δ × Nat) → EventConnection δ → Option (Nat × EventConnection δ)
  | index, [], c => some (index, c)
  | _, (e, index) :: rest, c =>
    if max ≤ index then some (index, c)
    else (c.giveEvent handle e).bind (dispatchLoop handle max index rest)

/-- `none` is an exception. -/
def dispatchPendingHandleEvents (c : EventConnection δ) (handle : Int) (max : Nat) :
    Option (Nat × EventConnection δ) :=
  let events := c.pending handle
  if events = [] then some (0, c)
  else
    (dispatchLoop handle max 0 events.zipIdx c).map fun (index, c) =>
      if events.length < max then
        (events.length, { c with pendingEvents := Function.update c.pendingEvents handle (some []) })
      else (index, { c with pendingEvents := Function.update c.pendingEvents handle (some (events.drop index)) })

end Functions

end EventConnection

/-! ## Runs -/

/-- An event comes, and gets the next number; or the program dispatches. -/
inductive EventAction (δ : Type) where
  | receive (handle : Int) (name : Bytes) (key value metadata : δ)
  | dispatch (handle : Int) (max : Nat)
  deriving DecidableEq

namespace EventConnection

variable {δ : Type}

def step [DecidableEq δ] (c : EventConnection δ) : EventAction δ → Option (EventConnection δ)
  | .receive handle name key value metadata =>
    some { c.handleEvent ⟨c.received, handle, name, key, value, metadata⟩ with received := c.received + 1 }
  | .dispatch handle max =>
    (c.dispatchPendingHandleEvents handle max).map fun (returned, c') =>
      { c' with
        dispatches := c'.dispatches ++ [⟨max, c.pending handle, c'.given.drop c.given.length, returned⟩] }

/-- The handle has sinks and a container, and the event is not one of a wait-and-pop. -/
def Registered (c : EventConnection δ) (handle : Int) (name : Bytes) : Prop :=
  (c.sinks handle).isSome ∧ (c.containers handle).isSome ∧ name ≠ ascii "wnp_key" ∧ name ≠ ascii "wnp_next"

def Receives (c : EventConnection δ) : EventAction δ → Prop
  | .receive handle name _ _ _ => c.Registered handle name
  | .dispatch _ _ => True

/-- The calls that an event is to make. -/
def sinkCalls (c : EventConnection δ) (e : Event δ) : List (SinkCall δ) :=
  match c.sinks e.handle, c.containers e.handle with
  | some sinks, some container => (sinksOf sinks e.name).map fun sink => ⟨sink, container, e⟩
  | _, _ => []

end EventConnection

/-- The oldest events went to their sinks, as many as there are up to `max`, and that number came back. -/
structure Dispatch.Right {δ : Type} (d : Dispatch δ) : Prop where
  given : d.given = d.pending.take (min d.max d.pending.length)
  returned : d.returned = min d.max d.pending.length

namespace EventConnection

variable {δ : Type}

/-- Every call was right, and no event of a handle was given twice, or before an older one. -/
structure Right (c : EventConnection δ) : Prop where
  dispatches : ∀ d ∈ c.dispatches, d.Right
  invoked : c.invoked = c.given.flatMap c.sinkCalls
  order : ∀ handle, ((c.given.filter (·.handle = handle)).map Event.number).Pairwise (· < ·)

/-- The call does not ask for exactly the events that are there. -/
def Uneven (c : EventConnection δ) : EventAction δ → Prop
  | .receive _ _ _ _ _ => True
  | .dispatch handle max => c.pending handle = [] ∨ max ≠ (c.pending handle).length

instance (c : EventConnection δ) : ∀ a, Decidable (c.Uneven a)
  | .receive _ _ _ _ _ => isTrue trivial
  | .dispatch _ _ => inferInstanceAs (Decidable (_ ∨ _))

/-! ## One call -/

/-- The connection after the events went to their sinks. -/
def giveAll (c : EventConnection δ) (es : List (Event δ)) : EventConnection δ :=
  { c with invoked := c.invoked ++ es.flatMap c.sinkCalls, given := c.given ++ es }

@[simp] theorem giveAll_nil (c : EventConnection δ) : c.giveAll [] = c := by simp [giveAll]

theorem giveAll_cons (c : EventConnection δ) (e : Event δ) (es : List (Event δ)) :
    (c.giveAll [e]).giveAll es = c.giveAll (e :: es) := by
  have hcalls : (c.giveAll [e]).sinkCalls = c.sinkCalls := rfl
  rw [giveAll, hcalls]
  simp [giveAll]

theorem foldlM_callSink {c : EventConnection δ} {e : Event δ} {container : RemoteContainer}
    (h : c.containers e.handle = some container) (sinks : List Sink) :
    sinks.foldlM (fun c sink => c.callSink e sink) c =
      some { c with invoked := c.invoked ++ sinks.map fun sink => ⟨sink, container, e⟩ } := by
  induction sinks generalizing c with
  | nil => simp
  | cons sink sinks ih =>
    rw [List.foldlM_cons, callSink, h, Option.map_some, Option.bind_eq_bind, Option.bind_some]
    refine (ih (c := { c with invoked := c.invoked ++ [⟨sink, container, e⟩] }) h).trans ?_
    simp

theorem giveEvent_of_registered [DecidableEq δ] {c : EventConnection δ} {e : Event δ}
    (h : c.Registered e.handle e.name) :
    c.giveEvent e.handle e = some (c.giveAll [e]) := by
  obtain ⟨hsinks, hcontainer, hkey, hnext⟩ := h
  obtain ⟨sinks, hsinks⟩ := Option.isSome_iff_exists.mp hsinks
  obtain ⟨container, hcontainer⟩ := Option.isSome_iff_exists.mp hcontainer
  unfold giveEvent
  rw [if_neg hkey, if_neg hnext, giveSinks, hsinks, Option.bind_eq_bind, Option.bind_some,
    foldlM_callSink hcontainer]
  simp [giveAll, sinkCalls, hsinks, hcontainer]

/-- The loop ends at `max`, or with the last event, whose index is one less than their number. -/
theorem dispatchLoop_spec [DecidableEq δ] {handle : Int} {max : Nat} (events : List (Event δ))
    {c : EventConnection δ} (last i : Nat)
    (h : ∀ e ∈ events, e.handle = handle ∧ c.Registered e.handle e.name) (hi : i ≤ max) :
    dispatchLoop handle max last (events.zipIdx i) c =
      some (if events = [] then last else min max (i + events.length - 1), c.giveAll (events.take (max - i))) := by
  induction events generalizing c last i with
  | nil => simp [dispatchLoop]
  | cons e events ih =>
    obtain ⟨⟨rfl, hregistered⟩, hrest⟩ := List.forall_mem_cons.mp h
    rw [List.zipIdx_cons, dispatchLoop]
    by_cases hmax : max ≤ i
    · obtain rfl : i = max := by omega
      simp
    · rw [if_neg hmax, giveEvent_of_registered hregistered, Option.bind_some,
        ih (c := c.giveAll [e]) _ _ hrest (by omega)]
      have htake : (e :: events).take (max - i) = e :: events.take (max - (i + 1)) := by
        rw [show max - i = max - (i + 1) + 1 by omega, List.take_succ_cons]
      have hindex : (if events = [] then i else min max (i + 1 + events.length - 1)) =
          min max (i + (e :: events).length - 1) := by
        cases events with
        | nil => simp only [if_true, List.length_cons, List.length_nil]; omega
        | cons _ _ => simp only [reduceCtorEq, if_false, List.length_cons]; omega
      rw [htake, giveAll_cons, hindex, if_neg (List.cons_ne_nil e events)]

/-- The result of a call, and what it leaves. -/
def answer (max n : Nat) : Nat := if max = n then n - 1 else min max n

theorem dispatch_spec [DecidableEq δ] {c : EventConnection δ} {handle : Int} (max : Nat)
    (h : ∀ e ∈ c.pending handle, e.handle = handle ∧ c.Registered e.handle e.name) :
    ∃ pendingEvents, c.dispatchPendingHandleEvents handle max =
        some (answer max (c.pending handle).length,
          { c.giveAll ((c.pending handle).take max) with pendingEvents := pendingEvents }) ∧
      (pendingEvents handle).getD [] = (c.pending handle).drop (answer max (c.pending handle).length) ∧
      ∀ other ≠ handle, pendingEvents other = c.pendingEvents other := by
  unfold dispatchPendingHandleEvents
  by_cases hnil : c.pending handle = []
  · refine ⟨c.pendingEvents, ?_, ?_, fun _ _ => rfl⟩
    · simp [hnil, answer]
    · rw [hnil, List.drop_nil]
      exact hnil
  have hpos : 0 < (c.pending handle).length := List.length_pos_of_ne_nil hnil
  rw [if_neg hnil, dispatchLoop_spec _ _ _ h (Nat.zero_le _), Option.map_some, if_neg hnil]
  dsimp only
  by_cases hlt : (c.pending handle).length < max
  · rw [if_pos hlt]
    have hanswer : answer max (c.pending handle).length = (c.pending handle).length := by
      unfold answer
      split <;> omega
    refine ⟨Function.update c.pendingEvents handle (some []), ?_, ?_, fun _ ho => Function.update_of_ne ho ..⟩
    · rw [hanswer]
      simp [giveAll]
    · simp [hanswer]
  · rw [if_neg hlt]
    have hanswer : answer max (c.pending handle).length = min max (0 + (c.pending handle).length - 1) := by
      unfold answer
      split <;> omega
    refine ⟨Function.update c.pendingEvents handle
      (some ((c.pending handle).drop (answer max (c.pending handle).length))), ?_, ?_,
      fun _ ho => Function.update_of_ne ho ..⟩
    · rw [hanswer]
      simp [giveAll]
    · simp

/-! ## Any sequence of calls -/

def start (sinks : Int → Option (Bytes → Option (List Sink))) (containers : Int → Option RemoteContainer)
    (poppers : Int → Option (Poppers δ)) : EventConnection δ :=
  { sinks, containers, poppers }

/-- The events that wait are of their handle, and have sinks. -/
def Ready (c : EventConnection δ) : Prop :=
  ∀ handle, ∀ e ∈ c.pending handle, e.handle = handle ∧ c.Registered e.handle e.name

theorem pending_handleEvent (c : EventConnection δ) (e : Event δ) (handle : Int) :
    (c.handleEvent e).pending handle = if handle = e.handle then c.pending handle ++ [e] else c.pending handle := by
  unfold handleEvent pending
  by_cases h : handle = e.handle
  · subst h
    simp
  · simp [h]

theorem step_dispatch [DecidableEq δ] {c : EventConnection δ} (h : c.Ready) (handle : Int) (max : Nat) :
    ∃ pendingEvents, c.step (.dispatch handle max) =
        some { c.giveAll ((c.pending handle).take max) with
          pendingEvents := pendingEvents
          dispatches := c.dispatches ++ [⟨max, c.pending handle, (c.pending handle).take max,
            answer max (c.pending handle).length⟩] } ∧
      (pendingEvents handle).getD [] = (c.pending handle).drop (answer max (c.pending handle).length) ∧
      ∀ other ≠ handle, pendingEvents other = c.pendingEvents other := by
  obtain ⟨pendingEvents, hcall, hhandle, hothers⟩ := dispatch_spec max (h handle)
  refine ⟨pendingEvents, ?_, hhandle, hothers⟩
  rw [step, hcall]
  simp [giveAll]

theorem Ready.step [DecidableEq δ] {c : EventConnection δ} (h : c.Ready) {a : EventAction δ} (ha : c.Receives a) :
    ∃ c', c.step a = some c' ∧ c'.Ready ∧ c'.sinks = c.sinks ∧ c'.containers = c.containers := by
  cases a with
  | receive handle name key value metadata =>
    refine ⟨_, rfl, fun handle' e he => ?_, rfl, rfl⟩
    change e ∈ (c.handleEvent _).pending handle' at he
    rw [pending_handleEvent] at he
    by_cases hh : handle' = handle
    · subst hh
      simp only [if_true, List.mem_append, List.mem_singleton] at he
      obtain he | rfl := he
      · exact h handle' e he
      · exact ⟨rfl, ha⟩
    · exact h handle' e (by simpa [hh] using he)
  | dispatch handle max =>
    obtain ⟨pendingEvents, hstep, hhandle, hothers⟩ := step_dispatch h handle max
    refine ⟨_, hstep, fun handle' e he => ?_, rfl, rfl⟩
    change e ∈ (pendingEvents handle').getD [] at he
    apply h handle' e
    by_cases hh : handle' = handle
    · subst hh
      rw [hhandle] at he
      exact List.mem_of_mem_drop he
    · rw [hothers handle' hh] at he
      exact he

/-- The events of a handle, those that were given and those that wait, stand in the order of their numbers. -/
structure InLine (c : EventConnection δ) : Prop where
  ready : c.Ready
  dispatches : ∀ d ∈ c.dispatches, d.Right
  invoked : c.invoked = c.given.flatMap c.sinkCalls
  line : ∀ handle, ((c.given.filter (·.handle = handle) ++ c.pending handle).map Event.number).Pairwise (· < ·)
  numbers : ∀ handle, ∀ e ∈ c.given.filter (·.handle = handle) ++ c.pending handle, e.number < c.received

theorem InLine.right {c : EventConnection δ} (h : c.InLine) : c.Right := by
  refine ⟨h.dispatches, h.invoked, fun handle => ?_⟩
  have := h.line handle
  rw [List.map_append] at this
  exact (List.pairwise_append.mp this).1

theorem InLine.receive [DecidableEq δ] {c : EventConnection δ} (h : c.InLine)
    {handle : Int} {name : Bytes} {key value metadata : δ}
    (ha : c.Registered handle name) {c' : EventConnection δ}
    (hstep : c.step (.receive handle name key value metadata) = some c') : c'.InLine := by
  have hready : c'.Ready := by
    obtain ⟨_, hs, hready, -, -⟩ := h.ready.step (a := .receive handle name key value metadata) ha
    exact Option.some.inj (hs.symm.trans hstep) ▸ hready
  obtain rfl := Option.some.inj hstep
  let e : Event δ := ⟨c.received, handle, name, key, value, metadata⟩
  have hline (handle' : Int) : c.given.filter (·.handle = handle') ++ (c.handleEvent e).pending handle' =
      (c.given.filter (·.handle = handle') ++ c.pending handle') ++ if handle' = handle then [e] else [] := by
    rw [pending_handleEvent]
    split <;> simp
  refine ⟨hready, h.dispatches, h.invoked, fun handle' => ?_, fun handle' e' he' => ?_⟩
  · change ((c.given.filter (·.handle = handle') ++ (c.handleEvent e).pending handle').map _).Pairwise _
    rw [hline, List.map_append, List.pairwise_append]
    refine ⟨h.line handle', by split <;> simp, ?_⟩
    intro n hn m hm
    obtain ⟨e', he', rfl⟩ := List.mem_map.mp hn
    obtain rfl : m = c.received := by
      split at hm
      · simpa using hm
      · simp at hm
    exact h.numbers handle' e' he'
  · change e' ∈ c.given.filter (·.handle = handle') ++ (c.handleEvent e).pending handle' at he'
    rw [hline] at he'
    obtain he' | he' := List.mem_append.mp he'
    · exact (h.numbers handle' e' he').trans (Nat.lt_succ_self _)
    · split at he'
      · obtain rfl := List.mem_singleton.mp he'
        exact Nat.lt_succ_self _
      · simp at he'

theorem answer_eq_min {max n : Nat} : answer max n = min max n ↔ n = 0 ∨ max ≠ n := by
  unfold answer
  split <;> omega

theorem InLine.dispatch [DecidableEq δ] {c : EventConnection δ} (h : c.InLine) {handle : Int} {max : Nat}
    (ha : c.Uneven (.dispatch handle max)) {c' : EventConnection δ}
    (hstep : c.step (.dispatch handle max) = some c') : c'.InLine := by
  have hready : c'.Ready := by
    obtain ⟨_, hs, hready, -, -⟩ := h.ready.step (a := .dispatch handle max) trivial
    exact Option.some.inj (hs.symm.trans hstep) ▸ hready
  obtain ⟨pendingEvents, hs, hhandle, hothers⟩ := step_dispatch h.ready handle max
  obtain rfl := Option.some.inj (hs.symm.trans hstep)
  have hanswer : answer max (c.pending handle).length = min max (c.pending handle).length :=
    answer_eq_min.mpr (ha.imp_left (congrArg List.length))
  have htake : (c.pending handle).take max = (c.pending handle).take (min max (c.pending handle).length) := by
    rw [List.take_eq_take_iff]
    omega
  have hline (handle' : Int) :
      (c.given ++ (c.pending handle).take max).filter (·.handle = handle') ++ (pendingEvents handle').getD [] =
        c.given.filter (·.handle = handle') ++ c.pending handle' := by
    have hmem : ∀ e ∈ (c.pending handle).take max, e.handle = handle :=
      fun e he => (h.ready handle e (List.mem_of_mem_take he)).1
    rw [List.filter_append, List.append_assoc]
    congr 1
    by_cases hh : handle' = handle
    · subst hh
      rw [List.filter_eq_self.mpr (by simpa using hmem), hhandle, hanswer, htake, List.take_append_drop]
    · rw [List.filter_eq_nil_iff.mpr fun e he => by simpa [hmem e he] using Ne.symm hh, hothers handle' hh]
      rfl
  refine ⟨hready, ?_, ?_, fun handle' => ?_, fun handle' e he => ?_⟩
  · intro d hd
    obtain hd | hd := List.mem_append.mp hd
    · exact h.dispatches d hd
    · obtain rfl := List.mem_singleton.mp hd
      exact ⟨htake, hanswer⟩
  · change c.invoked ++ _ = (c.given ++ _).flatMap c.sinkCalls
    rw [List.flatMap_append, h.invoked]
  · exact (congrArg (fun es => (es.map Event.number).Pairwise (· < ·)) (hline handle')).mpr (h.line handle')
  · exact h.numbers handle' e (hline handle' ▸ he)

theorem inLine_start (sinks : Int → Option (Bytes → Option (List Sink))) (containers : Int → Option RemoteContainer)
    (poppers : Int → Option (Poppers δ)) : (start sinks containers poppers).InLine :=
  ⟨by simp [Ready, pending, start], by simp [start], rfl, by simp [pending, start], by simp [pending, start]⟩

/-- Every call does not ask for exactly the events that are there, exactly if all the calls are right. -/
theorem dispatches_right_iff [DecidableEq δ] (sinks : Int → Option (Bytes → Option (List Sink)))
    (containers : Int → Option RemoteContainer) (poppers : Int → Option (Poppers δ)) {as : List (EventAction δ)}
    (has : ∀ a ∈ as, (start sinks containers poppers).Receives a) :
    (∃ c, run step (start sinks containers poppers) as = some c) ∧
      ((∀ bs c, bs <+: as → run step (start sinks containers poppers) bs = some c → c.Right) ↔
        Meets step Uneven (start sinks containers poppers) as) := by
  let tables (c : EventConnection δ) : Prop := c.sinks = sinks ∧ c.containers = containers
  have hreceives {c : EventConnection δ} (hc : tables c) {a : EventAction δ}
      (ha : (start sinks containers poppers).Receives a) : c.Receives a := by
    obtain ⟨rfl, rfl⟩ := hc
    cases a <;> exact ha
  have hstart := inLine_start sinks containers poppers
  constructor
  · obtain ⟨c, hc, -⟩ := exists_run (I := fun c => Ready c ∧ tables c) (fun c a ⟨hc, ht⟩ ha => by
      obtain ⟨c', hs, hready, hsinks, hcontainers⟩ := hc.step (hreceives ht ha)
      exact ⟨c', hs, hready, hsinks.trans ht.1, hcontainers.trans ht.2⟩) has ⟨hstart.ready, rfl, rfl⟩
    exact ⟨c, hc⟩
  refine forall_prefix_iff_meets_of (I := fun c => InLine c ∧ tables c) (fun c hc => hc.1.right) ?_ ?_ has
    ⟨hstart, rfl, rfl⟩
  · rintro c a c' ⟨hc, ht⟩ ha hok hs
    obtain ⟨_, hs', -, hsinks, hcontainers⟩ := hc.ready.step (hreceives ht ha)
    obtain rfl := Option.some.inj (hs.symm.trans hs')
    refine ⟨?_, hsinks.trans ht.1, hcontainers.trans ht.2⟩
    cases a with
    | receive => exact hc.receive (hreceives ht ha) hs
    | dispatch => exact hc.dispatch hok hs
  · rintro c (_ | ⟨handle, max⟩) ⟨hc, ht⟩ ha hall
    · trivial
    obtain ⟨pendingEvents, hs, -, -⟩ := step_dispatch hc.ready handle max
    have hright := (hall _ hs).dispatches _ (List.mem_append_right _ (List.mem_singleton_self _))
    exact (answer_eq_min.mp hright.returned).imp_left List.length_eq_zero_iff.mp

/-- A connection whose handles all have one sink. -/
def oneSink : EventConnection Unit :=
  start (fun _ => some fun _ => some [0]) (fun handle => some ⟨handle, [], []⟩) fun _ => none

def threeEvents : List (EventAction Unit) :=
  [.receive 1 (ascii "push_back") () () (), .dispatch 1 7, .receive 1 (ascii "clear") () () (),
    .receive 1 (ascii "push_back") () () (), .dispatch 1 1, .dispatch 1 0]

theorem dispatches_right_two_events : ∃ c, run step oneSink threeEvents = some c ∧ c.Right := by
  have hreceives : ∀ a ∈ threeEvents, oneSink.Receives a := by simp [threeEvents, oneSink, Receives, Registered, start, ascii]
  obtain ⟨⟨c, hc⟩, hright⟩ := dispatches_right_iff _ _ _ hreceives
  exact ⟨c, hc, hright.mpr (by decide +kernel) _ c (List.prefix_refl _) hc⟩

theorem one_event_twice :
    ∃ c, run step oneSink [.receive 1 (ascii "push_back") () () (), .dispatch 1 1, .dispatch 1 1] = some c ∧
      c.given.map Event.number = [0, 0] ∧ c.dispatches.map Dispatch.returned = [0, 0] ∧ ¬ c.Right := by
  refine ⟨_, rfl, by decide +kernel, by decide +kernel, fun h => ?_⟩
  exact absurd (h.order 1) (by decide +kernel)

end EventConnection

end Tiodb.Python
