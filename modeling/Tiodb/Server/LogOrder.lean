import Mathlib.Logic.Function.Basic
import Tiodb.Lib.Machine
import Tiodb.Lib.Replay
import Tiodb.Server.DataCommand

/-!
# The order of the transaction log

In `OnBinaryCommand` the container is changed first, under its own lock, and the
command is logged later, under the lock of the logger. Each is one step here, and
the steps of several sessions interleave.
-/

namespace Tiodb

open Lib

/-- A data command of a session on a container. -/
structure Issued where
  session : Nat
  container : Nat
  command : DataCommand
  deriving DecidableEq, Repr

/-- `unlogged` has the commands that took effect and have no line in the log yet, and `effects`, which is history, all
that took effect, both in the order of the effects. -/
structure Logging where
  containers : Nat → Container
  unlogged : List Issued
  log : List Issued
  effects : List Issued

namespace Logging

def init (containers : Nat → Container) : Logging := ⟨containers, [], [], []⟩

/-- A command that throws is answered with the exception, and not logged. -/
def applyCommand (s : Logging) (i : Issued) : Option Logging :=
  match i.command.exec.run (s.containers i.container) with
  | .ok () c =>
    some { s with
      containers := Function.update s.containers i.container c
      unlogged := s.unlogged ++ [i]
      effects := s.effects ++ [i] }
  | .throws _ c => some { s with containers := Function.update s.containers i.container c }
  | .undefined => none

def logMessage (s : Logging) (session : Nat) : Option Logging :=
  (s.unlogged.find? (·.session = session)).map fun i =>
    { s with unlogged := s.unlogged.eraseP (·.session = session), log := s.log ++ [i] }

inductive Step where
  | apply (i : Issued)
  | log (session : Nat)

/-- A session runs one command at a time. -/
def step (s : Logging) : Step → Option Logging
  | .apply i => if ∃ j ∈ s.unlogged, j.session = i.session then none else s.applyCommand i
  | .log session => s.logMessage session

/-- No command is applied to a container while another one on it is applied and not yet logged. -/
def Alone (s : Logging) : Step → Prop
  | .apply i => ∀ j ∈ s.unlogged, j.container ≠ i.container
  | .log _ => True

instance Alone.decide (s : Logging) : (a : Step) → Decidable (Alone s a)
  | .apply i => inferInstanceAs (Decidable (∀ j ∈ s.unlogged, j.container ≠ i.container))
  | .log _ => isTrue trivial

def of (container : Nat) (l : List Issued) : List DataCommand :=
  l.filterMap fun i => if i.container = container then some i.command else none

theorem of_append (container : Nat) (l l' : List Issued) : of container (l ++ l') = of container l ++ of container l' :=
  List.filterMap_append

theorem of_single (container : Nat) (i : Issued) :
    of container [i] = if i.container = container then [i.command] else [] := by
  unfold of
  split_ifs with h <;> simp [h]

/-- The log, with the lines that are still to come, has the commands in the order of their effects, and these lead from
the initial container to the one there is. At most one line of a container is still to come. -/
structure Faithful (containers : Nat → Container) (s : Logging) : Prop where
  alone : s.unlogged.Pairwise (·.container ≠ ·.container)
  ordered : ∀ container, of container s.log ++ of container s.unlogged = of container s.effects
  replayed : ∀ container, replay DataCommand.apply (containers container) (of container s.effects) =
    some (s.containers container)

variable {containers : Nat → Container} {s s' : Logging}

theorem Faithful.applyCommand (h : Faithful containers s) {i : Issued} (halone : Alone s (.apply i))
    (hs : s.applyCommand i = some s') : Faithful containers s' := by
  unfold Logging.applyCommand at hs
  cases hr : i.command.exec.run (s.containers i.container) with
  | undefined => simp [hr] at hs
  | throws e c =>
    obtain rfl := i.command.exec_atomic _ _ _ hr
    rw [hr, Option.some.injEq, Function.update_eq_self] at hs
    rw [← hs]
    exact ⟨h.alone, h.ordered, h.replayed⟩
  | ok u c =>
    rw [hr, Option.some.injEq] at hs
    subst hs
    refine ⟨?_, fun container => ?_, fun container => ?_⟩
    · rw [List.pairwise_append]
      exact ⟨h.alone, List.pairwise_singleton _ _, fun j hj k hk => List.mem_singleton.mp hk ▸ halone j hj⟩
    · simp only [of_append]
      rw [← List.append_assoc, h.ordered]
    · have hrep := h.replayed container
      dsimp only
      by_cases hc : i.container = container
      · subst hc
        rw [of_append, of_single, if_pos rfl, replay_concat _ hrep, Function.update_self, DataCommand.apply, hr]
      · rw [of_append, of_single, if_neg hc, List.append_nil, hrep, Function.update_of_ne (Ne.symm hc)]

theorem Faithful.logMessage (h : Faithful containers s) {session : Nat} (hs : s.logMessage session = some s') :
    Faithful containers s' := by
  obtain ⟨i, hfind, rfl⟩ := Option.map_eq_some_iff.mp hs
  obtain ⟨hi, before, after, hsplit, hbefore⟩ := List.find?_eq_some_iff_append.mp hfind
  have herase : s.unlogged.eraseP (·.session = session) = before ++ after := by
    rw [hsplit, List.eraseP_append_right _ (by simpa using hbefore)]
    simp [hi]
  have halone := h.alone
  rw [hsplit, List.pairwise_append, List.pairwise_cons] at halone
  obtain ⟨hb, ⟨-, ha⟩, hapart⟩ := halone
  refine ⟨?_, fun container => ?_, h.replayed⟩
  · dsimp only
    rw [herase, List.pairwise_append]
    exact ⟨hb, ha, fun j hj k hk => hapart j hj k (List.mem_cons_of_mem _ hk)⟩
  have hord := h.ordered container
  rw [hsplit, ← List.singleton_append, of_append, of_append] at hord
  dsimp only
  rw [herase, of_append, of_append, ← hord, List.append_assoc]
  congr 1
  by_cases hc : i.container = container
  · -- nothing of this container comes before
    have hnone : of container before = [] := by
      rw [of, List.filterMap_eq_nil_iff]
      intro j hj
      rw [if_neg]
      exact hc ▸ hapart j hj i List.mem_cons_self
    rw [hnone, List.nil_append, List.nil_append]
  · rw [of_single, if_neg hc, List.nil_append, List.nil_append]

/-- The lines of a container are its commands in the order of their effects, but for those that are still to come; with
none to come, they lead from the initial container to the final one. -/
theorem log_in_order_of_effects (containers : Nat → Container) {as : List Step} {s : Logging}
    (hm : Meets step Alone (init containers) as) (hr : run step (init containers) as = some s) (container : Nat) :
    of container s.log <+: of container s.effects ∧
      (of container s.unlogged = [] → of container s.log = of container s.effects ∧
        replay DataCommand.apply (containers container) (of container s.log) = some (s.containers container)) := by
  have h : Faithful containers s := by
    refine run_keeps (fun s a s' h hok hs => ?_) ⟨List.Pairwise.nil, fun _ => rfl, fun _ => rfl⟩ hm hr
    cases a with
    | apply i =>
      simp only [step] at hs
      split_ifs at hs
      exact h.applyCommand hok hs
    | log session => exact h.logMessage hs
  refine ⟨⟨_, h.ordered container⟩, fun hnone => ?_⟩
  have hord := h.ordered container
  rw [hnone, List.append_nil] at hord
  exact ⟨hord, hord ▸ h.replayed container⟩

def emptyList : Container := ⟨.list (ListStorage.new (ascii "a") (ascii "volatile_list")), ∅⟩

def push (session : Nat) (n : Int32) : Issued := ⟨session, 0, ⟨.pushBack, .none, .int n, .none⟩⟩

/-- The second session changes another container in between, and the same one once the first has its line. -/
theorem log_in_order_of_effects_two_sessions :
    ∃ s, run step (init fun _ => emptyList) [.apply (push 1 10), .apply { push 2 15 with container := 1 }, .log 2,
        .log 1, .apply (push 2 20), .log 2] = some s ∧
      of 0 s.log = [(push 1 10).command, (push 2 20).command] ∧
      replay DataCommand.apply emptyList (of 0 s.log) = some (s.containers 0) := by
  generalize hr : run step (init fun _ => emptyList) _ = r
  have hview : r.map (fun s => (of 0 s.log, of 0 s.unlogged)) =
      some ([(push 1 10).command, (push 2 20).command], []) := by
    rw [← hr]
    rfl
  obtain ⟨s, rfl, hs⟩ := Option.map_eq_some_iff.mp hview
  simp only [Prod.mk.injEq] at hs
  exact ⟨s, rfl, hs.1, ((log_in_order_of_effects _ (by decide +kernel) hr 0).2 hs.2).2⟩

/-- The line of the second push is written first. -/
theorem log_overtaken :
    ∃ s, run step (init fun _ => emptyList) [.apply (push 1 10), .apply (push 2 20), .log 2, .log 1] = some s ∧
      s.unlogged = [] ∧ of 0 s.effects = [(push 1 10).command, (push 2 20).command] ∧
      of 0 s.log = [(push 2 20).command, (push 1 10).command] ∧
      replay DataCommand.apply emptyList (of 0 s.log) ≠ some (s.containers 0) := by
  generalize hr : run step (init fun _ => emptyList) _ = r
  have hview : r.map (fun s => (s.unlogged, of 0 s.effects, of 0 s.log,
        decide (replay DataCommand.apply emptyList (of 0 s.log) = some (s.containers 0)))) =
      some ([], [(push 1 10).command, (push 2 20).command], [(push 2 20).command, (push 1 10).command], false) := by
    rw [← hr]
    decide +kernel
  obtain ⟨s, rfl, hs⟩ := Option.map_eq_some_iff.mp hview
  simp only [Prod.mk.injEq] at hs
  exact ⟨s, rfl, hs.1, hs.2.1, hs.2.2.1, of_decide_eq_false hs.2.2.2⟩

end Logging

end Tiodb
