import Mathlib.Data.List.Infix
import Mathlib.Logic.Function.Basic
import Tiodb.Lib.Machine

/-!
# Calls of many clients on one object

Each client makes one call at a time, and a call takes its effect at some moment
between the call and its return. `Atomic` is the object that everybody would like to
have: the effect of a call is one step of it. What the clients see of it is
linearizable, and so is what they see of any machine that it follows step by step.
-/

namespace Tiodb.Lib

section Simulation

variable {σ τ α β : Type} {step : σ → α → Option σ} {step' : τ → β → Option τ} {R : σ → τ → Prop}

/-- The simulation rule: where each step is followed by some steps of the other machine, a run is followed by a run. -/
theorem run_follows (hstep : ∀ {s a s' t}, R s t → step s a = some s' → ∃ bs t', run step' t bs = some t' ∧ R s' t')
    {as : List α} {s s' : σ} {t : τ} (hR : R s t) (hrun : run step s as = some s') :
    ∃ bs t', run step' t bs = some t' ∧ R s' t' := by
  induction as generalizing s t with
  | nil =>
    obtain rfl := Option.some.inj hrun
    exact ⟨[], t, rfl, hR⟩
  | cons a as ih =>
    obtain ⟨s₁, hs₁, hrest⟩ := run_cons.mp hrun
    obtain ⟨bs, t₁, ht₁, hR₁⟩ := hstep hR hs₁
    obtain ⟨bs', t', ht', hR'⟩ := ih hR₁ hrest
    exact ⟨bs ++ bs', t', run_append.mpr ⟨t₁, ht₁, ht'⟩, hR'⟩

end Simulation

/-- What is seen of the clients. -/
inductive Seen (ι Op Res : Type) where
  | called (client : ι) (op : Op)
  | returned (client : ι) (result : Res)
  deriving DecidableEq, Repr

/-- A call with its effect. -/
structure Done (ι Op Res : Type) where
  client : ι
  op : Op
  result : Res
  deriving DecidableEq, Repr

variable {ι Op Res σ : Type}

/-- The object goes through the calls of the sequence, one after the other, and gives their results. -/
def Sequence (spec : σ → ι → Op → Option (Res × σ)) : σ → List (Done ι Op Res) → σ → Prop
  | s, [], s' => s' = s
  | s, d :: ds, s' => ∃ t, spec s d.client d.op = some (d.result, t) ∧ Sequence spec t ds s'

theorem Sequence.push {spec : σ → ι → Op → Option (Res × σ)} {s t s' : σ} {order : List (Done ι Op Res)}
    {d : Done ι Op Res} (h : Sequence spec s order t) (hd : spec t d.client d.op = some (d.result, s')) :
    Sequence spec s (order ++ [d]) s' := by
  induction order generalizing s with
  | nil =>
    obtain rfl : t = s := h
    exact ⟨s', hd, rfl⟩
  | cons d' ds ih =>
    obtain ⟨u, hu, hrest⟩ := h
    exact ⟨u, hu, ih hrest⟩

variable [DecidableEq ι]

/-- What one client has called. -/
def callsOf (client : ι) (history : List (Seen ι Op Res)) : List Op := history.filterMap fun
  | .called c op => if c = client then some op else none
  | .returned _ _ => none

/-- What came back to one client. -/
def returnsOf (client : ι) (history : List (Seen ι Op Res)) : List Res := history.filterMap fun
  | .called _ _ => none
  | .returned c r => if c = client then some r else none

def opsOf (client : ι) (order : List (Done ι Op Res)) : List Op :=
  order.filterMap fun d => if d.client = client then some d.op else none

def resultsOf (client : ι) (order : List (Done ι Op Res)) : List Res :=
  order.filterMap fun d => if d.client = client then some d.result else none

section Lists

variable (client : ι) (history history' : List (Seen ι Op Res)) (order order' : List (Done ι Op Res))

@[simp] theorem callsOf_append : callsOf client (history ++ history') = callsOf client history ++ callsOf client history' :=
  List.filterMap_append

@[simp] theorem returnsOf_append :
    returnsOf client (history ++ history') = returnsOf client history ++ returnsOf client history' :=
  List.filterMap_append

@[simp] theorem opsOf_append : opsOf client (order ++ order') = opsOf client order ++ opsOf client order' :=
  List.filterMap_append

@[simp] theorem resultsOf_append :
    resultsOf client (order ++ order') = resultsOf client order ++ resultsOf client order' :=
  List.filterMap_append

theorem length_resultsOf : (resultsOf client order).length = (opsOf client order).length := by
  induction order with
  | nil => rfl
  | cons d ds ih =>
    unfold resultsOf opsOf at ih ⊢
    by_cases h : d.client = client <;> simp [h, ih]

end Lists

/-- The calls that took effect, in an order that explains the history. At every moment of the history there is a
point in the order up to which the calls had taken effect: behind all that had returned, and before all that were
not made yet. -/
structure Linearizes (spec : σ → ι → Op → Option (Res × σ)) (s s' : σ) (history : List (Seen ι Op Res))
    (order : List (Done ι Op Res)) : Prop where
  sequence : Sequence spec s order s'
  calls : ∀ c, opsOf c order <+: callsOf c history
  returns : ∀ c, returnsOf c history <+: resultsOf c order
  inTime : ∀ before, before <+: history → ∃ done, done <+: order ∧
    ∀ c, (returnsOf c before).length ≤ (opsOf c done).length ∧ (opsOf c done).length ≤ (callsOf c before).length

/-- Some order explains the history. -/
def Linearizable (spec : σ → ι → Op → Option (Res × σ)) (s s' : σ) (history : List (Seen ι Op Res)) : Prop :=
  ∃ order, Linearizes spec s s' history order

namespace Linearizes

variable {spec : σ → ι → Op → Option (Res × σ)} {s t s' : σ} {history : List (Seen ι Op Res)}
  {order : List (Done ι Op Res)} {client : ι} {op : Op} {r : Res}

theorem start (s : σ) : Linearizes spec s s ([] : List (Seen ι Op Res)) [] where
  sequence := rfl
  calls c := List.prefix_rfl
  returns c := List.prefix_rfl
  inTime before h := by
    rw [List.prefix_nil.mp h]
    exact ⟨[], List.prefix_rfl, fun c => ⟨le_rfl, le_rfl⟩⟩

theorem sees (h : Linearizes spec s s' history order) {e : Seen ι Op Res}
    (hcalls : ∀ c, opsOf c order <+: callsOf c (history ++ [e]))
    (hreturns : ∀ c, returnsOf c (history ++ [e]) <+: resultsOf c order) :
    Linearizes spec s s' (history ++ [e]) order where
  sequence := h.sequence
  calls := hcalls
  returns := hreturns
  inTime before hbefore := by
    rcases List.prefix_concat_iff.mp hbefore with rfl | hbefore
    · refine ⟨order, List.prefix_rfl, fun c => ⟨?_, (hcalls c).length_le⟩⟩
      rw [← length_resultsOf]
      exact (hreturns c).length_le
    · exact h.inTime before hbefore

theorem called (h : Linearizes spec s s' history order) (client : ι) (op : Op) :
    Linearizes spec s s' (history ++ [.called client op]) order := by
  apply h.sees
  · intro c
    rw [callsOf_append]
    exact (h.calls c).trans (List.prefix_append ..)
  · intro c
    simpa [returnsOf] using h.returns c

theorem effect (h : Linearizes spec s t history order)
    (hcall : opsOf client order ++ [op] <+: callsOf client history) (hspec : spec t client op = some (r, s')) :
    Linearizes spec s s' history (order ++ [⟨client, op, r⟩]) where
  sequence := h.sequence.push hspec
  calls c := by
    by_cases hc : client = c
    · subst hc
      simpa [opsOf] using hcall
    · simpa [opsOf, hc] using h.calls c
  returns c := (h.returns c).trans (by rw [resultsOf_append]; exact List.prefix_append ..)
  inTime before hbefore := by
    obtain ⟨done, hdone, hcounts⟩ := h.inTime before hbefore
    exact ⟨done, hdone.trans (List.prefix_append ..), hcounts⟩

theorem returned (h : Linearizes spec s s' history order)
    (hreturn : returnsOf client history ++ [r] <+: resultsOf client order) :
    Linearizes spec s s' (history ++ [.returned client r]) order := by
  apply h.sees
  · intro c
    simpa [callsOf] using h.calls c
  · intro c
    by_cases hc : client = c
    · subst hc
      simpa [returnsOf] using hreturn
    · simpa [returnsOf, hc] using h.returns c

end Linearizes

/-! ## The object with one step for each effect -/

/-- Where a client is. -/
inductive Phase (Op Res : Type) where
  | idle
  | asked (op : Op)
  | answered (result : Res)
  deriving DecidableEq, Repr

/-- The object, what each client waits for, and the history. -/
structure Atomic (σ ι Op Res : Type) where
  object : σ
  phase : ι → Phase Op Res
  history : List (Seen ι Op Res)

/-- A client calls, its call takes effect, or it returns. -/
inductive Move (ι Op : Type) where
  | call (client : ι) (op : Op)
  | effect (client : ι)
  | return (client : ι)
  deriving DecidableEq, Repr

namespace Atomic

variable (spec : σ → ι → Op → Option (Res × σ))

def step (a : Atomic σ ι Op Res) : Move ι Op → Option (Atomic σ ι Op Res)
  | .call c op =>
    match a.phase c with
    | .idle => some { a with
        phase := Function.update a.phase c (.asked op)
        history := a.history ++ [.called c op] }
    | _ => none
  | .effect c =>
    match a.phase c with
    | .asked op => (spec a.object c op).map fun r =>
        { a with object := r.2, phase := Function.update a.phase c (.answered r.1) }
    | _ => none
  | .return c =>
    match a.phase c with
    | .answered r => some { a with
        phase := Function.update a.phase c .idle
        history := a.history ++ [.returned c r] }
    | _ => none

def start (s : σ) : Atomic σ ι Op Res := ⟨s, fun _ => .idle, []⟩

/-- What the order lacks of the history, by the phase of the client. -/
def Owes (order : List (Done ι Op Res)) (history : List (Seen ι Op Res)) (c : ι) : Phase Op Res → Prop
  | .idle => callsOf c history = opsOf c order ∧ resultsOf c order = returnsOf c history
  | .asked op => callsOf c history = opsOf c order ++ [op] ∧ resultsOf c order = returnsOf c history
  | .answered r => callsOf c history = opsOf c order ∧ resultsOf c order = returnsOf c history ++ [r]

/-- The invariant. -/
def Explained (s : σ) (a : Atomic σ ι Op Res) : Prop :=
  ∃ order, Linearizes spec s a.object a.history order ∧ ∀ c, Owes order a.history c (a.phase c)

variable {spec} {s : σ} {a a' : Atomic σ ι Op Res}

theorem Explained.step (h : Explained spec s a) {m : Move ι Op} (hm : a.step spec m = some a') :
    Explained spec s a' := by
  obtain ⟨order, hlin, howes⟩ := h
  cases m with
  | call c op =>
    have hc := howes c
    cases hp : a.phase c with
    | asked op' => simp [Atomic.step, hp] at hm
    | answered r => simp [Atomic.step, hp] at hm
    | idle =>
      rw [hp] at hc
      obtain rfl : _ = a' := by simpa [Atomic.step, hp] using hm
      refine ⟨order, hlin.called c op, fun c' => ?_⟩
      by_cases hcc : c' = c
      · subst hcc
        simpa [Owes, callsOf, returnsOf] using hc
      · simpa [hcc, Ne.symm hcc, Owes, callsOf, returnsOf] using howes c'
  | effect c =>
    have hc := howes c
    cases hp : a.phase c with
    | idle => simp [Atomic.step, hp] at hm
    | answered r => simp [Atomic.step, hp] at hm
    | asked op =>
      rw [hp] at hc
      simp only [Atomic.step, hp, Option.map_eq_some_iff] at hm
      obtain ⟨⟨r, t⟩, hspec, rfl⟩ := hm
      refine ⟨order ++ [⟨c, op, r⟩], hlin.effect (by rw [hc.1]) hspec, fun c' => ?_⟩
      by_cases hcc : c' = c
      · subst hcc
        simpa [Owes, opsOf, resultsOf] using hc
      · simpa [hcc, Ne.symm hcc, Owes, opsOf, resultsOf] using howes c'
  | «return» c =>
    have hc := howes c
    cases hp : a.phase c with
    | idle => simp [Atomic.step, hp] at hm
    | asked op => simp [Atomic.step, hp] at hm
    | answered r =>
      rw [hp] at hc
      obtain rfl : _ = a' := by simpa [Atomic.step, hp] using hm
      refine ⟨order, hlin.returned (by rw [hc.2]), fun c' => ?_⟩
      by_cases hcc : c' = c
      · subst hcc
        simpa [Owes, callsOf, returnsOf] using hc
      · simpa [hcc, Ne.symm hcc, Owes, callsOf, returnsOf] using howes c'

theorem history_linearizable {moves : List (Move ι Op)} (hrun : run (step spec) (start s) moves = some a) :
    Linearizable spec s a.object a.history := by
  have hstart : Explained spec s (start s : Atomic σ ι Op Res) :=
    ⟨[], .start s, fun c => ⟨rfl, rfl⟩⟩
  obtain ⟨order, h, -⟩ := run_invariant (fun a m a' h hm => h.step hm) hstart hrun
  exact ⟨order, h⟩

end Atomic

end Tiodb.Lib
