import Mathlib.Tactic.Common

/-!
# Machines that take one labelled step at a time

`step s a` is `none` where the step `a` is not enabled. A schedule is a list of
labels, so a statement about every schedule is one about every interleaving, and
the states reached by schedules are all the states of all the runs.
-/

namespace Tiodb.Lib

variable {σ α : Type}

/-- The state after a schedule, if each of its steps is enabled. -/
def run (step : σ → α → Option σ) (s : σ) : List α → Option σ
  | [] => some s
  | a :: as => (step s a).bind fun s' => run step s' as

/-- Each step of the schedule meets `ok` in the state before it. -/
def Meets (step : σ → α → Option σ) (ok : σ → α → Prop) (s : σ) : List α → Prop
  | [] => True
  | a :: as => ok s a ∧ ∀ s', step s a = some s' → Meets step ok s' as

instance Meets.decide (step : σ → α → Option σ) (ok : σ → α → Prop) [∀ s a, Decidable (ok s a)] :
    ∀ (s : σ) (as : List α), Decidable (Meets step ok s as)
  | _, [] => isTrue trivial
  | s, a :: as =>
    match h : step s a with
    | none => decidable_of_iff (ok s a) (by simp [Meets, h])
    | some s' =>
      have := Meets.decide step ok s' as
      decidable_of_iff (ok s a ∧ Meets step ok s' as) (by simp [Meets, h])

variable {step : σ → α → Option σ} {ok : σ → α → Prop} {s s' : σ}

@[simp] theorem run_nil : run step s [] = some s := rfl

theorem run_cons {a : α} {as : List α} :
    run step s (a :: as) = some s' ↔ ∃ t, step s a = some t ∧ run step t as = some s' := by
  simp only [run, Option.bind_eq_some_iff]

theorem run_append {as bs : List α} :
    run step s (as ++ bs) = some s' ↔ ∃ t, run step s as = some t ∧ run step t bs = some s' := by
  induction as generalizing s with
  | nil => simp
  | cons a as ih =>
    simp only [List.cons_append, run_cons, ih]
    constructor
    · rintro ⟨t, ht, u, hu, h⟩
      exact ⟨u, ⟨t, ht, hu⟩, h⟩
    · rintro ⟨u, ⟨t, ht, hu⟩, h⟩
      exact ⟨t, ht, u, hu, h⟩

theorem meets_true (as : List α) : Meets step (fun _ _ => True) s as := by
  induction as generalizing s with
  | nil => trivial
  | cons a as ih => exact ⟨trivial, fun _ _ => ih⟩

theorem meets_append {as bs : List α} (h : Meets step ok s (as ++ bs)) :
    Meets step ok s as ∧ ∀ t, run step s as = some t → Meets step ok t bs := by
  induction as generalizing s with
  | nil => exact ⟨trivial, fun t ht => Option.some.inj ht ▸ h⟩
  | cons a as ih =>
    refine ⟨⟨h.1, fun s' hs => (ih (h.2 s' hs)).1⟩, fun t ht => ?_⟩
    obtain ⟨s', hs, ht⟩ := run_cons.mp ht
    exact (ih (h.2 s' hs)).2 t ht

/-- The run rule: what each step that meets `ok` keeps, a schedule of such steps keeps. -/
theorem run_keeps {I : σ → Prop}
    (hstep : ∀ s a s', I s → ok s a → step s a = some s' → I s') {as : List α}
    (hs : I s) (hm : Meets step ok s as) (hr : run step s as = some s') : I s' := by
  induction as generalizing s with
  | nil =>
    obtain rfl : s = s' := by simpa [run] using hr
    exact hs
  | cons a as ih =>
    obtain ⟨t, ht, hr⟩ := run_cons.mp hr
    exact ih (hstep s a t hs hm.1 ht) (hm.2 t ht) hr

theorem run_invariant {I : σ → Prop} (hstep : ∀ s a s', I s → step s a = some s' → I s')
    {as : List α} (hs : I s) (hr : run step s as = some s') : I s' :=
  run_keeps (fun s a s' h _ => hstep s a s' h) hs (meets_true as) hr

/-- The refinement rule: where each step that meets `ok` is followed by what stands for the state, so is a run. -/
theorem run_refines {τ : Type} {R : σ → τ → Prop} {next : τ → α → τ}
    (hstep : ∀ s t a s', R s t → ok s a → step s a = some s' → R s' (next t a)) {as : List α} {t : τ}
    (hs : R s t) (hm : Meets step ok s as) (hr : run step s as = some s') : R s' (as.foldl next t) := by
  induction as generalizing s t with
  | nil => exact Option.some.inj hr ▸ hs
  | cons a as ih =>
    obtain ⟨u, hu, hr⟩ := run_cons.mp hr
    exact ih (hstep s t a u hs hm.1 hu) (hm.2 u hu) hr

/-- `P` holds in all the states of a run exactly if its steps meet `ok`, where an invariant that gives `P` is
kept by the steps that meet it, and a step that leaves `P` meets it. -/
theorem forall_prefix_iff_meets_of {P I : σ → Prop} {dom : α → Prop} (hP : ∀ s, I s → P s)
    (hkeep : ∀ s a s', I s → dom a → ok s a → step s a = some s' → I s')
    (hmeet : ∀ s a, I s → dom a → (∀ s', step s a = some s' → P s') → ok s a)
    {as : List α} (hdom : ∀ a ∈ as, dom a) (hs : I s) :
    (∀ bs t, bs <+: as → run step s bs = some t → P t) ↔ Meets step ok s as := by
  induction as generalizing s with
  | nil =>
    refine ⟨fun _ => trivial, fun _ bs t hbs ht => ?_⟩
    rw [List.prefix_nil.mp hbs] at ht
    exact Option.some.inj ht ▸ hP s hs
  | cons a as ih =>
    obtain ⟨ha, hrest⟩ := List.forall_mem_cons.mp hdom
    constructor
    · intro h
      have hok : ok s a := hmeet s a hs ha fun s' hs' => h [a] s' ⟨as, rfl⟩ (run_cons.mpr ⟨s', hs', rfl⟩)
      refine ⟨hok, fun s' hs' => ?_⟩
      apply (ih hrest (hkeep s a s' hs ha hok hs')).mp
      intro bs t hbs ht
      exact h (a :: bs) t ((List.prefix_cons_inj a).mpr hbs) (run_cons.mpr ⟨s', hs', ht⟩)
    · rintro ⟨hok, hmeets⟩ bs t hbs ht
      cases bs with
      | nil => exact Option.some.inj ht ▸ hP s hs
      | cons b bs =>
        obtain ⟨rfl, hprefix⟩ := List.cons_prefix_cons.mp hbs
        obtain ⟨s', hs', ht⟩ := run_cons.mp ht
        exact (ih hrest (hkeep s b s' hs ha hok hs')).mpr (hmeets s' hs') bs t hprefix ht

/-- A run goes through where every step from a state of the invariant is enabled. -/
theorem exists_run {I : σ → Prop} {dom : α → Prop}
    (hstep : ∀ s a, I s → dom a → ∃ s', step s a = some s' ∧ I s') {as : List α} (hdom : ∀ a ∈ as, dom a)
    (hs : I s) : ∃ t, run step s as = some t ∧ I t := by
  induction as generalizing s with
  | nil => exact ⟨s, rfl, hs⟩
  | cons a as ih =>
    obtain ⟨ha, hrest⟩ := List.forall_mem_cons.mp hdom
    obtain ⟨s', hs', hI⟩ := hstep s a hs ha
    obtain ⟨t, ht, hI'⟩ := ih hrest hI
    exact ⟨t, run_cons.mpr ⟨s', hs', ht⟩, hI'⟩

/-! ## Messages in flight

A reader takes the messages of a queue in order. `Along` speaks of the messages that
are still in the queue: each will find the reader in a state it needs, and the last
leaves it in a state of `Q`. So what is sent at one end is judged by what the other
end will be by then, and neither has to wait for the other.
-/

section InFlight

variable {ρ μ : Type}

def Along (Needs : ρ → μ → Prop) (next : ρ → μ → ρ) (Q : ρ → Prop) (r : ρ) : List μ → Prop
  | [] => Q r
  | m :: ms => Needs r m ∧ Along Needs next Q (next r m) ms

variable {Needs : ρ → μ → Prop} {next : ρ → μ → ρ} {Q Q' : ρ → Prop} {r r' : ρ} {m : μ} {ms : List μ}

theorem Along.push (h : Along Needs next Q r ms) (hm : ∀ r, Q r → Needs r m ∧ Q' (next r m)) :
    Along Needs next Q' r (ms ++ [m]) := by
  induction ms generalizing r with
  | nil => exact hm r h
  | cons m' ms ih => exact ⟨h.1, ih h.2⟩

/-- Another reader in place of the first, which each message finds as it needs it. -/
theorem Along.sim {R : ρ → ρ → Prop} (h : Along Needs next Q r ms) (hr : R r r')
    (hstep : ∀ r r' m, R r r' → Needs r m → Needs r' m ∧ R (next r m) (next r' m))
    (hQ : ∀ r r', R r r' → Q r → Q' r') : Along Needs next Q' r' ms := by
  induction ms generalizing r r' with
  | nil => exact hQ r r' hr h
  | cons m ms ih =>
    obtain ⟨hm, hr'⟩ := hstep r r' m hr h.1
    exact ⟨hm, ih h.2 hr'⟩

end InFlight

end Tiodb.Lib
