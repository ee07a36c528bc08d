import Mathlib.Tactic.Common

/-!
# Programs with state, exceptions and undefined behaviour

A small language for shallow embeddings of C and C++. An exception keeps the
state it was thrown in, as there is no roll back. `undefined` has no state:
after a dangling read, or a mutex locked twice, nothing is promised.
-/

namespace Tiodb.Lib

inductive Outcome (ε σ α : Type) where
  | ok (a : α) (s : σ)
  | throws (e : ε) (s : σ)
  | undefined
  deriving DecidableEq, Repr

/-- The state the caller goes on with, whether or not it has to catch something. -/
def Outcome.next {ε σ α : Type} : Outcome ε σ α → Option σ
  | .ok _ s => some s
  | .throws _ s => some s
  | .undefined => none

def Outcome.mapState {ε σ τ α : Type} (f : σ → τ) : Outcome ε σ α → Outcome ε τ α
  | .ok a s => .ok a (f s)
  | .throws e s => .throws e (f s)
  | .undefined => .undefined

def Outcome.result {ε σ α : Type} : Outcome ε σ α → Option (Except ε α)
  | .ok a _ => some (.ok a)
  | .throws e _ => some (.error e)
  | .undefined => none

namespace Outcome

variable {ε σ τ α : Type} {f : σ → τ} {o : Outcome ε σ α} {t : τ}

theorem mapState_ok {a : α} (h : o.mapState f = .ok a t) : ∃ s, o = .ok a s ∧ t = f s := by
  cases o with
  | ok a' s =>
    obtain ⟨rfl, rfl⟩ := Outcome.ok.inj h
    exact ⟨s, rfl, rfl⟩
  | throws e s => cases h
  | undefined => cases h

theorem mapState_throws {e : ε} (h : o.mapState f = .throws e t) : ∃ s, o = .throws e s ∧ t = f s := by
  cases o with
  | ok a s => cases h
  | throws e' s =>
    obtain ⟨rfl, rfl⟩ := Outcome.throws.inj h
    exact ⟨s, rfl, rfl⟩
  | undefined => cases h

theorem mapState_next (f : σ → τ) (o : Outcome ε σ α) : (o.mapState f).next = o.next.map f := by
  cases o <;> rfl

end Outcome

structure Prog (ε σ α : Type) where
  run : σ → Outcome ε σ α

namespace Prog

variable {ε σ α β : Type}

instance : Monad (Prog ε σ) where
  pure a := ⟨fun s => .ok a s⟩
  bind x f := ⟨fun s =>
    match x.run s with
    | .ok a s' => (f a).run s'
    | .throws e s' => .throws e s'
    | .undefined => .undefined⟩

instance : MonadStateOf σ (Prog ε σ) where
  get := ⟨fun s => .ok s s⟩
  set s := ⟨fun _ => .ok ⟨⟩ s⟩
  modifyGet f := ⟨fun s => .ok (f s).1 (f s).2⟩

instance : MonadExceptOf ε (Prog ε σ) where
  throw e := ⟨fun s => .throws e s⟩
  tryCatch x h := ⟨fun s =>
    match x.run s with
    | .throws e s' => (h e).run s'
    | o => o⟩

/-- What a program does when the language says nothing about it. -/
def undefined : Prog ε σ α := ⟨fun _ => .undefined⟩

def ofExcept : Except ε α → Prog ε σ α
  | .ok a => pure a
  | .error e => throw e

@[simp] theorem run_pure (a : α) (s : σ) : (pure a : Prog ε σ α).run s = .ok a s := rfl

@[simp] theorem run_get (s : σ) : (get : Prog ε σ σ).run s = .ok s s := rfl

@[simp] theorem run_modify (f : σ → σ) (s : σ) : (modify f : Prog ε σ PUnit).run s = .ok ⟨⟩ (f s) := rfl

@[simp] theorem run_throw (e : ε) (s : σ) : (throw e : Prog ε σ α).run s = .throws e s := rfl

@[simp] theorem run_undefined (s : σ) : (undefined : Prog ε σ α).run s = .undefined := rfl

@[simp] theorem run_ofExcept_ok (a : α) (s : σ) :
    (ofExcept (.ok a) : Prog ε σ α).run s = .ok a s := rfl

@[simp] theorem run_ofExcept_error (e : ε) (s : σ) :
    (ofExcept (.error e) : Prog ε σ α).run s = .throws e s := rfl

theorem run_bind (x : Prog ε σ α) (f : α → Prog ε σ β) (s : σ) :
    (x >>= f).run s =
      match x.run s with
      | .ok a s' => (f a).run s'
      | .throws e s' => .throws e s'
      | .undefined => .undefined := rfl

theorem run_bind_ok (x : Prog ε σ α) (f : α → Prog ε σ β) {s s' : σ} {a : α}
    (h : x.run s = .ok a s') : (x >>= f).run s = (f a).run s' := by
  rw [run_bind, h]

theorem run_bind_throws (x : Prog ε σ α) (f : α → Prog ε σ β) {s s' : σ} {e : ε}
    (h : x.run s = .throws e s') : (x >>= f).run s = .throws e s' := by
  rw [run_bind, h]

protected theorem bind_assoc {γ : Type} (x : Prog ε σ α) (f : α → Prog ε σ β) (g : β → Prog ε σ γ) :
    x >>= f >>= g = x >>= fun a => f a >>= g := by
  apply congrArg Prog.mk
  funext s
  change (match (x >>= f).run s with | .ok a s' => _ | .throws e s' => _ | .undefined => _) = _
  rw [run_bind]
  cases x.run s <;> rfl

@[simp] theorem run_pure_bind (a : α) (f : α → Prog ε σ β) (s : σ) :
    (pure a >>= f).run s = (f a).run s := rfl

@[simp] theorem run_get_bind (f : σ → Prog ε σ β) (s : σ) : (get >>= f).run s = (f s).run s := rfl

@[simp] theorem run_modify_bind (g : σ → σ) (f : PUnit → Prog ε σ β) (s : σ) :
    (modify g >>= f).run s = (f ⟨⟩).run (g s) := rfl

theorem run_tryCatch (x : Prog ε σ α) (h : ε → Prog ε σ α) (s : σ) :
    (tryCatch x h).run s =
      match x.run s with
      | .throws e s' => (h e).run s'
      | o => o := rfl

/-! ## Programs that change nothing -/

/-- However it ends, the program leaves the state as it was. -/
def Reads (x : Prog ε σ α) : Prop := ∀ s s', (x.run s).next = some s' → s' = s

theorem reads_pure (a : α) : Reads (pure a : Prog ε σ α) := fun _ _ h => (Option.some.inj h).symm

theorem reads_get : Reads (get : Prog ε σ σ) := fun _ _ h => (Option.some.inj h).symm

theorem reads_throw (e : ε) : Reads (throw e : Prog ε σ α) := fun _ _ h => (Option.some.inj h).symm

theorem reads_undefined : Reads (undefined : Prog ε σ α) := fun _ _ h => nomatch h

theorem reads_ofExcept (x : Except ε α) : Reads (ofExcept x : Prog ε σ α) := by
  cases x with
  | ok a => exact reads_pure a
  | error e => exact reads_throw e

theorem Reads.bind {x : Prog ε σ α} {f : α → Prog ε σ β} (hx : Reads x) (hf : ∀ a, Reads (f a)) :
    Reads (x >>= f) := by
  intro s s' h
  rw [run_bind] at h
  cases hr : x.run s with
  | ok a t =>
    obtain rfl : t = s := hx s t (by rw [hr]; rfl)
    rw [hr] at h
    exact hf a _ s' h
  | throws e t =>
    rw [hr] at h
    exact hx s s' (by rw [hr]; exact h)
  | undefined =>
    rw [hr] at h
    cases h

/-! ## Programs that leave a part of the state alone -/

/-- However it ends, the program leaves `f` of the state as it was. -/
def Keeps {τ : Type} (f : σ → τ) (x : Prog ε σ α) : Prop := ∀ s s', (x.run s).next = some s' → f s' = f s

theorem Reads.keeps {τ : Type} {x : Prog ε σ α} (h : Reads x) (f : σ → τ) : Keeps f x :=
  fun s s' hs => congrArg f (h s s' hs)

theorem keeps_modify {τ : Type} {f : σ → τ} {g : σ → σ} (h : ∀ s, f (g s) = f s) :
    Keeps f (modify g : Prog ε σ PUnit) := fun s s' hs => by
  obtain rfl : g s = s' := Option.some.inj hs
  exact h s

theorem Keeps.bind {τ : Type} {f : σ → τ} {x : Prog ε σ α} {g : α → Prog ε σ β} (hx : Keeps f x)
    (hg : ∀ a, Keeps f (g a)) : Keeps f (x >>= g) := by
  intro s s' h
  rw [run_bind] at h
  cases hr : x.run s with
  | ok a t =>
    rw [hr] at h
    exact (hg a t s' h).trans (hx s t (by rw [hr]; rfl))
  | throws e t =>
    rw [hr] at h
    exact hx s s' (by rw [hr]; exact h)
  | undefined =>
    rw [hr] at h
    cases h

/-! ## Programs that throw before they change anything -/

/-- An exception leaves the state as it was. -/
def Atomic (x : Prog ε σ α) : Prop := ∀ s s' e, x.run s = .throws e s' → s' = s

def NeverThrows (x : Prog ε σ α) : Prop := ∀ s s' e, x.run s ≠ .throws e s'

theorem Reads.atomic {x : Prog ε σ α} (h : Reads x) : Atomic x := fun s s' e he => h s s' (by rw [he]; rfl)

theorem NeverThrows.atomic {x : Prog ε σ α} (h : NeverThrows x) : Atomic x := fun s s' e he => absurd he (h s s' e)

theorem neverThrows_pure (a : α) : NeverThrows (pure a : Prog ε σ α) := fun _ _ _ h => nomatch h

theorem neverThrows_modify (f : σ → σ) : NeverThrows (modify f : Prog ε σ PUnit) := fun _ _ _ h => nomatch h

theorem NeverThrows.bind {x : Prog ε σ α} {f : α → Prog ε σ β} (hx : NeverThrows x) (hf : ∀ a, NeverThrows (f a)) :
    NeverThrows (x >>= f) := by
  intro s s' e h
  rw [run_bind] at h
  cases hr : x.run s with
  | ok a t =>
    rw [hr] at h
    exact hf a t s' e h
  | throws e' t => exact hx s t e' hr
  | undefined =>
    rw [hr] at h
    cases h

theorem Reads.bind_atomic {x : Prog ε σ α} {f : α → Prog ε σ β} (hx : Reads x) (hf : ∀ a, Atomic (f a)) :
    Atomic (x >>= f) := by
  intro s s' e h
  rw [run_bind] at h
  cases hr : x.run s with
  | ok a t =>
    obtain rfl : t = s := hx s t (by rw [hr]; rfl)
    rw [hr] at h
    exact hf a t s' e h
  | throws e' t =>
    rw [hr] at h
    exact hx s s' (by rw [hr]; exact congrArg Outcome.next h)
  | undefined =>
    rw [hr] at h
    cases h

theorem Atomic.bind_neverThrows {x : Prog ε σ α} {f : α → Prog ε σ β} (hx : Atomic x) (hf : ∀ a, NeverThrows (f a)) :
    Atomic (x >>= f) := by
  intro s s' e h
  rw [run_bind] at h
  cases hr : x.run s with
  | ok a t =>
    rw [hr] at h
    exact absurd h (hf a t s' e)
  | throws e' t =>
    rw [hr] at h
    obtain ⟨-, rfl⟩ := Outcome.throws.inj h
    exact hx s t e' hr
  | undefined =>
    rw [hr] at h
    cases h

/-! ## What a program gives -/

/-- Where the program returns, its value is one of `P`. -/
def Gives (P : α → Prop) (x : Prog ε σ α) : Prop := ∀ s a s', x.run s = .ok a s' → P a

variable {P : α → Prop}

theorem gives_pure {a : α} (h : P a) : Gives P (pure a : Prog ε σ α) := fun _ _ _ hs => (Outcome.ok.inj hs).1 ▸ h

theorem gives_throw (e : ε) : Gives P (throw e : Prog ε σ α) := fun _ _ _ hs => nomatch hs

theorem gives_undefined : Gives P (undefined : Prog ε σ α) := fun _ _ _ hs => nomatch hs

theorem gives_bind {x : Prog ε σ β} {f : β → Prog ε σ α} (hf : ∀ b, Gives P (f b)) : Gives P (x >>= f) := by
  intro s a s' h
  rw [run_bind] at h
  cases hr : x.run s with
  | ok b t =>
    rw [hr] at h
    exact hf b t a s' h
  | throws e t =>
    rw [hr] at h
    cases h
  | undefined =>
    rw [hr] at h
    cases h

end Prog

end Tiodb.Lib
