import Tiodb.Lib.Prog

/-!
# Programs that lock a mutex

A thread that locks a mutex it holds goes on if the mutex is recursive. If it is a
plain one it does not, and that is a fault of its own here, apart from exceptions and
from other undefined behaviour. Lock guards unlock on every way out.
-/

namespace Tiodb.Lib

inductive Mutex where
  | plain
  | recursive
  deriving DecidableEq, Repr

inductive Fault (ε : Type) where
  | thrown (e : ε)
  | relocks
  deriving DecidableEq, Repr

/-- `held` counts how often the thread holds the mutex. -/
structure Locked (σ : Type) where
  state : σ
  held : Nat
  deriving DecidableEq, Repr

abbrev LockProg (ε σ : Type) := Prog (Fault ε) (Locked σ)

namespace LockProg

variable {ε σ α β : Type}

/-- How code that does not touch the mutex ends. -/
def lifted (held : Nat) : Outcome ε σ α → Outcome (Fault ε) (Locked σ) α
  | .ok a s => .ok a ⟨s, held⟩
  | .throws e s => .throws (.thrown e) ⟨s, held⟩
  | .undefined => .undefined

def lift (x : Prog ε σ α) : LockProg ε σ α := ⟨fun s => lifted s.held (x.run s.state)⟩

def lockGuard (m : Mutex) (x : LockProg ε σ α) : LockProg ε σ α :=
  ⟨fun s =>
    if m = .plain ∧ 0 < s.held then .throws .relocks s
    else
      match x.run { s with held := s.held + 1 } with
      | .ok a t => .ok a { t with held := t.held - 1 }
      | .throws e t => .throws e { t with held := t.held - 1 }
      | .undefined => .undefined⟩

/-- From a state with the mutex free, the program locks no plain mutex twice, and where it ends the mutex is free. -/
def Disciplined (x : LockProg ε σ α) (s : σ) : Prop :=
  match x.run ⟨s, 0⟩ with
  | .ok _ t => t.held = 0
  | .throws (.thrown _) t => t.held = 0
  | .throws .relocks _ => False
  | .undefined => True

/-! ## Programs without their locks -/

/-- With the mutex free, the program does what the one without the locks does. -/
def Erases (x : LockProg ε σ α) (y : Prog ε σ α) : Prop := ∀ s, x.run ⟨s, 0⟩ = lifted 0 (y.run s)

/-- The same however often the mutex is held. -/
def ErasesAll (x : LockProg ε σ α) (y : Prog ε σ α) : Prop := ∀ s held, x.run ⟨s, held⟩ = lifted held (y.run s)

theorem ErasesAll.erases {x : LockProg ε σ α} {y : Prog ε σ α} (h : ErasesAll x y) : Erases x y := fun s => h s 0

theorem Erases.disciplined {x : LockProg ε σ α} {y : Prog ε σ α} (h : Erases x y) (s : σ) : Disciplined x s := by
  unfold Disciplined
  rw [h s]
  cases y.run s <;> simp [lifted]

theorem erasesAll_lift (y : Prog ε σ α) : ErasesAll (lift y) y := fun _ _ => rfl

theorem ErasesAll.bind {x : LockProg ε σ α} {y : Prog ε σ α} {f : α → LockProg ε σ β} {g : α → Prog ε σ β}
    (hx : ErasesAll x y) (hf : ∀ a, ErasesAll (f a) (g a)) : ErasesAll (x >>= f) (y >>= g) := by
  intro s held
  rw [Prog.run_bind, Prog.run_bind, hx s held]
  cases y.run s with
  | ok a t => exact hf a t held
  | throws e t => rfl
  | undefined => rfl

theorem Erases.bind {x : LockProg ε σ α} {y : Prog ε σ α} {f : α → LockProg ε σ β} {g : α → Prog ε σ β}
    (hx : Erases x y) (hf : ∀ a, Erases (f a) (g a)) : Erases (x >>= f) (y >>= g) := by
  intro s
  rw [Prog.run_bind, Prog.run_bind, hx s]
  cases y.run s with
  | ok a t => exact hf a t
  | throws e t => rfl
  | undefined => rfl

/-- A program that does what some program without locks does. -/
def Erasable (x : LockProg ε σ α) : Prop := ∃ y, Erases x y

theorem Erasable.disciplined {x : LockProg ε σ α} (h : Erasable x) (s : σ) : Disciplined x s :=
  h.choose_spec.disciplined s

theorem Erases.erasable {x : LockProg ε σ α} {y : Prog ε σ α} (h : Erases x y) : Erasable x := ⟨y, h⟩

theorem erasable_pure (a : α) : Erasable (pure a : LockProg ε σ α) := ⟨pure a, fun _ => rfl⟩

theorem erasable_lift (y : Prog ε σ α) : Erasable (lift y) := ⟨y, (erasesAll_lift y).erases⟩

theorem Erasable.bind {x : LockProg ε σ α} {f : α → LockProg ε σ β} (hx : Erasable x) (hf : ∀ a, Erasable (f a)) :
    Erasable (x >>= f) := by
  obtain ⟨y, hy⟩ := hx
  choose g hg using hf
  exact ⟨y >>= g, hy.bind hg⟩

theorem run_lockGuard {m : Mutex} (x : LockProg ε σ α) (s : σ) {held : Nat} (h : ¬(m = .plain ∧ 0 < held)) :
    (lockGuard m x).run ⟨s, held⟩ =
      match x.run ⟨s, held + 1⟩ with
      | .ok a t => .ok a { t with held := t.held - 1 }
      | .throws e t => .throws e { t with held := t.held - 1 }
      | .undefined => .undefined :=
  if_neg h

/-- A section that locks nothing itself may be guarded by either mutex. -/
theorem ErasesAll.lockGuard_free {x : LockProg ε σ α} {y : Prog ε σ α} (h : ErasesAll x y) (m : Mutex) :
    Erases (lockGuard m x) y := by
  intro s
  rw [run_lockGuard x s (by simp), h s 1]
  cases y.run s <;> rfl

theorem erasable_section (m : Mutex) (y : Prog ε σ α) : Erasable (lockGuard m (lift y)) :=
  ⟨y, (erasesAll_lift y).lockGuard_free m⟩

theorem ErasesAll.lockGuard_recursive {x : LockProg ε σ α} {y : Prog ε σ α} (h : ErasesAll x y) :
    ErasesAll (lockGuard .recursive x) y := by
  intro s held
  rw [run_lockGuard x s (by simp), h s (held + 1)]
  cases y.run s <;> rfl

/-- What is left of a run when the mutex is left out. -/
def unlocked : Outcome (Fault ε) (Locked σ) α → Outcome ε σ α
  | .ok a t => .ok a t.state
  | .throws (.thrown e) t => .throws e t.state
  | .throws .relocks _ => .undefined
  | .undefined => .undefined

/-! ## Runs -/

theorem run_lift_ok {x : Prog ε σ α} {s t : σ} {a : α} (h : x.run s = .ok a t) (held : Nat) :
    (lift x).run ⟨s, held⟩ = .ok a ⟨t, held⟩ := by
  simp only [lift, h, lifted]

theorem run_lift_throws {x : Prog ε σ α} {s t : σ} {e : ε} (h : x.run s = .throws e t) (held : Nat) :
    (lift x).run ⟨s, held⟩ = .throws (.thrown e) ⟨t, held⟩ := by
  simp only [lift, h, lifted]

theorem run_lockGuard_ok (m : Mutex) {x : LockProg ε σ α} {s t : σ} {a : α} (h : x.run ⟨s, 1⟩ = .ok a ⟨t, 1⟩) :
    (lockGuard m x).run ⟨s, 0⟩ = .ok a ⟨t, 0⟩ := by
  rw [run_lockGuard x s (by simp), h]
  rfl

theorem run_lockGuard_fault (m : Mutex) {x : LockProg ε σ α} {s t : σ} {e : Fault ε}
    (h : x.run ⟨s, 1⟩ = .throws e ⟨t, 1⟩) : (lockGuard m x).run ⟨s, 0⟩ = .throws e ⟨t, 0⟩ := by
  rw [run_lockGuard x s (by simp), h]
  rfl

theorem Disciplined.of_thrown {x : LockProg ε σ α} {s t : σ} {e : ε} (h : x.run ⟨s, 0⟩ = .throws (.thrown e) ⟨t, 0⟩) :
    Disciplined x s := by
  unfold Disciplined
  rw [h]

theorem not_disciplined_of_relocks {x : LockProg ε σ α} {s : σ} {t : Locked σ}
    (h : x.run ⟨s, 0⟩ = .throws .relocks t) : ¬ Disciplined x s := by
  unfold Disciplined
  rw [h]
  exact id

theorem run_lockGuard_held (x : LockProg ε σ α) (s : σ) {held : Nat} (h : 0 < held) :
    (lockGuard .plain x).run ⟨s, held⟩ = .throws .relocks ⟨s, held⟩ :=
  if_pos ⟨rfl, h⟩

/-! ## Programs that throw before they change anything -/

theorem lift_reads {x : Prog ε σ α} (h : x.Reads) : (lift x).Reads := by
  rintro ⟨s, held⟩ t ht
  simp only [lift] at ht
  cases hr : x.run s with
  | undefined =>
    rw [hr] at ht
    cases ht
  | ok a s' =>
    rw [hr] at ht
    rw [← Option.some.inj ht, h s s' (by rw [hr]; rfl)]
  | throws e s' =>
    rw [hr] at ht
    rw [← Option.some.inj ht, h s s' (by rw [hr]; rfl)]

theorem lift_atomic {x : Prog ε σ α} (h : x.Atomic) : (lift x).Atomic := by
  rintro ⟨s, held⟩ t e ht
  simp only [lift] at ht
  cases hr : x.run s with
  | undefined =>
    rw [hr] at ht
    cases ht
  | ok a s' =>
    rw [hr] at ht
    cases ht
  | throws e' s' =>
    rw [hr] at ht
    rw [← (Outcome.throws.inj ht).2, h s s' e' hr]

theorem lift_neverThrows {x : Prog ε σ α} (h : x.NeverThrows) : (lift x).NeverThrows := by
  rintro ⟨s, held⟩ t e ht
  simp only [lift] at ht
  cases hr : x.run s with
  | undefined =>
    rw [hr] at ht
    cases ht
  | ok a s' =>
    rw [hr] at ht
    cases ht
  | throws e' s' => exact h s s' e' hr

/-- With a recursive mutex, a guard changes how often it is held and nothing else. -/
theorem run_lockGuard_recursive (x : LockProg ε σ α) (s : Locked σ) :
    (lockGuard .recursive x).run s =
      (x.run { s with held := s.held + 1 }).mapState fun t => { t with held := t.held - 1 } := by
  rw [run_lockGuard x s.state (by simp)]
  cases x.run { s with held := s.held + 1 } <;> rfl

theorem lockGuard_reads {x : LockProg ε σ α} (h : x.Reads) : (lockGuard .recursive x).Reads := by
  intro s t ht
  rw [run_lockGuard_recursive, Outcome.mapState_next] at ht
  obtain ⟨u, hu, rfl⟩ := Option.map_eq_some_iff.mp ht
  rw [h _ u hu]
  rfl

theorem lockGuard_atomic {x : LockProg ε σ α} (h : x.Atomic) : (lockGuard .recursive x).Atomic := by
  intro s t e ht
  rw [run_lockGuard_recursive] at ht
  obtain ⟨u, hu, rfl⟩ := Outcome.mapState_throws ht
  rw [h _ u e hu]
  rfl

theorem lockGuard_neverThrows {x : LockProg ε σ α} (h : x.NeverThrows) : (lockGuard .recursive x).NeverThrows := by
  intro s t e ht
  rw [run_lockGuard_recursive] at ht
  obtain ⟨u, hu, -⟩ := Outcome.mapState_throws ht
  exact h _ u e hu

end LockProg

end Tiodb.Lib
