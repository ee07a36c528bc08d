import Mathlib.Tactic.Common

/-!
# Programs that call

A program over an interface: it has no state but what it is given, and reaches everything
else by calls. What serves the calls is a parameter. Two servers that answer alike, and
stay related, run every program alike.
-/

namespace Tiodb.Lib

/-- `stuck` is a program that cannot go on. -/
inductive Calling {Call : Type} (Answer : Call → Type) (α : Type) : Type
  | pure (a : α)
  | stuck
  | call (c : Call) (next : Answer c → Calling Answer α)

/-- What answers the calls. `none` is a call that it cannot serve. -/
abbrev Responder {Call : Type} (Answer : Call → Type) (σ : Type) : Type :=
  (c : Call) → σ → Option (Answer c × σ)

namespace Calling

variable {Call : Type} {Answer : Call → Type} {σ τ α β : Type}

def bind (x : Calling Answer α) (f : α → Calling Answer β) : Calling Answer β :=
  match x with
  | .pure a => f a
  | .stuck => .stuck
  | .call c next => .call c fun r => (next r).bind f

instance : Monad (Calling Answer) where
  pure := .pure
  bind := bind

def ask (c : Call) : Calling Answer (Answer c) := .call c .pure

def ofOption : Option α → Calling Answer α
  | some a => .pure a
  | none => .stuck

def run (server : Responder Answer σ) : Calling Answer α → σ → Option (α × σ)
  | .pure a, s => some (a, s)
  | .stuck, _ => none
  | .call c next, s => (server c s).bind fun r => (next r.1).run server r.2

section Run

variable {server : Responder Answer σ} {s s' : σ}

@[simp] theorem run_pure (a : α) (s : σ) : (pure a : Calling Answer α).run server s = some (a, s) := rfl

@[simp] theorem run_stuck (s : σ) : (stuck : Calling Answer α).run server s = none := rfl

@[simp] theorem run_ask (c : Call) (s : σ) : (ask c : Calling Answer (Answer c)).run server s = server c s := by
  unfold ask
  simp only [run]
  exact Option.bind_fun_some _

@[simp] theorem run_ofOption (a : Option α) (s : σ) :
    (ofOption a : Calling Answer α).run server s = a.map fun a => (a, s) := by
  cases a <;> rfl

@[simp] theorem run_bind (x : Calling Answer α) (f : α → Calling Answer β) (s : σ) :
    (x >>= f).run server s = (x.run server s).bind fun r => (f r.1).run server r.2 := by
  change (x.bind f).run server s = _
  induction x generalizing s with
  | pure a => rfl
  | stuck => rfl
  | call c next ih =>
    simp only [bind, run]
    cases server c s with
    | none => rfl
    | some r => exact ih r.1 r.2

theorem run_bind_of {x : Calling Answer α} {a : α} (h : x.run server s = some (a, s')) (f : α → Calling Answer β) :
    (x >>= f).run server s = (f a).run server s' := by
  rw [run_bind, h]
  rfl

end Run

/-! ## Two servers -/

/-- What the first server serves, the second serves with the same answer. -/
def Follows (R : σ → τ → Prop) (first : Responder Answer σ) (second : Responder Answer τ) : Prop :=
  ∀ {c s t r s'}, R s t → first c s = some (r, s') → ∃ t', second c t = some (r, t') ∧ R s' t'

theorem Follows.run {R : σ → τ → Prop} {first : Responder Answer σ} {second : Responder Answer τ}
    (h : Follows R first second) {x : Calling Answer α} {s s' : σ} {t : τ} {a : α} (hR : R s t)
    (hx : x.run first s = some (a, s')) : ∃ t', x.run second t = some (a, t') ∧ R s' t' := by
  induction x generalizing s t with
  | pure b =>
    obtain ⟨rfl, rfl⟩ := Prod.mk.inj (Option.some.inj hx)
    exact ⟨t, rfl, hR⟩
  | stuck => cases hx
  | call c next ih =>
    obtain ⟨⟨r, s₁⟩, hs₁, hrest⟩ := Option.bind_eq_some_iff.mp hx
    obtain ⟨t₁, ht₁, hR₁⟩ := h hR hs₁
    obtain ⟨t', ht', hR'⟩ := ih r hR₁ hrest
    exact ⟨t', Option.bind_eq_some_iff.mpr ⟨(r, t₁), ht₁, ht'⟩, hR'⟩

end Calling

end Tiodb.Lib
