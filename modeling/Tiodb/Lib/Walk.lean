import Mathlib.Data.Set.Finite.Basic
import Mathlib.Tactic.Common

/-!
# Walks of a partial function

A partial function from places to places, followed from a place until it gives none.
Where it can reach only finitely many places, it ends exactly if it comes back to none.
-/

namespace Tiodb.Lib

variable {α : Type} {f : α → Option α} {a b : α} {j k : Nat}

def walk (f : α → Option α) : Nat → α → Option α
  | 0, a => some a
  | k + 1, a => (f a).bind (walk f k)

def ComesBack (f : α → Option α) (a : α) : Prop :=
  ∃ j k b, j < k ∧ walk f j a = some b ∧ walk f k a = some b

@[simp] theorem walk_zero : walk f 0 a = some a := rfl

theorem walk_succ : walk f (k + 1) a = (f a).bind (walk f k) := rfl

theorem walk_add (j k : Nat) : walk f (j + k) a = (walk f j a).bind (walk f k) := by
  induction j generalizing a with
  | zero => simp
  | succ j ih =>
    rw [show j + 1 + k = (j + k) + 1 by omega, walk_succ, walk_succ, Option.bind_assoc]
    exact congrArg _ (funext fun b => ih)

theorem walk_eq_none_of_le (h : walk f j a = none) (hjk : j ≤ k) : walk f k a = none := by
  rw [← Nat.add_sub_cancel' hjk, walk_add, h, Option.bind_none]

theorem ComesBack.walk_ne_none (h : ComesBack f a) (k : Nat) : walk f k a ≠ none := by
  obtain ⟨i, j, b, hij, hi, hj⟩ := h
  have hround : walk f (j - i) b = some b := by
    rw [← Nat.add_sub_cancel' hij.le, walk_add, hi] at hj
    exact hj
  have hrounds : ∀ n, walk f (n * (j - i)) b = some b := by
    intro n
    induction n with
    | zero => rw [Nat.zero_mul, walk_zero]
    | succ n ih => rw [Nat.succ_mul, walk_add, ih, Option.bind_some, hround]
  intro hk
  have hlong : k ≤ i + k * (j - i) := Nat.le_add_left_of_le (Nat.le_mul_of_pos_right k (by omega))
  have hnone := walk_eq_none_of_le hk hlong
  rw [walk_add, hi, Option.bind_some, hrounds] at hnone
  exact Option.some_ne_none b hnone

theorem exists_walk_eq_none {s : Set α} (hs : s.Finite) (hwalk : ∀ k b, walk f k a = some b → b ∈ s)
    (h : ¬ ComesBack f a) : ∃ k, walk f k a = none := by
  by_contra hnever
  push Not at hnever
  have hplace : ∀ k, ∃ b, walk f k a = some b := fun k => Option.ne_none_iff_exists'.mp (hnever k)
  choose place hplace using hplace
  have hinj : Function.Injective place := by
    intro j k hjk
    by_contra hne
    rcases Nat.lt_or_gt_of_ne hne with hlt | hlt
    · exact h ⟨j, k, place k, hlt, hjk ▸ hplace j, hplace k⟩
    · exact h ⟨k, j, place k, hlt, hplace k, hjk ▸ hplace j⟩
  exact Set.infinite_of_injective_forall_mem hinj (fun k => hwalk k _ (hplace k)) hs

theorem walk_mem {s : Set α} (ha : a ∈ s) (hf : ∀ b c, b ∈ s → f b = some c → c ∈ s) {k : Nat} {b : α}
    (h : walk f k a = some b) : b ∈ s := by
  induction k generalizing a with
  | zero => exact Option.some.inj h ▸ ha
  | succ k ih =>
    obtain ⟨c, hc, hk⟩ := Option.bind_eq_some_iff.mp h
    exact ih (hf a c ha hc) hk

/-- Inside a finite set, a walk ends exactly if it comes back to no place. -/
theorem walk_ends_iff {s : Set α} (hs : s.Finite) (ha : a ∈ s) (hf : ∀ b c, b ∈ s → f b = some c → c ∈ s) :
    (∃ k, walk f k a = none) ↔ ¬ ComesBack f a := by
  constructor
  · rintro ⟨k, hk⟩ hback
    exact hback.walk_ne_none k hk
  · exact exists_walk_eq_none hs fun k b => walk_mem ha hf

end Tiodb.Lib
