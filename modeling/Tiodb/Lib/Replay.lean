import Mathlib.Tactic.Common

/-!
# Replaying events

A copy of some data is kept up to date by applying, in order, the events that were
published for it. An event that cannot be applied ends the replay.
-/

namespace Tiodb.Lib

variable {σ ε : Type}

def replay (apply : σ → ε → Option σ) (s : σ) (es : List ε) : Option σ := es.foldlM apply s

variable {apply : σ → ε → Option σ} {s s' : σ} {e : ε} {es fs : List ε}

@[simp] theorem replay_nil : replay apply s [] = some s := rfl

theorem replay_cons : replay apply s (e :: es) = (apply s e).bind fun t => replay apply t es :=
  List.foldlM_cons

theorem replay_append : replay apply s (es ++ fs) = (replay apply s es).bind fun t => replay apply t fs :=
  List.foldlM_append

theorem replay_concat (e : ε) (h : replay apply s es = some s') :
    replay apply s (es ++ [e]) = apply s' e := by
  rw [replay_append, h]
  exact bind_pure _

def Commute (apply : σ → ε → Option σ) (e f : ε) : Prop :=
  ∀ s, (apply s e).bind (apply · f) = (apply s f).bind (apply · e)

/-- An event may be published before others it commutes with. -/
theorem replay_move (h : ∀ f ∈ es, Commute apply f e) :
    replay apply s (es ++ e :: fs) = replay apply s (e :: (es ++ fs)) := by
  induction es generalizing s with
  | nil => rfl
  | cons f es ih =>
    have hfe := h f (by simp) s
    calc replay apply s (f :: es ++ e :: fs)
        = (apply s f).bind fun t => replay apply t (es ++ e :: fs) := replay_cons
      _ = (apply s f).bind fun t => replay apply t (e :: (es ++ fs)) := by
          congr 1
          funext t
          exact ih fun g hg => h g (by simp [hg])
      _ = ((apply s f).bind (apply · e)).bind fun t => replay apply t (es ++ fs) := by
          simp only [replay_cons, Option.bind_assoc]
      _ = ((apply s e).bind (apply · f)).bind fun t => replay apply t (es ++ fs) := by rw [hfe]
      _ = replay apply s (e :: (f :: es ++ fs)) := by
          simp only [List.cons_append, replay_cons, Option.bind_assoc]

end Tiodb.Lib
