import Tiodb.Lib.Prog

/-!
# Programs that agree on a part of the state

Two programs are run from states that look the same through `f`. They agree if both
end the same way, in states that look the same again. What `f` hides may differ
before, and may be changed by one program and not by the other.
-/

namespace Tiodb.Lib

namespace Outcome

variable {ε σ τ α : Type} {f : σ → τ} {o p : Outcome ε σ α} {t : σ}

theorem ok_of_mapState_eq {a : α} (h : o.mapState f = p.mapState f) (ho : o = .ok a t) :
    ∃ u, p = .ok a u ∧ f u = f t := by
  rw [ho] at h
  obtain ⟨u, hu, hf⟩ := mapState_ok h.symm
  exact ⟨u, hu, hf.symm⟩

theorem mapState_congr {σ' τ' : Type} {f' : σ' → τ'} {g g' : σ → σ'} (hg : ∀ s t, f s = f t → f' (g s) = f' (g' t))
    (h : o.mapState f = p.mapState f) : (o.mapState g).mapState f' = (p.mapState g').mapState f' := by
  cases o with
  | ok a s =>
    obtain ⟨t, rfl, ht⟩ := mapState_ok h.symm
    exact congrArg (Outcome.ok a) (hg s t ht)
  | throws e s =>
    obtain ⟨t, rfl, ht⟩ := mapState_throws h.symm
    exact congrArg (Outcome.throws e) (hg s t ht)
  | undefined =>
    cases p with
    | undefined => rfl
    | ok a t => cases h
    | throws e t => cases h

end Outcome

namespace Prog

variable {ε σ τ α β : Type} {f : σ → τ} {x y : Prog ε σ α} {k k' : α → Prog ε σ β}

def Agree (f : σ → τ) (x y : Prog ε σ α) : Prop :=
  ∀ s t, f s = f t → (x.run s).mapState f = (y.run t).mapState f

theorem agree_pure (a : α) : Agree f (pure a : Prog ε σ α) (pure a) := by
  intro s t h
  simp [Outcome.mapState, h]

theorem agree_throw (e : ε) : Agree f (throw e : Prog ε σ α) (throw e) := by
  intro s t h
  simp [Outcome.mapState, h]

theorem agree_undefined : Agree f (undefined : Prog ε σ α) undefined := fun _ _ _ => rfl

theorem agree_ofExcept (r : Except ε α) : Agree f (ofExcept r : Prog ε σ α) (ofExcept r) := by
  cases r with
  | ok a => exact agree_pure a
  | error e => exact agree_throw e

theorem agree_modify {g g' : σ → σ} (h : ∀ s t, f s = f t → f (g s) = f (g' t)) :
    Agree f (modify g : Prog ε σ PUnit) (modify g') := by
  intro s t hst
  simp [Outcome.mapState, h s t hst]

theorem Agree.bind (hx : Agree f x y) (hk : ∀ a, Agree f (k a) (k' a)) : Agree f (x >>= k) (y >>= k') := by
  intro s t h
  have hxy := hx s t h
  rw [run_bind, run_bind]
  cases hr : x.run s with
  | ok a s' =>
    obtain ⟨t', ht, hf⟩ := Outcome.ok_of_mapState_eq hxy hr
    rw [ht]
    exact hk a s' t' hf.symm
  | throws e s' =>
    rw [hr] at hxy
    obtain ⟨t', ht, hf⟩ := Outcome.mapState_throws hxy.symm
    rw [ht]
    exact congrArg (Outcome.throws e) hf
  | undefined =>
    rw [hr] at hxy
    cases ht : y.run t with
    | undefined => rfl
    | ok a t' =>
      rw [ht] at hxy
      cases hxy
    | throws e t' =>
      rw [ht] at hxy
      cases hxy

/-- What is read may differ; the rest has to agree all the same. -/
theorem agree_get_bind {k k' : σ → Prog ε σ β} (h : ∀ s t, f s = f t → Agree f (k s) (k' t)) :
    Agree f (get >>= k) (get >>= k') := by
  intro s t hst
  exact h s t hst s t hst

/-! ## Programs that agree, and leave a part of the state alone -/

/-- The two agree on `f`, and the first leaves `g` of the state as it was. -/
structure Matches {υ : Type} (f : σ → τ) (g : σ → υ) (x y : Prog ε σ α) : Prop where
  agree : Agree f x y
  keeps : x.Keeps g

variable {υ : Type} {g : σ → υ}

theorem matches_pure (a : α) : Matches f g (pure a : Prog ε σ α) (pure a) := ⟨agree_pure a, (reads_pure a).keeps g⟩

theorem matches_throw (e : ε) : Matches f g (throw e : Prog ε σ α) (throw e) := ⟨agree_throw e, (reads_throw e).keeps g⟩

theorem matches_undefined : Matches f g (undefined : Prog ε σ α) undefined := ⟨agree_undefined, reads_undefined.keeps g⟩

theorem matches_ofExcept (r : Except ε α) : Matches f g (ofExcept r : Prog ε σ α) (ofExcept r) :=
  ⟨agree_ofExcept r, (reads_ofExcept r).keeps g⟩

theorem matches_modify {u u' : σ → σ} (h : ∀ s t, f s = f t → f (u s) = f (u' t)) (hg : ∀ s, g (u s) = g s) :
    Matches f g (modify u : Prog ε σ PUnit) (modify u') := ⟨agree_modify h, keeps_modify hg⟩

theorem Matches.bind (hx : Matches f g x y) (hk : ∀ a, Matches f g (k a) (k' a)) : Matches f g (x >>= k) (y >>= k') :=
  ⟨hx.agree.bind fun a => (hk a).agree, hx.keeps.bind fun a => (hk a).keeps⟩

theorem matches_get_bind {k k' : σ → Prog ε σ β} (h : ∀ s t, f s = f t → Matches f g (k s) (k' t)) :
    Matches f g (get >>= k) (get >>= k') where
  agree := agree_get_bind fun s t hst => (h s t hst).agree
  keeps := (reads_get.keeps g).bind fun s => (h s s rfl).keeps

end Prog

end Tiodb.Lib
