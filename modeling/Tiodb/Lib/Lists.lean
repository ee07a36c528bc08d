import Mathlib.Data.List.Basic
import Mathlib.Data.List.Induction

/-!
# Lists visited in order, with their positions

What a loop that may stop, or one that records where it stands, leaves behind; and
lists with a separator in them.
-/

namespace Tiodb.Lib

variable {α β : Type}

theorem getElem?_of_mapM {f : α → Option β} {l : List α} {rs : List β} (h : l.mapM f = some rs) (i : Nat) :
    rs[i]? = l[i]?.bind f := by
  induction l generalizing rs i with
  | nil =>
    obtain rfl : [] = rs := by simpa using h
    simp
  | cons a l ih =>
    simp only [List.mapM_cons, Option.bind_eq_bind, Option.bind_eq_some_iff, Option.pure_def,
      Option.some.injEq] at h
    obtain ⟨b, hb, bs, hbs, rfl⟩ := h
    cases i with
    | zero => simp [hb]
    | succ i => simpa using ih hbs i

theorem length_of_mapM {f : α → Option β} {l : List α} {rs : List β} (h : l.mapM f = some rs) :
    rs.length = l.length := by
  induction l generalizing rs with
  | nil =>
    obtain rfl : [] = rs := by simpa using h
    rfl
  | cons a l ih =>
    simp only [List.mapM_cons, Option.bind_eq_bind, Option.bind_eq_some_iff, Option.pure_def,
      Option.some.injEq] at h
    obtain ⟨b, hb, bs, hbs, rfl⟩ := h
    simp [ih hbs]

/-- A loop over positions gives back the list it reads. -/
theorem mapM_range_eq_some {f : Nat → Option β} {l : List β} (h : ∀ (i : Nat) b, l[i]? = some b → f i = some b) :
    (List.range l.length).mapM f = some l := by
  induction l using List.reverseRecOn with
  | nil => rfl
  | append_singleton l b ih =>
    have hinit : (List.range l.length).mapM f = some l := ih fun i c hc => h i c (by
      rw [List.getElem?_append_left (List.getElem?_eq_some_iff.mp hc).1, hc])
    have hlast : f l.length = some b := h l.length b (by simp)
    rw [List.length_append, List.length_singleton, List.range_succ, List.mapM_append, hinit]
    simp [hlast]

theorem flatMap_zipIdx_from (g : α → List β) (l : List α) (k i : Nat) :
    ((l.zipIdx k).flatMap fun x => if x.2 = i then g x.1 else []) =
      if k ≤ i then (l[i - k]?.map g).getD [] else [] := by
  induction l generalizing k with
  | nil => simp
  | cons a l ih =>
    rw [List.zipIdx_cons, List.flatMap_cons, ih]
    rcases Nat.lt_trichotomy k i with h | h | h
    · have hsub : i - k = i - (k + 1) + 1 := by omega
      rw [if_neg (by omega), if_pos (by omega), if_pos (by omega), hsub]
      rfl
    · subst h
      rw [if_pos rfl, if_neg (by omega), if_pos (Nat.le_refl k), Nat.sub_self]
      simp
    · rw [if_neg (by omega), if_neg (by omega), if_neg (by omega)]
      rfl

theorem flatMap_zipIdx (g : α → List β) (l : List α) (i : Nat) :
    (l.zipIdx.flatMap fun x => if x.2 = i then g x.1 else []) = (l[i]?.map g).getD [] := by
  rw [flatMap_zipIdx_from, if_pos (Nat.zero_le i), Nat.sub_zero]

theorem filterMap_cons_toList (f : α → Option β) (a : α) (l : List α) :
    (a :: l).filterMap f = (f a).toList ++ l.filterMap f := by
  cases h : f a <;> simp [h]

theorem append_cons_inj {a : α} {x x' z z' : List α} (hx : a ∉ x) (hx' : a ∉ x')
    (h : x ++ a :: z = x' ++ a :: z') : x = x' ∧ z = z' := by
  rw [List.append_eq_append_iff] at h
  obtain ⟨c, rfl, hc⟩ | ⟨c, rfl, hc⟩ := h
  · cases c with
    | nil => exact ⟨(List.append_nil x).symm, (List.cons.inj hc).2⟩
    | cons b c =>
      obtain ⟨rfl, -⟩ := List.cons.inj hc
      exact absurd (List.mem_append_right x List.mem_cons_self) hx'
  · cases c with
    | nil => exact ⟨List.append_nil x', (List.cons.inj hc).2.symm⟩
    | cons b c =>
      obtain ⟨rfl, -⟩ := List.cons.inj hc
      exact absurd (List.mem_append_right x' List.mem_cons_self) hx

theorem takeWhile_append_cons [DecidableEq α] {a : α} {x : List α} (hx : a ∉ x) (z : List α) :
    (x ++ a :: z).takeWhile (· ≠ a) = x ∧ ((x ++ a :: z).dropWhile (· ≠ a)).tail = z := by
  induction x with
  | nil => simp
  | cons b x ih =>
    have hb : b ≠ a := fun h => hx (h ▸ List.mem_cons_self)
    obtain ⟨htake, hdrop⟩ := ih fun h => hx (.tail _ h)
    exact ⟨by simpa [hb] using htake, by simpa [hb] using hdrop⟩

theorem splitOn_words [BEq α] [LawfulBEq α] {a : α} {w : List α} {ws : List (List α)} (hw : a ∉ w)
    (hws : ∀ v ∈ ws, a ∉ v) : (w ++ ws.flatMap (a :: ·)).splitOn a = w :: ws := by
  induction ws generalizing w with
  | nil => simpa using List.splitOn_eq_singleton hw
  | cons v ws ih =>
    rw [List.flatMap_cons, List.cons_append, List.splitOn_append_cons_self_of_not_mem hw,
      ih (hws v (by simp)) fun u hu => hws u (by simp [hu])]

theorem countP_of_mapM {f : α → Option (α × β)} {l : List α} {rs : List (α × β)} {q : α → Bool}
    (h : l.mapM f = some rs) (hf : ∀ a r, f a = some r → q r.1 = q a) : (rs.map Prod.fst).countP q = l.countP q := by
  induction l generalizing rs with
  | nil =>
    obtain rfl : [] = rs := by simpa using h
    rfl
  | cons a l ih =>
    simp only [List.mapM_cons, Option.bind_eq_bind, Option.bind_eq_some_iff, Option.pure_def,
      Option.some.injEq] at h
    obtain ⟨b, hb, bs, hbs, rfl⟩ := h
    rw [List.map_cons, List.countP_cons, List.countP_cons, ih hbs, hf a b hb]

theorem exists_getElem?_of_countP_eq_one {l : List α} {q : α → Bool} (h : l.countP q = 1) :
    ∃ (i : Nat) (a : α), l[i]? = some a ∧ q a = true ∧ ∀ (j : Nat) b, l[j]? = some b → q b = true → j = i := by
  induction l with
  | nil => cases h
  | cons a l ih =>
    by_cases ha : q a = true
    · have hzero : l.countP q = 0 := by simpa [List.countP_cons, ha] using h
      refine ⟨0, a, rfl, ha, fun j b hb hq => ?_⟩
      cases j with
      | zero => rfl
      | succ j => exact absurd hq (List.countP_eq_zero.mp hzero b (List.mem_of_getElem? hb))
    · obtain ⟨i, x, hi, hx, huniq⟩ := ih (by simpa [List.countP_cons, ha] using h)
      refine ⟨i + 1, x, hi, hx, fun j b hb hq => ?_⟩
      cases j with
      | zero =>
        obtain rfl : a = b := by simpa using hb
        exact absurd hq ha
      | succ j => rw [huniq j b hb hq]

theorem getElem?_append_some {l : List α} {i : Nat} {a : α} (h : l[i]? = some a) (l' : List α) :
    (l ++ l')[i]? = some a := by
  rw [List.getElem?_append_left (List.getElem?_eq_some_iff.mp h).1, h]

end Tiodb.Lib
