import Tiodb.Lib.Lists

/-!
# Texts cut at a separator

The first piece of a text that is cut at every separator, and the pieces behind it;
and a loop over the pieces of many texts that is to give one result for each text.
-/

namespace Tiodb.Lib

variable {α β γ δ : Type} [DecidableEq α] {a c : α} {x y l : List α}

theorem splitOn_eq_cons (a : α) (l : List α) : l.splitOn a = l.takeWhile (· ≠ a) :: (l.splitOn a).tail := by
  induction l with
  | nil => rfl
  | cons b l ih =>
    rw [List.splitOn_cons_eq_if_modifyHead, ih]
    by_cases hb : b = a <;> simp [hb]

theorem tail_splitOn_append (h : a ∉ x) (y : List α) : ((x ++ y).splitOn a).tail = (y.splitOn a).tail := by
  induction x with
  | nil => rfl
  | cons b x ih =>
    rw [List.mem_cons, not_or] at h
    rw [List.cons_append, List.splitOn_cons_eq_if_modifyHead, if_neg (by simpa using Ne.symm h.1), List.tail_modifyHead,
      ih h.2]

theorem exists_mem_piece (hc : c ≠ a) (h : c ∈ l) : ∃ p ∈ l.splitOn a, c ∈ p := by
  induction l with
  | nil => cases h
  | cons b l ih =>
    have hlater : c ∈ l → ∃ p ∈ l.takeWhile (· ≠ a) :: (l.splitOn a).tail, c ∈ p := by
      rw [← splitOn_eq_cons]
      exact ih
    rw [List.splitOn_cons_eq_if_modifyHead, splitOn_eq_cons a l]
    rcases List.mem_cons.mp h with rfl | h
    · rw [if_neg (by simpa using hc)]
      exact ⟨_, List.mem_cons_self, List.mem_cons_self⟩
    · obtain ⟨p, hp, hmem⟩ := hlater h
      split_ifs with hb
      · exact ⟨p, List.mem_cons_of_mem _ hp, hmem⟩
      · rcases List.mem_cons.mp hp with rfl | hp
        · exact ⟨_, List.mem_cons_self, List.mem_cons_of_mem _ hmem⟩
        · exact ⟨p, List.mem_cons_of_mem _ hp, hmem⟩

theorem exists_mem_later_piece (hc : c ≠ a) (ha : a ∈ x) (hy : c ∈ y) :
    ∃ p ∈ ((x ++ y).splitOn a).tail, c ∈ p := by
  obtain ⟨u, v, rfl, -⟩ := List.eq_append_cons_of_mem ha
  obtain ⟨p, hp, hmem⟩ := exists_mem_piece hc (List.mem_append_right v hy)
  refine ⟨p, ?_, hmem⟩
  rw [List.append_assoc, List.cons_append, List.splitOn_append_cons_self,
    List.tail_append_of_ne_nil (List.splitOn_ne_nil a u)]
  exact List.mem_append_right _ hp

theorem length_le_flatMap_cons (f : γ → β) (later : γ → List β) (xs : List γ) :
    xs.length ≤ (xs.flatMap fun t => f t :: later t).length := by
  induction xs with
  | nil => simp
  | cons t xs ih =>
    rw [List.flatMap_cons, List.length_append, List.length_cons, List.length_cons]
    omega

/-- One result for each text means that nothing is behind the first piece of any. -/
theorem mapM_flatMap_cons {f : γ → β} {later : γ → List β} {g : β → Option δ} {r : γ → δ} {xs : List γ} :
    (xs.flatMap fun t => f t :: later t).mapM g = some (xs.map r) ↔
      ∀ t ∈ xs, later t = [] ∧ g (f t) = some (r t) := by
  induction xs with
  | nil => simp
  | cons t xs ih =>
    rw [List.forall_mem_cons, ← ih, List.flatMap_cons, List.cons_append, List.mapM_cons, List.map_cons]
    simp only [Option.bind_eq_bind, Option.bind_eq_some_iff, Option.pure_def, Option.some.injEq, List.cons.injEq]
    constructor
    · rintro ⟨b, hb, bs, hbs, rfl, rfl⟩
      have hlength := length_of_mapM hbs
      have hle := length_le_flatMap_cons f later xs
      rw [List.length_append, List.length_map] at hlength
      have hlater : later t = [] := List.eq_nil_of_length_eq_zero (by omega)
      rw [hlater, List.nil_append] at hbs
      exact ⟨⟨hlater, hb⟩, hbs⟩
    · rintro ⟨⟨hlater, hb⟩, hrest⟩
      exact ⟨r t, hb, xs.map r, by rw [hlater, List.nil_append, hrest], rfl, rfl⟩

end Tiodb.Lib
