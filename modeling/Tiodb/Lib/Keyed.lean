import Mathlib.Data.List.Nodup
import Mathlib.Logic.Function.Basic

/-!
# Rows with distinct keys

A list of rows in which no key is twice is a partial function of the key, and a change of
one row is a change of the function at one key.
-/

namespace Tiodb.Lib

variable {α β : Type} {rows : List (α × β)} {m : α → Option β} {k : α} {v w : β} {i j : Nat}

structure Keyed (rows : List (α × β)) (m : α → Option β) : Prop where
  distinct : (rows.map Prod.fst).Nodup
  mem : ∀ k v, m k = some v ↔ (k, v) ∈ rows

namespace Keyed

theorem nil : Keyed ([] : List (α × β)) fun _ => none := ⟨List.nodup_nil, by simp⟩

theorem key_of_getElem? (hi : rows[i]? = some (k, v)) : (rows.map Prod.fst)[i]? = some k := by
  rw [List.getElem?_map, hi]
  rfl

theorem place_unique (h : Keyed rows m) (hi : rows[i]? = some (k, v)) (hj : rows[j]? = some (k, w)) : i = j := by
  have hlt := (List.getElem?_eq_some_iff.mp (key_of_getElem? hi)).1
  exact (List.getElem?_inj hlt h.distinct).mp ((key_of_getElem? hi).trans (key_of_getElem? hj).symm)

theorem none_iff (h : Keyed rows m) : m k = none ↔ k ∉ rows.map Prod.fst := by
  rw [← not_iff_not, not_not, ← ne_eq, Option.ne_none_iff_exists']
  simp [h.mem]

section Change

variable [DecidableEq α]

theorem append (h : Keyed rows m) (hnone : m k = none) : Keyed (rows ++ [(k, v)]) (Function.update m k (some v)) := by
  have hnew := h.none_iff.mp hnone
  refine ⟨?_, fun k' v' => ?_⟩
  · rw [List.map_append]
    exact List.Nodup.append h.distinct (List.nodup_singleton _) (by simpa using hnew)
  · rw [List.mem_append, List.mem_singleton, Prod.mk.injEq, ← h.mem]
    by_cases hk : k' = k
    · subst hk
      simp [hnone, eq_comm]
    · simp [hk]

theorem set (h : Keyed rows m) (hi : rows[i]? = some (k, w)) :
    Keyed (rows.set i (k, v)) (Function.update m k (some v)) := by
  have hlt := (List.getElem?_eq_some_iff.mp hi).1
  refine ⟨?_, fun k' v' => ?_⟩
  · rw [List.map_set]
    obtain ⟨_, hkey⟩ := List.getElem?_eq_some_iff.mp (key_of_getElem? hi)
    rw [← hkey, List.set_getElem_self]
    exact h.distinct
  · rw [List.mem_iff_getElem?]
    by_cases hk : k' = k
    · subst hk
      rw [Function.update_self, Option.some.injEq]
      constructor
      · rintro rfl
        exact ⟨i, List.getElem?_set_self hlt⟩
      · rintro ⟨j, hj⟩
        rw [List.getElem?_set] at hj
        split_ifs at hj with hij
        · exact (Prod.mk.inj (Option.some.inj hj)).2
        · exact absurd (h.place_unique hi hj) hij
    · rw [Function.update_of_ne hk, h.mem, List.mem_iff_getElem?]
      refine exists_congr fun j => ?_
      rw [List.getElem?_set]
      split_ifs with hij
      · subst hij
        simp [hi, Ne.symm hk]
      · rfl

theorem eraseIdx (h : Keyed rows m) (hi : rows[i]? = some (k, w)) :
    Keyed (rows.eraseIdx i) (Function.update m k none) := by
  refine ⟨?_, fun k' v' => ?_⟩
  · exact h.distinct.sublist ((List.eraseIdx_sublist ..).map _)
  · rw [List.mem_eraseIdx_iff_getElem?]
    by_cases hk : k' = k
    · subst hk
      simp only [Function.update_self, reduceCtorEq, false_iff]
      rintro ⟨j, hj, hj'⟩
      exact hj (h.place_unique hj' hi)
    · rw [Function.update_of_ne hk, h.mem, List.mem_iff_getElem?]
      refine exists_congr fun j => ⟨fun hj => ⟨fun hij => ?_, hj⟩, And.right⟩
      subst hij
      exact hk (Prod.mk.inj (Option.some.inj (hj.symm.trans hi))).1

end Change

end Keyed

end Tiodb.Lib
