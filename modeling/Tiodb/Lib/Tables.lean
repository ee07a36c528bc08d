import Mathlib.Tactic.Common

/-!
# Tables

What a change under one key of a `std::map` leaves under the others.
-/

namespace Tiodb.Lib

open Std

variable {κ β : Type} [Ord κ] [TransOrd κ] [LawfulEqOrd κ] {m : ExtTreeMap κ β} {k k' : κ}

theorem insert_of_ne (m : ExtTreeMap κ β) (v : β) (h : k ≠ k') : (m.insert k v)[k']? = m[k']? := by
  rw [ExtTreeMap.getElem?_insert, if_neg (by simpa using h)]

theorem erase_of_ne (m : ExtTreeMap κ β) (h : k ≠ k') : (m.erase k)[k']? = m[k']? := by
  rw [ExtTreeMap.getElem?_erase, if_neg (by simpa using h)]

theorem insert_cases {v w : β} (h : (m.insert k v)[k']? = some w) : k' = k ∧ w = v ∨ k' ≠ k ∧ m[k']? = some w := by
  by_cases hk : k = k'
  · subst hk
    exact .inl ⟨rfl, Option.some.inj (h.symm.trans ExtTreeMap.getElem?_insert_self)⟩
  · exact .inr ⟨Ne.symm hk, (insert_of_ne m v hk).symm.trans h⟩

theorem erase_some {v : β} (h : (m.erase k)[k']? = some v) : k' ≠ k ∧ m[k']? = some v := by
  have hk : k ≠ k' := by
    rintro rfl
    rw [ExtTreeMap.getElem?_erase_self] at h
    cases h
  exact ⟨Ne.symm hk, (erase_of_ne m hk).symm.trans h⟩

theorem insert_of_getElem? {v : β} (h : m[k]? = some v) : m.insert k v = m := by
  apply ExtTreeMap.ext_getElem?
  intro k'
  by_cases hk : k = k'
  · subst hk
    rw [ExtTreeMap.getElem?_insert_self, h]
  · exact insert_of_ne m v hk

theorem insert_insert (m : ExtTreeMap κ β) (k : κ) (v w : β) : (m.insert k v).insert k w = m.insert k w := by
  apply ExtTreeMap.ext_getElem?
  intro k'
  by_cases hk : k = k'
  · subst hk
    rw [ExtTreeMap.getElem?_insert_self, ExtTreeMap.getElem?_insert_self]
  · rw [insert_of_ne _ _ hk, insert_of_ne _ _ hk, insert_of_ne _ _ hk]

theorem getElem?_insertMany_of_mem [BEq κ] [LawfulBEqOrd κ] (m : ExtTreeMap κ β) {l : List (κ × β)} {v : β}
    (hnodup : (l.map Prod.fst).Nodup) (h : (k, v) ∈ l) : (m.insertMany l)[k]? = some v := by
  refine ExtTreeMap.getElem?_insertMany_list_of_mem ReflOrd.compare_self ?_ h
  exact (List.pairwise_map.mp hnodup).imp fun hne heq => hne (LawfulEqOrd.eq_of_compare heq)

theorem erase_of_not_contains (h : ¬ m.contains k) : m.erase k = m := by
  apply ExtTreeMap.ext_getElem?
  intro k'
  by_cases hk : k = k'
  · subst hk
    rw [ExtTreeMap.contains_eq_isSome_getElem?, Option.not_isSome_iff_eq_none] at h
    rw [ExtTreeMap.getElem?_erase_self, h]
  · exact erase_of_ne m hk

/-! ## Two tables with the same keys -/

variable {γ : Type} {f : β → γ} {n : ExtTreeMap κ γ}

theorem map_insert (h : ∀ k : κ, n[k]? = m[k]?.map f) (k : κ) (v : β) (k' : κ) :
    (n.insert k (f v))[k']? = (m.insert k v)[k']?.map f := by
  by_cases hk : k = k'
  · subst hk
    rw [ExtTreeMap.getElem?_insert_self, ExtTreeMap.getElem?_insert_self]
    rfl
  · rw [insert_of_ne _ _ hk, insert_of_ne _ _ hk, h]

theorem map_erase (h : ∀ k : κ, n[k]? = m[k]?.map f) (k k' : κ) : (n.erase k)[k']? = (m.erase k)[k']?.map f := by
  by_cases hk : k = k'
  · subst hk
    rw [ExtTreeMap.getElem?_erase_self, ExtTreeMap.getElem?_erase_self]
    rfl
  · rw [erase_of_ne _ hk, erase_of_ne _ hk, h]

omit [LawfulEqOrd κ] in
theorem map_contains (h : ∀ k : κ, n[k]? = m[k]?.map f) (k : κ) : n.contains k = m.contains k := by
  rw [ExtTreeMap.contains_eq_isSome_getElem?, ExtTreeMap.contains_eq_isSome_getElem?, h, Option.isSome_map]

end Tiodb.Lib
