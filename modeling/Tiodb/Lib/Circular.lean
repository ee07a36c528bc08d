import Mathlib.Data.List.Basic
import Mathlib.Logic.Function.Basic
import Mathlib.Tactic.Common

/-!
# Cells in a circle

`n` cells that are gone through from one of them around to the one before it. The
texts of the cells, one after the other, are what a consumer that starts there would
write.
-/

namespace Tiodb.Lib

variable {α : Type} {n t h k : Nat} {cells : Nat → List α}

/-- The cell at a place less than two rounds from the first. -/
def place (n i : Nat) : Nat := if i < n then i else i - n

/-- How many cells there are from `t` on before `h`. -/
def distance (n t h : Nat) : Nat := if t ≤ h then h - t else h + n - t

def around (n : Nat) (cells : Nat → List α) (t : Nat) : List α :=
  (List.range n).flatMap fun k => cells (place n (t + k))

/-- The cells behind `t`, around to it. -/
def behind (n : Nat) (cells : Nat → List α) (t : Nat) : List α :=
  (List.range (n - 1)).flatMap fun k => cells (place n (t + (k + 1)))

theorem place_of_lt (ht : t < n) : place n t = t := if_pos ht

theorem distance_lt (ht : t < n) (hh : h < n) : distance n t h < n := by
  unfold distance
  split_ifs <;> omega

theorem place_distance (ht : t < n) (hh : h < n) : place n (t + distance n t h) = h := by
  unfold place distance
  split_ifs <;> omega

theorem distance_eq_zero (ht : t < n) : distance n t h = 0 ↔ h = t := by
  unfold distance
  split_ifs <;> omega

/-- The head goes on by one, and past the last place before the tail it meets it. -/
theorem distance_next_head (ht : t < n) (hh : h < n) :
    distance n t (place n (h + 1)) = if distance n t h = n - 1 then 0 else distance n t h + 1 := by
  unfold distance place
  split_ifs <;> omega

/-- The tail goes on by one, and past the head it has a round before it. -/
theorem distance_next_tail (ht : t < n) (hh : h < n) :
    distance n (place n (t + 1)) h = if distance n t h = 0 then n - 1 else distance n t h - 1 := by
  unfold distance place
  split_ifs <;> omega

theorem mod_eq_distance (ht : t ≤ n) (hh : h < n) : (n - t + h) % n = distance n (place n t) h := by
  have hn : 0 < n := by omega
  unfold distance place
  by_cases hlt : n - t + h < n
  · rw [Nat.mod_eq_of_lt hlt]
    split_ifs <;> omega
  · rw [Nat.mod_eq_sub_mod (by omega), Nat.mod_eq_of_lt (by omega)]
    split_ifs <;> omega

theorem place_next (ht : t < n) (hk : k + 1 < n) : place n (place n (t + 1) + k) = place n (t + (k + 1)) := by
  unfold place
  split_ifs <;> omega

theorem place_round (ht : t < n) : place n (place n (t + 1) + (n - 1)) = t := by
  unfold place
  split_ifs <;> omega

theorem place_ne (hk : k + 1 < n) : place n (t + (k + 1)) ≠ t := by
  unfold place
  split_ifs <;> omega

theorem place_inj {j : Nat} (hk : k < n) (hj : j < n) (heq : place n (t + k) = place n (t + j)) : k = j := by
  unfold place at heq
  split_ifs at heq <;> omega

theorem around_eq (ht : t < n) : around n cells t = cells t ++ behind n cells t := by
  obtain ⟨m, rfl⟩ : ∃ m, n = m + 1 := ⟨n - 1, by omega⟩
  have hfirst : place (m + 1) (t + 0) = t := place_of_lt ht
  unfold around behind
  rw [List.range_succ_eq_map, List.flatMap_cons, List.flatMap_map, hfirst]
  rfl

theorem around_next (ht : t < n) : around n cells (place n (t + 1)) = behind n cells t ++ cells t := by
  obtain ⟨m, rfl⟩ : ∃ m, n = m + 1 := ⟨n - 1, by omega⟩
  have hlast : place (m + 1) (place (m + 1) (t + 1) + m) = t := place_round ht
  unfold around behind
  rw [List.range_succ, List.flatMap_append, List.flatMap_singleton, hlast]
  refine congrArg (· ++ cells t) (List.flatMap_congr fun k hk => ?_)
  rw [place_next ht (by have := List.mem_range.mp hk; omega)]

theorem behind_update_self (ht : t < n) (x : List α) : behind n (Function.update cells t x) t = behind n cells t := by
  refine List.flatMap_congr fun k hk => ?_
  have hlt := List.mem_range.mp hk
  rw [Function.update_of_ne (place_ne (by omega))]

theorem around_update (ht : t < n) (hh : h < n)
    (hempty : ∀ k, distance n t h ≤ k → k < n → cells (place n (t + k)) = []) (x : List α) :
    around n (Function.update cells h x) t = around n cells t ++ x := by
  have hd := distance_lt ht hh
  obtain ⟨m, hm⟩ : ∃ m, n = distance n t h + (m + 1) := ⟨n - distance n t h - 1, by omega⟩
  have hsplit (f : Nat → List α) : (List.range n).flatMap f =
      (List.range (distance n t h)).flatMap f ++ (f (distance n t h) ++
        (List.range m).flatMap fun k => f (distance n t h + (k + 1))) := by
    conv_lhs => rw [hm]
    rw [List.range_add, List.flatMap_append, List.flatMap_map, List.range_succ_eq_map, List.flatMap_cons,
      List.flatMap_map]
    rfl
  have hother {k : Nat} (hk : k < n) (hne : k ≠ distance n t h) :
      Function.update cells h x (place n (t + k)) = cells (place n (t + k)) := by
    refine Function.update_of_ne (fun heq => hne ?_) _ _
    exact place_inj hk hd (heq.trans (place_distance ht hh).symm)
  have hbefore : (List.range (distance n t h)).flatMap (fun k => Function.update cells h x (place n (t + k))) =
      (List.range (distance n t h)).flatMap fun k => cells (place n (t + k)) :=
    List.flatMap_congr fun k hk => hother (by have := List.mem_range.mp hk; omega)
      (by have := List.mem_range.mp hk; omega)
  have hafter (f : Nat → List α) (hf : ∀ k, distance n t h < k → k < n → f k = []) :
      (List.range m).flatMap (fun k => f (distance n t h + (k + 1))) = [] := by
    rw [List.flatMap_eq_nil_iff]
    intro k hk
    have hlt := List.mem_range.mp hk
    exact hf _ (by omega) (by omega)
  unfold around
  rw [hsplit, hsplit, hbefore, place_distance ht hh, Function.update_self]
  rw [hafter _ fun k hlow hk => (hother hk (by omega)).trans (hempty k (by omega) hk),
    hafter _ fun k hlow hk => hempty k (by omega) hk]
  have hnil : cells h = [] := by
    have := hempty _ (Nat.le_refl _) hd
    rwa [place_distance ht hh] at this
  simp [hnil]

end Tiodb.Lib
