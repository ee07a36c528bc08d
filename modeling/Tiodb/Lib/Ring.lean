import Mathlib.Data.List.Induction
import Mathlib.Logic.Function.Basic

/-!
# A queue on a ring of nodes

The nodes of the queue form a cycle, the pointer is to the last one, and so the first
is one step away. `Holds` says which items a ring has, in order. A read through a
pointer to no node is `none`.
-/

namespace Tiodb.Lib

structure Node (α : Type) where
  next : Nat
  item : α
  deriving DecidableEq, Repr

/-- Addresses are numbers, given out in order. -/
structure Ring (α : Type) where
  nodes : Nat → Option (Node α) := fun _ => none
  last : Option Nat := none
  mallocs : Nat := 0

namespace Ring

variable {α : Type}

def push (r : Ring α) (x : α) : Option (Ring α) :=
  let node := r.mallocs
  match r.last with
  | none =>
    some { nodes := Function.update r.nodes node (some ⟨node, x⟩), last := some node, mallocs := r.mallocs + 1 }
  | some last =>
    (r.nodes last).map fun l =>
      { nodes := Function.update (Function.update r.nodes node (some ⟨l.next, x⟩)) last (some { l with next := node })
        last := some node
        mallocs := r.mallocs + 1 }

def pop (r : Ring α) : Option (Option α × Ring α) :=
  match r.last with
  | none => some (none, r)
  | some last =>
    (r.nodes last).bind fun l =>
      (r.nodes l.next).map fun first =>
        if l.next = last then (some first.item, { r with nodes := Function.update r.nodes l.next none, last := none })
        else (some first.item, { r with
          nodes := Function.update (Function.update r.nodes last (some { l with next := first.next })) l.next none })

/-- Each cell is a node that leads to the next, and the last one leads to `back`. -/
def Linked (nodes : Nat → Option (Node α)) (back : Nat) : List (Nat × α) → Prop
  | [] => True
  | (a, x) :: cells =>
    nodes a = some ⟨(cells.head?.map Prod.fst).getD back, x⟩ ∧ Linked nodes back cells

structure On (r : Ring α) (cells : List (Nat × α)) : Prop where
  last : r.last = cells.getLast?.map Prod.fst
  linked : Linked r.nodes ((cells.head?.map Prod.fst).getD 0) cells
  distinct : (cells.map Prod.fst).Nodup
  given : ∀ c ∈ cells, c.1 < r.mallocs

def Holds (r : Ring α) (xs : List α) : Prop := ∃ cells, r.On cells ∧ cells.map Prod.snd = xs

theorem Linked.update {nodes : Nat → Option (Node α)} {back a : Nat} {cells : List (Nat × α)}
    (h : Linked nodes back cells) (ha : a ∉ cells.map Prod.fst) (node : Option (Node α)) :
    Linked (Function.update nodes a node) back cells := by
  induction cells with
  | nil => trivial
  | cons c cells ih =>
    rw [List.map_cons, List.mem_cons, not_or] at ha
    exact ⟨by rw [Function.update_of_ne (Ne.symm ha.1), h.1], ih h.2 ha.2⟩

theorem linked_snoc {nodes : Nat → Option (Node α)} {back a : Nat} {x : α} {cells : List (Nat × α)} :
    Linked nodes back (cells ++ [(a, x)]) ↔ Linked nodes a cells ∧ nodes a = some ⟨back, x⟩ := by
  induction cells with
  | nil => simp [Linked]
  | cons c cells ih =>
    have hhead : ((cells ++ [(a, x)]).head?.map Prod.fst).getD back = (cells.head?.map Prod.fst).getD a := by
      cases cells <;> rfl
    rw [List.cons_append, Linked, Linked, ih, hhead, and_assoc]

/-- The pointer is to the last of the cells, and the nodes lead from each cell to the next and back to the first. -/
structure Cycle (nodes : Nat → Option (Node α)) (last : Option Nat) (cells : List (Nat × α)) : Prop where
  last : last = cells.getLast?.map Prod.fst
  linked : Linked nodes ((cells.head?.map Prod.fst).getD 0) cells
  distinct : (cells.map Prod.fst).Nodup

section Cycle

variable {nodes : Nat → Option (Node α)} {last : Option Nat} {cells : List (Nat × α)} {a l : Nat} {x y : α}

theorem cycle_nil : Cycle nodes last [] ↔ last = none :=
  ⟨fun h => h.last, fun h => ⟨h, trivial, .nil⟩⟩

theorem Cycle.last_concat (h : Cycle nodes last (cells ++ [(l, y)])) : last = some l := by
  rw [h.last, List.getLast?_concat]
  rfl

theorem Cycle.not_mem_concat (h : Cycle nodes last (cells ++ [(l, y)])) : l ∉ cells.map Prod.fst := by
  have hdistinct := h.distinct
  rw [List.map_append, List.nodup_append] at hdistinct
  exact fun hm => hdistinct.2.2 l hm l (by simp) rfl

theorem cycle_single (nodes : Nat → Option (Node α)) (a : Nat) (x : α) :
    Cycle (Function.update nodes a (some ⟨a, x⟩)) (some a) [(a, x)] :=
  ⟨rfl, ⟨Function.update_self .., trivial⟩, by simp⟩

/-- A node that is pushed on another queue gets the link of the last one, and the last one leads to it. -/
theorem Cycle.push (h : Cycle nodes last (cells ++ [(l, y)])) (ha : a ∉ (cells ++ [(l, y)]).map Prod.fst) (x : α) :
    ∃ first, nodes l = some ⟨first, y⟩ ∧
      Cycle (Function.update (Function.update nodes a (some ⟨first, x⟩)) l (some ⟨a, y⟩)) (some a)
        (cells ++ [(l, y)] ++ [(a, x)]) := by
  obtain ⟨hcells, hnode⟩ := linked_snoc.mp h.linked
  have hne : a ≠ l := fun he => ha (by simp [he])
  refine ⟨_, hnode, ?_, ?_, ?_⟩
  · rw [List.getLast?_concat]
    rfl
  · have hhead : ((cells ++ [(l, y)] ++ [(a, x)]).head?.map Prod.fst).getD 0 =
        ((cells ++ [(l, y)]).head?.map Prod.fst).getD 0 := by cases cells <;> rfl
    rw [hhead, linked_snoc, linked_snoc]
    refine ⟨⟨?_, Function.update_self ..⟩, ?_⟩
    · apply Linked.update _ h.not_mem_concat
      exact hcells.update (fun hm => ha (by simp [hm])) _
    · rw [Function.update_of_ne hne, Function.update_self]
  · rw [List.map_append, List.nodup_append]
    refine ⟨h.distinct, by simp, ?_⟩
    rintro b hb c hc rfl
    rw [List.map_singleton, List.mem_singleton] at hc
    exact ha (by rwa [hc] at hb)

theorem Cycle.pop_single (h : Cycle nodes last [(a, x)]) : nodes a = some ⟨a, x⟩ := h.linked.1

/-- The last node leads to the second one, when the first one is gone. -/
theorem Cycle.pop (h : Cycle nodes last ((a, x) :: (cells ++ [(l, y)]))) :
    ∃ second, a ≠ l ∧ nodes l = some ⟨a, y⟩ ∧ nodes a = some ⟨second, x⟩ ∧
      Cycle (Function.update (Function.update nodes l (some ⟨second, y⟩)) a none) last (cells ++ [(l, y)]) := by
  obtain ⟨hfirst, hlinked⟩ := h.linked
  obtain ⟨hcells, hnode⟩ := linked_snoc.mp hlinked
  obtain ⟨ha, hdistinct⟩ := List.nodup_cons.mp h.distinct
  have hrest : Cycle nodes last ((a, x) :: cells ++ [(l, y)]) := h
  have hl : l ∉ cells.map Prod.fst := fun hm => hrest.not_mem_concat (by simp [hm])
  refine ⟨_, fun he => ha (by simp [he]), hnode, hfirst, ?_, ?_, hdistinct⟩
  · rw [hrest.last_concat, List.getLast?_concat]
    rfl
  · apply Linked.update _ ha
    rw [linked_snoc]
    refine ⟨hcells.update hl _, ?_⟩
    rw [Function.update_self]
    cases cells <;> rfl

end Cycle

theorem On.cycle {r : Ring α} {cells : List (Nat × α)} (h : r.On cells) : Cycle r.nodes r.last cells :=
  ⟨h.last, h.linked, h.distinct⟩

theorem Cycle.on {r : Ring α} {cells : List (Nat × α)} (h : Cycle r.nodes r.last cells)
    (hgiven : ∀ c ∈ cells, c.1 < r.mallocs) : r.On cells :=
  ⟨h.last, h.linked, h.distinct, hgiven⟩

theorem holds_nil : (Ring.mk (fun _ => none) none 0 : Ring α).Holds [] :=
  ⟨[], ⟨rfl, trivial, .nil, by simp⟩, rfl⟩

theorem Holds.last_eq {r : Ring α} (h : r.Holds []) : r.last = none := by
  obtain ⟨cells, hon, hc⟩ := h
  rw [List.map_eq_nil_iff] at hc
  exact cycle_nil.mp (hc ▸ hon.cycle)

theorem Holds.push {r : Ring α} {xs : List α} (h : r.Holds xs) (x : α) :
    ∃ r', r.push x = some r' ∧ r'.Holds (xs ++ [x]) := by
  obtain ⟨cells, hon, rfl⟩ := h
  have hnew : r.mallocs ∉ cells.map Prod.fst := by
    intro hmem
    obtain ⟨c, hc, he⟩ := List.mem_map.mp hmem
    have := hon.given c hc
    omega
  have hgiven : ∀ c ∈ cells ++ [(r.mallocs, x)], c.1 < r.mallocs + 1 := by
    intro c hc
    obtain hc | hc := List.mem_append.mp hc
    · exact Nat.lt_succ_of_lt (hon.given c hc)
    · obtain rfl := List.mem_singleton.mp hc
      exact Nat.lt_succ_self _
  unfold Ring.push
  cases hcells : cells using List.reverseRecOn with
  | nil =>
    subst hcells
    rw [cycle_nil.mp hon.cycle]
    exact ⟨_, rfl, [(r.mallocs, x)], (cycle_single ..).on hgiven, rfl⟩
  | append_singleton cells c =>
    obtain ⟨l, y⟩ := c
    subst hcells
    obtain ⟨first, hnode, hcycle⟩ := hon.cycle.push hnew x
    rw [hon.cycle.last_concat]
    simp only [hnode, Option.map_some]
    exact ⟨_, rfl, _, hcycle.on hgiven, by simp⟩

theorem Holds.pop_nil {r : Ring α} (h : r.Holds []) : r.pop = some (none, r) := by
  unfold Ring.pop
  rw [h.last_eq]

theorem Holds.pop_cons {r : Ring α} {x : α} {xs : List α} (h : r.Holds (x :: xs)) :
    ∃ r', r.pop = some (some x, r') ∧ r'.Holds xs := by
  obtain ⟨cells, hon, hc⟩ := h
  obtain ⟨⟨a, x'⟩, rest, rfl, rfl, rfl⟩ := List.map_eq_cons_iff.mp hc
  have hgiven : ∀ c ∈ rest, c.1 < r.mallocs := fun c hc => hon.given c (List.mem_cons_of_mem _ hc)
  unfold Ring.pop
  cases hrest : rest using List.reverseRecOn with
  | nil =>
    subst hrest
    have hlast : r.last = some a := hon.last
    refine ⟨{ r with nodes := Function.update r.nodes a none, last := none }, ?_, [],
      (cycle_nil.mpr rfl).on hgiven, rfl⟩
    simp [hlast, hon.cycle.pop_single]
  | append_singleton cells c =>
    obtain ⟨l, y⟩ := c
    subst hrest
    obtain ⟨second, hne, hlast, hfirst, hcycle⟩ := hon.cycle.pop
    have hends : Cycle r.nodes r.last ((a, x') :: cells ++ [(l, y)]) := hon.cycle
    have hend : r.last = some l := hends.last_concat
    refine ⟨{ r with
      nodes := Function.update (Function.update r.nodes l (some ⟨second, y⟩)) a none }, ?_, _, hcycle.on hgiven, rfl⟩
    simp [hend, hlast, hfirst, hne]

end Ring

end Tiodb.Lib
