import Mathlib.Algebra.Ring.Nat
import Mathlib.Data.List.Forall2
import Mathlib.Tactic.Common

/-!
# A text with marked spans, read in pieces

A reader is fed a text piece by piece, and reports the marked spans in it: what of a
span is in a piece, with that piece. A client that keeps the last report of each span
has the spans exactly if no piece ends inside one.
-/

namespace Tiodb.Lib

structure Span (κ α : Type) where
  kind : Option κ
  items : List α
  deriving DecidableEq, Repr

namespace Span

variable {κ α σ : Type}

def report (s : Span κ α) : Option (κ × List α) := s.kind.map fun k => (k, s.items)

def reports (spans : List (Span κ α)) : List (κ × List α) := spans.filterMap report

def size (spans : List (Span κ α)) : Nat := (spans.map fun s => s.items.length).sum

/-- A piece of `n` items ends inside the span. With `again` a marked span is not over before the item behind it: a
piece that begins there reports the span again, with no items. -/
def splits (again : Bool) (n : Nat) (s : Span κ α) : Bool :=
  n < s.items.length || again && s.kind.isSome && n = s.items.length

/-- The spans of the first `n` items, and those of the rest. -/
def cut (again : Bool) : Nat → List (Span κ α) → List (Span κ α) × List (Span κ α)
  | _, [] => ([], [])
  | 0, s :: spans => ([], s :: spans)
  | n + 1, s :: spans =>
    if s.splits again (n + 1) then
      ([{ s with items := s.items.take (n + 1) }], { s with items := s.items.drop (n + 1) } :: spans)
    else
      let r := cut again (n + 1 - s.items.length) spans
      (s :: r.1, r.2)

/-- Whether the first `n` items end inside a marked span. -/
def cutsMarked (again : Bool) : Nat → List (Span κ α) → Bool
  | _, [] => false
  | 0, _ :: _ => false
  | n + 1, s :: spans =>
    if s.splits again (n + 1) then s.kind.isSome else cutsMarked again (n + 1 - s.items.length) spans

/-- What is reported of pieces of these lengths. -/
def feed (again : Bool) : List Nat → List (Span κ α) → List (κ × List α)
  | [], _ => []
  | n :: calls, spans => reports (cut again n spans).1 ++ feed again calls (cut again n spans).2

/-- No piece ends inside a marked span. -/
def Uncut (again : Bool) : List Nat → List (Span κ α) → Prop
  | [], _ => True
  | n :: calls, spans => cutsMarked again n spans = false ∧ Uncut again calls (cut again n spans).2

instance Uncut.decide (again : Bool) :
    ∀ (calls : List Nat) (spans : List (Span κ α)), Decidable (Uncut again calls spans)
  | [], _ => isTrue trivial
  | n :: calls, spans =>
    have := Uncut.decide again calls (cut again n spans).2
    inferInstanceAs (Decidable (cutsMarked again n spans = false ∧ Uncut again calls (cut again n spans).2))

/-- What comes last is not marked. -/
def Closed (spans : List (Span κ α)) : Prop := ∀ s ∈ spans.getLast?, s.kind = none ∧ s.items ≠ []

variable {again : Bool} {n : Nat} {s : Span κ α} {spans : List (Span κ α)} {calls : List Nat}

@[simp] theorem reports_nil : reports ([] : List (Span κ α)) = [] := rfl

theorem reports_cons (s : Span κ α) (spans : List (Span κ α)) :
    reports (s :: spans) = s.report.toList ++ reports spans := by
  cases h : s.report <;> simp [reports, h]

theorem size_cons (s : Span κ α) (spans : List (Span κ α)) : size (s :: spans) = s.items.length + size spans := rfl

theorem le_of_splits (h : s.splits again n = true) : n ≤ s.items.length := by
  simp only [splits, Bool.or_eq_true, Bool.and_eq_true, decide_eq_true_eq] at h
  omega

theorem le_of_not_splits (h : s.splits again n = false) : s.items.length ≤ n := by
  simp only [splits, Bool.or_eq_false_iff, decide_eq_false_iff_not] at h
  omega

theorem size_cut (again : Bool) (h : n ≤ size spans) : size (cut again n spans).2 + n = size spans := by
  induction n, spans using cut.induct again with
  | case1 n => simpa [cut, size] using h
  | case2 s spans => simp [cut]
  | case3 n s spans hsplits =>
    have hle := le_of_splits hsplits
    rw [cut, if_pos hsplits]
    simp only [size_cons, List.length_drop]
    omega
  | case4 n s spans hsplits ih =>
    have hle := le_of_not_splits (by simpa using hsplits)
    rw [size_cons] at h ⊢
    rw [cut, if_neg hsplits]
    have := ih (by omega)
    dsimp only
    omega

theorem Closed.tail (h : Closed (s :: spans)) : Closed spans := by
  intro last hlast
  cases spans with
  | nil => exact absurd hlast (by simp)
  | cons s' spans => exact h last (by simpa using hlast)

theorem Closed.cut (h : Closed spans) (again : Bool) (n : Nat) : Closed (Span.cut again n spans).2 := by
  induction n, spans using cut.induct again with
  | case1 n => simpa [Span.cut] using h
  | case2 s spans => simpa [Span.cut] using h
  | case3 n s spans hsplits =>
    rw [Span.cut, if_pos hsplits]
    cases spans with
    | cons s' spans => exact fun last hlast => h last (by simpa using hlast)
    | nil =>
      -- the last span is not marked, so a piece that ends in it leaves some of it
      obtain ⟨hkind, -⟩ := h s (by simp)
      have hlt : n + 1 < s.items.length := by simpa [splits, hkind] using hsplits
      intro last hlast
      obtain rfl : _ = last := by simpa using hlast
      exact ⟨hkind, by simpa using hlt⟩
  | case4 n s spans hsplits ih =>
    rw [Span.cut, if_neg hsplits]
    exact ih h.tail

theorem Closed.eq_nil (h : Closed spans) (hsize : size spans = 0) : spans = [] := by
  rcases List.eq_nil_or_concat' spans with rfl | ⟨before, last, rfl⟩
  · rfl
  · obtain ⟨-, hne⟩ := h last (by simp)
    have hlast : last.items.length = 0 := by
      simp only [size, List.map_append, List.sum_append, List.map_cons, List.sum_cons] at hsize
      omega
    exact absurd (List.length_eq_zero_iff.mp hlast) hne

theorem cut_cases (again : Bool) (n : Nat) (spans : List (Span κ α)) :
    (cutsMarked again n spans = false ∧
      reports spans = reports (cut again n spans).1 ++ reports (cut again n spans).2) ∨
    (cutsMarked again n spans = true ∧ ∃ before k a b after, a ≠ [] ∧ reports spans = before ++ (k, a ++ b) :: after ∧
      reports (cut again n spans).1 = before ++ [(k, a)] ∧ reports (cut again n spans).2 = (k, b) :: after) := by
  induction n, spans using cut.induct again with
  | case1 n => exact .inl (by simp [cutsMarked, cut, reports])
  | case2 s spans => exact .inl (by simp [cutsMarked, cut, reports])
  | case3 n s spans hsplits =>
    rw [cut, if_pos hsplits, cutsMarked, if_pos hsplits]
    cases hkind : s.kind with
    | none => exact .inl (by simp [reports_cons, report, hkind])
    | some k =>
      have hne : s.items.take (n + 1) ≠ [] := by
        have hle := le_of_splits hsplits
        rw [← List.length_pos_iff, List.length_take]
        omega
      refine .inr ⟨rfl, [], k, _, s.items.drop (n + 1), reports spans, hne, ?_, ?_, ?_⟩
      · simp [reports_cons, report, hkind]
      · simp [reports_cons, report]
      · simp [reports_cons, report]
  | case4 n s spans hsplits ih =>
    rw [cut, if_neg hsplits, cutsMarked, if_neg hsplits]
    rcases ih with ⟨huncut, hreports⟩ | ⟨hcut, before, k, a, b, after, hne, hreports, hleft, hright⟩
    · exact .inl ⟨huncut, by rw [reports_cons, hreports, reports_cons, List.append_assoc]⟩
    · refine .inr ⟨hcut, s.report.toList ++ before, k, a, b, after, hne, ?_, ?_, hright⟩
      · rw [reports_cons, hreports, List.append_assoc]
      · rw [reports_cons, hleft, List.append_assoc]

/-- What is left of each span where only its last report counts. -/
def Shortened (kept spans : List (κ × List α)) : Prop :=
  List.Forall₂ (fun e t => e.1 = t.1 ∧ e.2 <:+ t.2) kept spans

theorem Shortened.refl (spans : List (κ × List α)) : Shortened spans spans :=
  List.forall₂_same.mpr fun _ _ => ⟨rfl, List.suffix_rfl⟩

/-- Of each span the last report counts, and that is the span itself for all of them exactly if none is cut. -/
theorem feed_keeps (again : Bool) {apply : σ → κ × List α → σ}
    (hover : ∀ s k a b, apply (apply s (k, a)) (k, b) = apply s (k, b))
    (hclosed : Closed spans) (hsum : calls.sum = size spans) :
    ∃ kept, Shortened kept (reports spans) ∧
      (∀ s, (feed again calls spans).foldl apply s = kept.foldl apply s) ∧
      (kept = reports spans ↔ Uncut again calls spans) := by
  induction calls generalizing spans with
  | nil =>
    obtain rfl := hclosed.eq_nil hsum.symm
    exact ⟨[], .nil, fun _ => rfl, by simp [reports, Uncut]⟩
  | cons n calls ih =>
    rw [List.sum_cons] at hsum
    have hsize := size_cut again (show n ≤ size spans by omega)
    obtain ⟨kept, hkept, hfold, heq⟩ := ih (hclosed.cut again n) (by omega)
    rcases cut_cases again n spans with ⟨huncut, hreports⟩ | ⟨hcut, before, k, a, b, after, hne, hreports, hleft, hright⟩
    · refine ⟨reports (cut again n spans).1 ++ kept, ?_, fun s => ?_, ?_⟩
      · rw [hreports]
        exact List.rel_append (Shortened.refl _) hkept
      · rw [feed, List.foldl_append, List.foldl_append, hfold]
      · rw [hreports, List.append_cancel_left_eq, heq, Uncut, huncut]
        simp
    · -- the report of the rest of the span comes over the first
      rw [hright] at hkept heq
      cases hkept with
      | @cons e _ rest _ he hrest =>
        obtain ⟨k', b'⟩ := e
        obtain ⟨rfl, hsuffix⟩ := he
        refine ⟨before ++ (k', b') :: rest, ?_, fun s => ?_, ?_⟩
        · rw [hreports]
          exact List.rel_append (Shortened.refl _) (.cons ⟨rfl, hsuffix.trans (List.suffix_append a b)⟩ hrest)
        · rw [feed, hleft, List.foldl_append, hfold]
          simp only [List.foldl_append, List.foldl_cons, List.foldl_nil, hover]
        · refine iff_of_false (fun h => ?_) (fun h => by simp [Uncut, hcut] at h)
          rw [hreports, List.append_cancel_left_eq] at h
          obtain ⟨hfirst, -⟩ := List.cons.inj h
          have hlen := congrArg (fun e => e.2.length) hfirst
          have hpos := List.length_pos_iff.mpr hne
          have hle : b'.length ≤ b.length := hsuffix.length_le
          simp only [List.length_append] at hlen
          omega

/-! ## Ends of texts -/

theorem sum_length_ends_le {texts' texts : List (List α)} (h : List.Forall₂ (· <:+ ·) texts' texts) :
    (texts'.map List.length).sum ≤ (texts.map List.length).sum := by
  induction h with
  | nil => exact Nat.le_refl _
  | cons hend _ ih => exact Nat.add_le_add hend.length_le ih

theorem eq_of_ends {texts' texts : List (List α)} (h : List.Forall₂ (· <:+ ·) texts' texts)
    (hlen : (texts'.map List.length).sum = (texts.map List.length).sum) : texts' = texts := by
  induction h with
  | nil => rfl
  | @cons text' text texts' texts hend hrest ih =>
    have hfirst := hend.length_le
    have hothers := sum_length_ends_le hrest
    simp only [List.map_cons, List.sum_cons] at hlen
    rw [hend.eq_of_length (by omega), ih (by omega)]

end Span

end Tiodb.Lib
