import Tiodb.Storage.Slices

/-!
# Operations at an index

What a key may name: `NormalizeIndex` lets 0 and the least `int` through without a
look at the bounds, and only `Delete` of the list looks at the position it reached.
-/

namespace Tiodb

open Lib

/-- The operation acts at the position that the index names, or throws and changes nothing where it names none. -/
def IndexSafe {σ α : Type} (o : Outcome Exc σ α) (s : σ) (k : Int32) (n : Nat) (act : Nat → Outcome Exc σ α) : Prop :=
  match pyIndex k.toInt n with
  | some i => o = act i
  | none => ∃ e, o = .throws e s

/-- The record at a position; the end iterator has none. -/
def readAt {σ : Type} (s : σ) (records : List Record) (i : Nat) : Outcome Exc σ Record :=
  match records[i]? with
  | some r => .ok r s
  | none => .undefined

/-! ## The keys that are not checked -/

/-- An index that `NormalizeIndex` does not check, and that names no record. -/
def Unchecked (k : Int32) (n : Nat) : Prop := k = Int32.minValue ∨ (k = 0 ∧ n = 0)

instance (k : Int32) (n : Nat) : Decidable (Unchecked k n) :=
  inferInstanceAs (Decidable (k = Int32.minValue ∨ (k = 0 ∧ n = 0)))

theorem pyIndex_unchecked {k : Int32} {n : Nat} (hn : n < 2 ^ 31) (h : Unchecked k n) : pyIndex k.toInt n = none := by
  have hk : k.toInt = -2 ^ 31 ∨ (k.toInt = 0 ∧ n = 0) := by rwa [← minValue_iff, ← zero_iff]
  unfold pyIndex
  rw [if_neg (by omega), if_neg (by omega)]

theorem offsetOf_unchecked {k : Int32} {n : Nat} (h : Unchecked k n) : ListStorage.offsetOf k n = some 0 :=
  if_pos (h.imp id And.left)

theorem offsetOf_checked {k : Int32} {n : Nat} (h : ¬ Unchecked k n) : ListStorage.offsetOf k n = pyIndex k.toInt n := by
  unfold Unchecked at h
  unfold ListStorage.offsetOf
  split_ifs with hk
  · have h0 : k.toInt = 0 := (zero_iff k).mp (by tauto)
    have hpos : n ≠ 0 := by tauto
    rw [h0, pyIndex, if_pos (by omega)]
    rfl
  · rfl

/-- The bounds are looked at unless the key is unchecked, so only what happens at position 0 then is left to see. -/
theorem indexSafe_iff {σ α : Type} {o : Outcome Exc σ α} {s : σ} {k : Int32} {n : Nat} {act f : Nat → Outcome Exc σ α}
    (hn : n < 2 ^ 31) (hsome : ∀ i, ListStorage.offsetOf k n = some i → o = f i)
    (hnone : ListStorage.offsetOf k n = none → ∃ e, o = .throws e s) (hact : ∀ i < n, f i = act i) :
    IndexSafe o s k n act ↔ (Unchecked k n → ∃ e, f 0 = .throws e s) := by
  unfold IndexSafe
  by_cases h : Unchecked k n
  · rw [pyIndex_unchecked hn h, hsome 0 (offsetOf_unchecked h)]
    simp [h]
  · rw [offsetOf_checked h] at hsome hnone
    cases hp : pyIndex k.toInt n with
    | none => simp [h, hnone hp]
    | some i => simp [h, hsome i hp, hact i (pyIndex_lt hp)]

theorem readAt_not_throws {σ : Type} (s : σ) (records : List Record) (i : Nat) (e : Exc) :
    readAt s records i ≠ .throws e s := by
  unfold readAt
  cases records[i]? <;> simp

/-! ## The list -/

namespace ListStorage

variable (s : ListStorage) (k : Int32) (value metadata : TioData) (hlen : s.data.length < 2 ^ 31)

def setAt (i : Nat) : Outcome Exc ListStorage Unit :=
  .ok () (s.changed (s.data.modify i (assign value metadata)) ⟨.set, .int k, value, metadata⟩)

def deleteAt (i : Nat) : Outcome Exc ListStorage Unit :=
  .ok () (s.changed (s.data.eraseIdx i) ⟨.delete, .int (Int32.ofNat i), value, metadata⟩)

include hlen

theorem getRecord_spec :
    (getRecord (.int k)).run s =
      match offsetOf k s.data.length with
      | some i => readAt s s.records i
      | none => .throws (invalidArgument "out of bounds") s := by
  unfold getRecord
  rw [run_lockGuard, Prog.run_bind, getOffset_spec _ k (by exact hlen)]
  cases offsetOf k s.data.length with
  | none => rfl
  | some i =>
    dsimp only
    rw [Prog.run_get_bind, readAt, records_getElem?]
    cases s.data[i]? <;> rfl

theorem getRecord_indexSafe :
    IndexSafe ((getRecord (.int k)).run s) s k s.data.length (readAt s s.records) ↔ ¬ Unchecked k s.data.length := by
  have hspec := getRecord_spec s k hlen
  refine (indexSafe_iff hlen (f := readAt s s.records) ?_ ?_ fun _ _ => rfl).trans ?_
  · intro i hi
    rw [hspec, hi]
  · intro hnone
    exact ⟨_, by rw [hspec, hnone]⟩
  · simp [readAt_not_throws]

theorem set_indexSafe :
    IndexSafe ((set (.int k) value metadata).run s) s k s.data.length (s.setAt k value metadata) ↔
      ¬ Unchecked k s.data.length := by
  have hspec := set_spec s value metadata k hlen
  refine (indexSafe_iff hlen (f := fun i => if s.data.length ≤ i then .undefined else s.setAt k value metadata i)
    ?_ ?_ ?_).trans ?_
  · intro i hi
    rw [hspec, hi]
    rfl
  · intro hnone
    exact ⟨_, by rw [hspec, hnone]⟩
  · intro i hi
    exact if_neg (by omega)
  · by_cases h : s.data.length ≤ 0 <;> simp [h, setAt]

theorem delete_indexSafe :
    IndexSafe ((delete (.int k) value metadata).run s) s k s.data.length (s.deleteAt value metadata) ↔
      (Unchecked k s.data.length → s.data.length = 0) := by
  have hspec := delete_spec s value metadata k hlen
  refine (indexSafe_iff hlen (f := fun i =>
    if i = s.data.length then .throws (runtimeError "invalid index") s else s.deleteAt value metadata i) ?_ ?_ ?_).trans ?_
  · intro i hi
    rw [hspec, hi]
    rfl
  · intro hnone
    exact ⟨_, by rw [hspec, hnone]⟩
  · intro i hi
    exact if_neg (by omega)
  · by_cases h : 0 = s.data.length
    · simp [← h]
    · simp [h, Ne.symm h, deleteAt]

end ListStorage

/-! ## The map -/

namespace MapStorage

theorem getRecord_int (s : MapStorage) (k : Int32) :
    (getRecord (.int k)).run s =
      match normalizeIndex k (Int32.ofNat s.data.size) true with
      | .ok offset => readAt s s.records offset.toNat
      | .error e => .throws e s := by
  unfold getRecord getInternalRecord
  simp only [Prog.run_bind, Prog.run_get]
  cases normalizeIndex k (Int32.ofNat s.data.size) true with
  | error e => rfl
  | ok offset =>
    simp only [Prog.run_ofExcept_ok, readAt, records, List.getElem?_map]
    cases s.data.toList[offset.toNat]? <;> rfl

theorem getRecord_spec (s : MapStorage) (k : Int32) (hlen : s.data.size < 2 ^ 31) :
    (getRecord (.int k)).run s =
      match ListStorage.offsetOf k s.data.size with
      | some i => readAt s s.records i
      | none => .throws (invalidArgument "out of bounds") s := by
  rw [getRecord_int, normalizeIndex_spec k _ hlen, ListStorage.offsetOf]
  split_ifs with hk
  · rfl
  · cases hp : pyIndex k.toInt s.data.size with
    | none => rfl
    | some i =>
      have hi := lt_trans (pyIndex_lt hp) hlen
      have hpos : (Int32.ofNat i).toUInt32.toNat = i := by
        rw [Int32.toUInt32_ofNat', UInt32.toNat_ofNat_of_lt' (lt_trans hi (by decide))]
      dsimp only
      rw [hpos]

theorem getRecord_indexSafe (s : MapStorage) (k : Int32) (hlen : s.data.size < 2 ^ 31) :
    IndexSafe ((getRecord (.int k)).run s) s k s.data.size (readAt s s.records) ↔ ¬ Unchecked k s.data.size := by
  have hspec := getRecord_spec s k hlen
  refine (indexSafe_iff hlen (f := readAt s s.records) ?_ ?_ fun _ _ => rfl).trans ?_
  · intro i hi
    rw [hspec, hi]
  · intro hnone
    exact ⟨_, by rw [hspec, hnone]⟩
  · simp [readAt_not_throws]

end MapStorage

/-! ## Both -/

/-- An index is safe for an operation exactly if it is not one of the two that are not checked; `Delete` of the empty
list is safe all the same, as it looks for the end iterator. -/
theorem index_safe_iff (k : Int32) (value metadata : TioData) :
    (∀ s : ListStorage, s.data.length < 2 ^ 31 →
      (IndexSafe ((ListStorage.getRecord (.int k)).run s) s k s.data.length (readAt s s.records) ↔
        ¬ Unchecked k s.data.length) ∧
      (IndexSafe ((ListStorage.set (.int k) value metadata).run s) s k s.data.length (s.setAt k value metadata) ↔
        ¬ Unchecked k s.data.length) ∧
      (IndexSafe ((ListStorage.delete (.int k) value metadata).run s) s k s.data.length (s.deleteAt value metadata) ↔
        (Unchecked k s.data.length → s.data.length = 0))) ∧
    (∀ s : MapStorage, s.data.size < 2 ^ 31 →
      (IndexSafe ((MapStorage.getRecord (.int k)).run s) s k s.data.size (readAt s s.records) ↔
        ¬ Unchecked k s.data.size)) := by
  refine ⟨fun s hlen => ⟨?_, ?_, ?_⟩, fun s hlen => ?_⟩
  · exact s.getRecord_indexSafe k hlen
  · exact s.set_indexSafe k value metadata hlen
  · exact s.delete_indexSafe k value metadata hlen
  · exact s.getRecord_indexSafe k hlen

theorem index_safe_first_record :
    let l : ListStorage := { ListStorage.new [] [] with data := [⟨.int 5, .none⟩] }
    IndexSafe ((ListStorage.getRecord (.int 0)).run l) l 0 1 (readAt l [⟨.int 0, .int 5, .none⟩]) ∧
    ¬ IndexSafe ((ListStorage.getRecord (.int Int32.minValue)).run l) l Int32.minValue 1
      (readAt l [⟨.int 0, .int 5, .none⟩]) := by
  intro l
  have hzero := (index_safe_iff 0 .none .none).1 l (by decide)
  have hmin := (index_safe_iff Int32.minValue .none .none).1 l (by decide)
  exact ⟨hzero.1.mpr (by decide), mt hmin.1.mp (by decide)⟩

/-- The record 0 of an empty list is read through the end iterator, and so is that of an empty map. -/
theorem end_is_read :
    let l := ListStorage.new [] []
    let m := MapStorage.new [] []
    ¬ IndexSafe ((ListStorage.getRecord (.int 0)).run l) l 0 0 (readAt l []) ∧
    ¬ IndexSafe ((MapStorage.getRecord (.int 0)).run m) m 0 0 (readAt m []) ∧
    (ListStorage.getRecord (.int 0)).run l = .undefined ∧ (MapStorage.getRecord (.int 0)).run m = .undefined := by
  refine ⟨?_, ?_, by decide, by decide⟩
  · rintro ⟨e, he⟩
    cases he
  · rintro ⟨e, he⟩
    cases he

end Tiodb
