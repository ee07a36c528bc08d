import Tiodb.Storage.ListStorage
import Tiodb.Storage.MapStorage

/-!
# Queries as slices

`Query` of the list and of the map is the Python slice of the records in their order.
`NormalizeForQueries` is the bound of a slice; the two storages then reach the
positions in their own ways.
-/

namespace Tiodb

open Lib

/-! ## Slices -/

/-- Where a bound of a slice stands in a Python sequence of `n` items. -/
def pyBound (k : Int) (n : Nat) : Nat := if k < 0 then (n + k).toNat else min k.toNat n

/-- `l[start:stop]`, or `l[start:]`. -/
def pySlice {α : Type} (l : List α) (start : Int) (stop : Option Int) : List α :=
  let first := pyBound start l.length
  let last := (stop.map fun k => pyBound k l.length).getD l.length
  (l.drop first).take (last - first)

theorem pyBound_le (k : Int) (n : Nat) : pyBound k n ≤ n := by
  unfold pyBound
  split_ifs <;> omega

theorem drop_take_min {α : Type} (l : List α) (first last : Nat) :
    (l.drop (min first last)).take (last - min first last) = (l.drop first).take (last - first) := by
  rcases le_total first last with h | h
  · rw [Nat.min_eq_left h]
  · simp [h]

/-- The end 0 of a query is no bound. -/
def queryStop (stop : Int32) : Option Int := if stop = 0 then none else some stop.toInt

def lastOf (stop : Int32) (n : Nat) : Nat := ((queryStop stop).map fun k => pyBound k n).getD n

theorem lastOf_le (stop : Int32) (n : Nat) : lastOf stop n ≤ n := by
  unfold lastOf queryStop
  split_ifs
  · simp
  · simpa using pyBound_le stop.toInt n

/-! ## The bounds -/

theorem normalizeForQueries_spec (k : Int32) {n : Nat} (hn : n < 2 ^ 31) :
    normalizeForQueries k (Int32.ofNat n) = .ok (Int32.ofNat (pyBound k.toInt n)) := by
  have hk := toInt_bounds k
  have hsize := Int32.toInt_ofNat_of_lt hn
  have hsize0 : Int32.ofNat n = 0 ↔ n = 0 := by
    rw [zero_iff, hsize]
    omega
  -- what is left after the two clamps is in the bounds, but for the least `int`
  have hindex (h0 : n ≠ 0) (hlow : k.toInt < 0 → k.toInt ≠ -2 ^ 31 → 0 ≤ n + k.toInt) (hhigh : k.toInt < n) :
      (normalizeIndex k (Int32.ofNat n) true).map UInt32.toInt32 = .ok (Int32.ofNat (pyBound k.toInt n)) := by
    rw [normalizeIndex_spec k n hn]
    simp only [minValue_iff, zero_iff]
    by_cases hzero : k.toInt = -2 ^ 31 ∨ k.toInt = 0
    · have hbound : pyBound k.toInt n = 0 := by
        unfold pyBound
        split_ifs <;> omega
      rw [if_pos hzero, hbound]
      rfl
    · have hpy : pyIndex k.toInt n = some (pyBound k.toInt n) := by
        unfold pyIndex pyBound
        split_ifs <;> first | omega | rfl | (congr 1; omega)
      rw [if_neg hzero, hpy]
      rfl
  have hlowest : k.toInt < 0 → (n : Int) < k.abs.toInt → n + k.toInt < 0 := by
    intro hneg
    rw [abs_toInt k hneg]
    split_ifs <;> omega
  have hlow : k.toInt < 0 → ¬ (n : Int) < k.abs.toInt → k.toInt ≠ -2 ^ 31 → 0 ≤ n + k.toInt := by
    intro hneg
    rw [abs_toInt k hneg]
    split_ifs <;> omega
  unfold normalizeForQueries
  simp only [hsize0, Int32.lt_iff_toInt_lt, Int32.le_iff_toInt_le, hsize, zero_toInt]
  split_ifs with hzero hbeyond
  · have hbound : pyBound k.toInt n = 0 := by
      unfold pyBound
      split_ifs <;> omega
    rw [hbound]
    rfl
  · have hbound : pyBound k.toInt n = n := by
      unfold pyBound
      split_ifs <;> omega
    rw [hbound]
  · obtain ⟨hne, hnear⟩ := not_or.mp hzero
    exact hindex hne (fun hneg => hlow hneg fun hfar => hnear ⟨hneg, hfar⟩) (by omega)

theorem normalizeQueryLimits_spec (start stop : Int32) {n : Nat} (hn : n < 2 ^ 31) :
    normalizeQueryLimits start stop (Int32.ofNat n) =
      .ok (Int32.ofNat (min (pyBound start.toInt n) (lastOf stop n)), Int32.ofNat (lastOf stop n)) := by
  have hfirst : (Int32.ofNat (pyBound start.toInt n)).toInt = pyBound start.toInt n :=
    Int32.toInt_ofNat_of_lt (lt_of_le_of_lt (pyBound_le _ n) hn)
  have hlast : (Int32.ofNat (lastOf stop n)).toInt = lastOf stop n :=
    Int32.toInt_ofNat_of_lt (lt_of_le_of_lt (lastOf_le stop n) hn)
  have hpair : (if Int32.ofNat (lastOf stop n) < Int32.ofNat (pyBound start.toInt n) then Int32.ofNat (lastOf stop n)
      else Int32.ofNat (pyBound start.toInt n)) = Int32.ofNat (min (pyBound start.toInt n) (lastOf stop n)) := by
    simp only [Int32.lt_iff_toInt_lt, hfirst, hlast]
    split_ifs <;> congr 1 <;> omega
  rw [← hpair]
  unfold normalizeQueryLimits lastOf queryStop
  rw [normalizeForQueries_spec start hn]
  by_cases hstop : stop = 0
  · simp [hstop, bind, Except.bind, pure, Except.pure]
  · simp [hstop, normalizeForQueries_spec stop hn, bind, Except.bind, pure, Except.pure]

/-! ## The list -/

namespace ListStorage

/-- The records of the list, each under its position. -/
def records (s : ListStorage) : List Record :=
  s.data.zipIdx.map fun (r, i) => ⟨.int (Int32.ofNat i), r.value, r.metadata⟩

theorem length_records (s : ListStorage) : s.records.length = s.data.length := by
  simp [records]

theorem records_getElem? (s : ListStorage) (i : Nat) :
    s.records[i]? = s.data[i]?.map fun r => ⟨.int (Int32.ofNat i), r.value, r.metadata⟩ := by
  simp [records, Option.map_map]
  rfl

theorem queryOffset_spec (s : ListStorage) {i : Nat} (hlen : s.data.length < 2 ^ 31) (hi : i ≤ s.data.length) :
    (queryOffset (Int32.ofNat i) (Int32.ofNat s.data.length)).run s = .ok i s := by
  have hoffset := Int32.toInt_ofNat_of_lt (lt_of_le_of_lt hi hlen)
  have hsize := Int32.toInt_ofNat_of_lt hlen
  have h0 : Int32.ofNat i = 0 ↔ i = 0 := by
    rw [zero_iff, hoffset]
    omega
  have hn : Int32.ofNat i = Int32.ofNat s.data.length ↔ i = s.data.length := by
    rw [← Int32.toInt_inj, hoffset, hsize]
    omega
  unfold queryOffset
  simp only [h0, hn]
  split_ifs with hzero hlast
  · simp [hzero]
  · simp [hlast]
  · have hmin : Int32.ofNat i ≠ Int32.minValue := by
      rw [Ne, minValue_iff, hoffset]
      omega
    have hat : offsetOf (Int32.ofNat i) s.data.length = some i := by
      rw [offsetOf, if_neg (not_or.mpr ⟨hmin, mt h0.mp hzero⟩), hoffset, pyIndex, if_pos (by omega)]
      simp
    rw [Prog.run_bind, getOffset_spec s _ hlen, hat]
    rfl

theorem resultSet_eq (s : ListStorage) (first last : Nat) :
    resultSet s.data (Int32.ofNat first) first last = (s.records.drop first).take (last - first) := by
  unfold resultSet records
  apply List.ext_getElem?
  intro i
  simp only [List.getElem?_map, List.getElem?_zipIdx, List.getElem?_take, List.getElem?_drop, Nat.zero_add]
  split_ifs with hi
  · cases s.data[first + i]? with
    | none => rfl
    | some r => simp [Int32.ofNat_add]
  · rfl

theorem query_spec (s : ListStorage) (start stop : Int32) (hlen : s.data.length < 2 ^ 31) :
    (query start stop .none).run s = .ok (pySlice s.records start.toInt (queryStop stop)) s := by
  let first := min (pyBound start.toInt s.data.length) (lastOf stop s.data.length)
  let last := lastOf stop s.data.length
  let held : ListStorage := { s with mutex := s.mutex + 1 }
  have hfirst : first ≤ last := min_le_right _ _
  have hlast : last ≤ s.data.length := lastOf_le stop _
  have hslice : pySlice s.records start.toInt (queryStop stop) = resultSet s.data (Int32.ofNat first) first last := by
    rw [resultSet_eq, drop_take_min]
    unfold pySlice
    rw [length_records]
    rfl
  have hbegin := queryOffset_spec held hlen (hfirst.trans hlast)
  have hend := queryOffset_spec held hlen hlast
  unfold query
  rw [hslice, if_neg (by simp [TioData.isNull]), run_lockGuard, Prog.run_get_bind]
  by_cases hempty : s.data.length = 0
  · have hnone : resultSet s.data (Int32.ofNat first) first last = [] := by
      rw [List.length_eq_zero_iff.mp hempty]
      simp [resultSet]
    rw [if_pos hempty, hnone]
    rfl
  · have hlimits := normalizeQueryLimits_spec start stop hlen
    rw [if_neg hempty]
    dsimp only
    rw [hlimits, Prog.run_bind_ok _ _ (Prog.run_ofExcept_ok _ _)]
    dsimp only
    rw [Prog.run_bind_ok _ _ hbegin, Prog.run_bind_ok _ _ hend, if_neg (by omega)]
    rfl

end ListStorage

/-! ## The map -/

namespace MapStorage

/-- The records of the map, in the order of the keys. -/
def records (s : MapStorage) : List Record :=
  s.data.toList.map fun (k, r) => ⟨.string k, r.value, r.metadata⟩

theorem length_records (s : MapStorage) : s.records.length = s.data.size := by
  simp [records]

theorem advance_spec (s : MapStorage) {i : Nat} (hlen : s.data.size < 2 ^ 31) (hi : i ≤ s.data.size) :
    (advance (Int32.ofNat i)).run s = .ok i s := by
  have hoffset := Int32.toInt_ofNat_of_lt (lt_of_le_of_lt hi hlen)
  have hclamp : (Int32.ofNat i).toNatClampNeg = i := by
    rw [Int32.toNatClampNeg, hoffset, Int.toNat_natCast]
  unfold advance
  rw [Prog.run_get_bind, hoffset, if_pos (by omega), hclamp]
  rfl

theorem resultSet_eq (s : MapStorage) (first last : Nat) :
    resultSet s.data first last = (s.records.drop first).take (last - first) := by
  simp [resultSet, records, List.map_take, List.map_drop]

theorem query_spec (s : MapStorage) (start stop : Int32) (hlen : s.data.size < 2 ^ 31) :
    (query start stop .none).run s = .ok (pySlice s.records start.toInt (queryStop stop)) s := by
  let n := s.data.size
  have hslice : pySlice s.records start.toInt (queryStop stop) =
      resultSet s.data (pyBound start.toInt n) (lastOf stop n) := by
    rw [resultSet_eq]
    unfold pySlice
    rw [length_records]
    rfl
  have hmin : resultSet s.data (min (pyBound start.toInt n) (lastOf stop n)) (lastOf stop n) =
      resultSet s.data (pyBound start.toInt n) (lastOf stop n) := by
    rw [resultSet_eq, resultSet_eq, drop_take_min]
  have hnostop (hstop : stop = 0) : lastOf stop n = n := by
    simp [lastOf, queryStop, hstop]
  unfold query
  rw [hslice, if_neg (by simp [TioData.isNull]), Prog.run_get_bind]
  dsimp only
  split_ifs with hall hstop
  · rw [hnostop hall.2, hall.1]
    simp [pyBound, n]
  · rw [normalizeForQueries_spec start hlen, Prog.run_bind_ok _ _ (Prog.run_ofExcept_ok _ _),
      Prog.run_bind_ok _ _ (advance_spec s hlen (pyBound_le _ _)), hnostop hstop]
    rfl
  · have hfirst : min (pyBound start.toInt n) (lastOf stop n) ≤ s.data.size := (min_le_right _ _).trans (lastOf_le stop n)
    rw [normalizeQueryLimits_spec start stop hlen, Prog.run_bind_ok _ _ (Prog.run_ofExcept_ok _ _)]
    dsimp only
    rw [Prog.run_bind_ok _ _ (advance_spec s hlen hfirst),
      Prog.run_bind_ok _ _ (advance_spec s hlen (lastOf_le stop n)), hmin]
    rfl

end MapStorage

/-! ## Both -/

/-- A query without an expression reads the slice, whatever its bounds, and changes nothing. -/
theorem query_reads_slice (start stop : Int32) :
    (∀ s : ListStorage, s.data.length < 2 ^ 31 →
      (ListStorage.query start stop .none).run s = .ok (pySlice s.records start.toInt (queryStop stop)) s) ∧
    (∀ s : MapStorage, s.data.size < 2 ^ 31 →
      (MapStorage.query start stop .none).run s = .ok (pySlice s.records start.toInt (queryStop stop)) s) :=
  ⟨fun s => s.query_spec start stop, fun s => s.query_spec start stop⟩

theorem query_reads_slice_last_two :
    let l : ListStorage := { ListStorage.new [] [] with data := [⟨.int 5, .none⟩, ⟨.int 6, .none⟩, ⟨.int 7, .none⟩] }
    let m := (MapStorage.new [] []).withData ((∅ : StringMap _).insert (ascii "k") ⟨.int 5, .none⟩)
    (ListStorage.query (-2) 0 .none).run l = .ok [⟨.int 1, .int 6, .none⟩, ⟨.int 2, .int 7, .none⟩] l ∧
    (MapStorage.query (-2) 0 .none).run m = .ok [⟨.string (ascii "k"), .int 5, .none⟩] m := by
  refine ⟨(query_reads_slice (-2) 0).1 _ (by decide), ?_⟩
  exact (query_reads_slice (-2) 0).2 _ (by decide)

end Tiodb
