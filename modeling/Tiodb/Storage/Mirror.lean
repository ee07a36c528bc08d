import Tiodb.Lib.Machine
import Tiodb.Lib.Replay
import Tiodb.Storage.ListStorage

/-!
# Mirrors of a list

A subscriber that has a copy of a list keeps it up to date with the events alone.
`ListMirror` of `test_tio.py` says how, in Python lists; `none` is an `IndexError`
or a `TypeError`.
-/

namespace Tiodb

open Lib

namespace ListMirror

/-- Where `list.insert(k, x)` puts `x`: an index beyond either end is pushed to that end. -/
def insertIndex (k : Int) (n : Nat) : Nat := if 0 ≤ k then min k.toNat n else (n + k).toNat

def onEvent (l : List ValueAndMetadata) (e : Event) : Option (List ValueAndMetadata) :=
  match e.code, e.k with
  | .pushBack, _ => some (l ++ [⟨e.v, e.m⟩])
  | .pushFront, _ => some (⟨e.v, e.m⟩ :: l)
  | .insert, .int k => some (l.insertIdx (insertIndex k.toInt l.length) ⟨e.v, e.m⟩)
  | .delete, .int k => (pyIndex k.toInt l.length).map l.eraseIdx
  | .set, .int k => (pyIndex k.toInt l.length).map fun i => l.modify i (ListStorage.assign e.v e.m)
  | .clear, _ => some []
  | .snapshotEnd, _ => some l
  | _, _ => none

theorem replay_resultSet (l data : List ValueAndMetadata) (k : Nat) :
    replay onEvent l ((data.zipIdx k).map fun p =>
      ⟨.pushBack, .int (0 + Int32.ofNat p.2), p.1.value, p.1.metadata⟩) = some (l ++ data) := by
  induction data generalizing l k with
  | nil => simp
  | cons r data ih =>
    have hfirst : replay onEvent l [⟨.pushBack, .int (0 + Int32.ofNat k), r.value, r.metadata⟩] = some (l ++ [r]) := rfl
    rw [List.zipIdx_cons, List.map_cons, ← List.singleton_append, replay_append, hfirst, Option.bind_some, ih]
    simp

end ListMirror

namespace ListStorage

open ListMirror

/-- An operation whose published key is a Python index of the list, and fits an `int`. -/
def InRange (s : ListStorage) : Op → Prop
  | .popBack _ _ => s.data.length ≤ 2 ^ 31
  | .set key _ _ => (s.data = [] → key ≠ .int 0) ∧ s.data.length < 2 ^ 31 ∧ key ≠ .int Int32.minValue
  | .insert _ _ _ => s.data.length < 2 ^ 31
  | .delete _ _ _ => s.data.length < 2 ^ 31
  | _ => True

instance (s : ListStorage) : DecidablePred s.InRange
  | .popBack _ _ => inferInstanceAs (Decidable (_ ≤ _))
  | .set _ _ _ => inferInstanceAs (Decidable (_ ∧ _ ∧ _))
  | .insert _ _ _ => inferInstanceAs (Decidable (_ < _))
  | .delete _ _ _ => inferInstanceAs (Decidable (_ < _))
  | .pushBack _ _ _ => inferInstanceAs (Decidable True)
  | .pushFront _ _ _ => inferInstanceAs (Decidable True)
  | .popFront _ _ => inferInstanceAs (Decidable True)
  | .clear => inferInstanceAs (Decidable True)

def stepOp (s : ListStorage) (op : Op) : Option ListStorage := (op.exec.run s).next

/-! ## One operation -/

/-- The operation throws and nothing happens, or a mirror that applies what was published follows it. -/
def Mirrored (s : ListStorage) (o : Outcome Exc ListStorage Unit) : Prop :=
  (∃ e, o = .throws e s) ∨ ∃ data ev, o = .ok () (s.changed data ev) ∧ onEvent s.data ev = some data

variable {s : ListStorage} {key value metadata : TioData}

theorem pyIndex_ofNat {i n : Nat} (hi : i < n) (hn : n ≤ 2 ^ 31) :
    pyIndex (Int32.ofNat i).toInt n = some i := by
  rw [Int32.toInt_ofNat_of_lt (by omega), pyIndex, if_pos (by omega), Int.toNat_natCast]

theorem popBack_mirrored (v m : Option TioData) (hlen : s.data.length ≤ 2 ^ 31) :
    s.Mirrored ((Op.popBack v m).exec.run s) := by
  simp only [Op.exec, Prog.run_bind, popBack_spec]
  cases hl : s.data.getLast? with
  | none => exact Or.inl ⟨_, rfl⟩
  | some r =>
    refine Or.inr ⟨s.data.dropLast, _, rfl, ?_⟩
    have hpos : 0 < s.data.length := List.length_pos_iff.mpr fun h => by simp [h] at hl
    simp only [onEvent, pyIndex_ofNat (by omega : s.data.length - 1 < s.data.length) hlen, Option.map_some]
    rw [List.eraseIdx_length_sub_one]

theorem popFront_mirrored (v m : Option TioData) : s.Mirrored ((Op.popFront v m).exec.run s) := by
  simp only [Op.exec, Prog.run_bind, popFront_spec]
  cases h : s.data with
  | nil => exact Or.inl ⟨_, rfl⟩
  | cons r rest =>
    refine Or.inr ⟨rest, _, rfl, ?_⟩
    have hpy : pyIndex (0 : Int32).toInt s.data.length = some 0 := by
      rw [zero_toInt, pyIndex, if_pos (by simp [h])]
      rfl
    simp only [onEvent, hpy]
    simp [h]

/-- Only the least `int`, and 0 in an empty list, are not what Python takes them for. -/
theorem offsetOf_eq_pyIndex {k : Int32} {n : Nat} (hn : n = 0 → k ≠ 0) (hk : k ≠ Int32.minValue) :
    offsetOf k n = pyIndex k.toInt n := by
  by_cases h0 : k = 0
  · have hpos : n ≠ 0 := fun h => hn h h0
    rw [offsetOf, if_pos (Or.inr h0), h0, zero_toInt, pyIndex, if_pos (by omega)]
    rfl
  · rw [offsetOf, if_neg (by simp [h0, hk])]

theorem set_mirrored (hempty : s.data = [] → key ≠ .int 0) (hlen : s.data.length < 2 ^ 31) (hk : key ≠ .int Int32.minValue) :
    s.Mirrored ((Op.set key value metadata).exec.run s) := by
  cases key with
  | int k =>
    have hoff := offsetOf_eq_pyIndex (fun h => by simpa using hempty (List.length_eq_zero_iff.mp h)) (by simpa using hk)
    simp only [Op.exec, set_spec _ _ _ _ hlen, hoff]
    cases hp : pyIndex k.toInt s.data.length with
    | none => exact Or.inl ⟨_, rfl⟩
    | some i =>
      have hi := pyIndex_lt hp
      exact Or.inr ⟨_, _, if_neg (by omega), by simp [onEvent, hp]⟩
  | _ => exact Or.inl ⟨_, rfl⟩

theorem offsetOf_le {k : Int32} {n i : Nat} (h : offsetOf k n = some i) : i ≤ n := by
  unfold offsetOf at h
  split_ifs at h
  · obtain rfl : 0 = i := by simpa using h
    exact Nat.zero_le n
  · exact (pyIndex_lt h).le

theorem delete_mirrored (hlen : s.data.length < 2 ^ 31) :
    s.Mirrored ((Op.delete key value metadata).exec.run s) := by
  cases key with
  | int k =>
    simp only [Op.exec, delete_spec _ _ _ _ hlen]
    cases ho : offsetOf k s.data.length with
    | none => exact Or.inl ⟨_, rfl⟩
    | some i =>
      by_cases hi : i = s.data.length
      · exact Or.inl ⟨_, if_pos hi⟩
      · have hle : i ≤ s.data.length := offsetOf_le ho
        refine Or.inr ⟨_, _, if_neg hi, ?_⟩
        simp only [onEvent, pyIndex_ofNat (by omega : i < s.data.length) (by omega), Option.map_some]
  | _ => exact Or.inl ⟨_, rfl⟩

/-- A key that `GetOffset` takes is where `list.insert` puts the record, the least `int` included. -/
theorem insertIndex_of_offsetOf {k : Int32} {n i : Nat} (hn : n < 2 ^ 31) (h : offsetOf k n = some i) :
    insertIndex k.toInt n = i := by
  simp only [offsetOf, minValue_iff, zero_iff] at h
  unfold insertIndex
  split_ifs at h with hk
  · obtain rfl : 0 = i := by simpa using h
    split_ifs <;> omega
  · unfold pyIndex at h
    split_ifs at h <;> simp only [Option.some.injEq] at h <;> split_ifs <;> omega

theorem insert_mirrored (hlen : s.data.length < 2 ^ 31) :
    s.Mirrored ((Op.insert key value metadata).exec.run s) := by
  cases key with
  | int k =>
    have hb := toInt_bounds k
    simp only [Op.exec, insert_spec _ _ _ _ hlen]
    by_cases h0 : k.toInt = 0
    · exact Or.inr ⟨_, _, if_pos h0, by simp [onEvent, insertIndex, h0]⟩
    rw [if_neg h0]
    by_cases hn : k.toInt = s.data.length
    · exact Or.inr ⟨_, _, if_pos hn, by simp [onEvent, insertIndex, hn]⟩
    rw [if_neg hn]
    cases ho : offsetOf k s.data.length with
    | none => exact Or.inl ⟨_, rfl⟩
    | some i =>
      refine Or.inr ⟨_, _, rfl, ?_⟩
      have hi : insertIndex k.toInt s.data.length = i := insertIndex_of_offsetOf hlen ho
      simp only [onEvent, hi]
  | _ => exact Or.inl ⟨_, rfl⟩

theorem exec_mirrored (op : Op) (h : InRange s op) : s.Mirrored (op.exec.run s) := by
  cases op with
  | pushBack k v m =>
    simp only [Op.exec, pushBack_spec]
    cases hv : v.isNull
    · exact Or.inr ⟨_, _, rfl, rfl⟩
    · exact Or.inl ⟨_, rfl⟩
  | pushFront k v m =>
    simp only [Op.exec, pushFront_spec]
    cases hv : v.isNull
    · exact Or.inr ⟨_, _, rfl, rfl⟩
    · exact Or.inl ⟨_, rfl⟩
  | popBack v m => exact popBack_mirrored v m h
  | popFront v m => exact popFront_mirrored v m
  | set k v m => exact set_mirrored h.1 h.2.1 h.2.2
  | insert k v m => exact insert_mirrored h
  | delete k v m => exact delete_mirrored h
  | clear => exact Or.inr ⟨_, _, clear_spec s, rfl⟩

/-! ## Whole runs -/

def Follows (initial : List ValueAndMetadata) (s : ListStorage) : Prop :=
  s.sink = true ∧ replay onEvent initial s.published = some s.data

theorem stepOp_follows {initial : List ValueAndMetadata} {op : Op} (hf : s.Follows initial)
    (hr : InRange s op) : ∃ s', stepOp s op = some s' ∧ s'.Follows initial := by
  obtain ⟨hsink, hrep⟩ := hf
  rcases exec_mirrored op hr with ⟨e, he⟩ | ⟨data, ev, hok, hev⟩
  · exact ⟨s, by rw [stepOp, he]; rfl, hsink, hrep⟩
  · refine ⟨s.changed data ev, by rw [stepOp, hok]; rfl, hsink, ?_⟩
    simp only [changed, hsink, if_true]
    rw [replay_concat ev hrep, hev]

/-- A mirror follows every run whose keys are in range, and what throws publishes nothing. -/
theorem mirror_follows_run (s : ListStorage) (ops : List Op) (hsink : s.sink = true)
    (hpub : s.published = []) (hr : Meets stepOp InRange s ops) :
    (∃ s', run stepOp s ops = some s' ∧ replay onEvent s.data s'.published = some s'.data) ∧
      ∀ (t t' : ListStorage) (op : Op) (e : Exc), op.exec.run t = .throws e t' →
        t'.published = t.published ∧ t'.data = t.data := by
  refine ⟨?_, fun t t' op e h => by rw [exec_throws t op t' e h]; exact ⟨rfl, rfl⟩⟩
  have h0 : s.Follows s.data := ⟨hsink, by rw [hpub]; rfl⟩
  generalize s.data = initial at h0
  clear hsink hpub
  induction ops generalizing s with
  | nil => exact ⟨s, rfl, h0.2⟩
  | cons op ops ih =>
    obtain ⟨s', hs', hf'⟩ := stepOp_follows h0 hr.1
    obtain ⟨t, ht, hrep⟩ := ih s' (hr.2 s' hs') hf'
    exact ⟨t, run_cons.mpr ⟨s', hs', ht⟩, hrep⟩

theorem mirror_follows_run_negative_set :
    let s : ListStorage := ⟨[⟨.int 1, .none⟩, ⟨.int 2, .none⟩], ascii "l", ascii "volatile_list", true, 0, 0, []⟩
    (∃ s', run stepOp s [.set (.int (-1)) (.int 3) .none, .popFront none none] = some s' ∧
        replay onEvent s.data s'.published = some s'.data) ∧
      ∀ (t t' : ListStorage) (op : Op) (e : Exc), op.exec.run t = .throws e t' →
        t'.published = t.published ∧ t'.data = t.data := by
  intro s
  exact mirror_follows_run s _ rfl rfl (by decide)

/-- The least `int` sets the first record, and is an `IndexError` to a mirror. -/
theorem mirror_lost_by_least_key :
    let s : ListStorage := ⟨[⟨.int 1, .none⟩], ascii "l", ascii "volatile_list", true, 0, 0, []⟩
    ∃ s', run stepOp s [.set (.int Int32.minValue) (.int 2) .none] = some s' ∧
      s'.data = [⟨.int 2, .none⟩] ∧ replay onEvent s.data s'.published = none := by
  refine ⟨⟨[⟨.int 2, .none⟩], ascii "l", ascii "volatile_list", true, 1, 0,
    [⟨.set, .int Int32.minValue, .int 2, .none⟩]⟩, ?_, rfl, ?_⟩
  · decide
  · decide

end ListStorage

end Tiodb
