import Mathlib.Data.List.Basic
import Tiodb.Lib.Machine
import Tiodb.Storage.Sequences

/-!
# The vector and the list side by side

What one call does to a vector and to a list with the same records, and what follows
for any sequence of calls on two that are empty at first.
-/

namespace Tiodb

open Lib LockProg

/-! ## One call -/

namespace SequenceCall

/-- A `Set` has a value and metadata. -/
def Admitted : SequenceCall → Prop
  | .set _ value metadata => value.isNull = false ∧ metadata.isNull = false
  | _ => True

instance : DecidablePred Admitted
  | .set _ value metadata => inferInstanceAs (Decidable (value.isNull = false ∧ metadata.isNull = false))
  | .pushBack _ _ | .pushFront _ _ | .popBack | .popFront | .insert _ _ _ | .delete _ _ _ | .clear | .getRecord _
  | .getRecordCount | .query _ _ _ => inferInstanceAs (Decidable True)

/-- The calls that do the same to a vector and to a list of `n` records. -/
def Agrees (n : Nat) : SequenceCall → Prop
  | .popFront => n = 0
  | .set key _ _ => ¬Unchecked key n
  | .insert key value _ =>
    key ≠ Int32.minValue ∧ key.toInt ≠ n ∧ (value.isNull = true → pyIndex key.toInt n = none)
  | .delete key _ _ => Unchecked key n → n = 0
  | .getRecord key => ¬Unchecked key n ∧ (key.toInt < 0 → pyIndex key.toInt n = none)
  | .query _ endOffset q => q.isNull = true → n = 0 → endOffset = 0
  | _ => True

instance (n : Nat) : DecidablePred (Agrees n)
  | .popFront => inferInstanceAs (Decidable (n = 0))
  | .set key _ _ => inferInstanceAs (Decidable ¬Unchecked key n)
  | .insert key value _ => inferInstanceAs (Decidable
      (key ≠ Int32.minValue ∧ key.toInt ≠ n ∧ (value.isNull = true → pyIndex key.toInt n = none)))
  | .delete key _ _ => inferInstanceAs (Decidable (Unchecked key n → n = 0))
  | .getRecord key => inferInstanceAs (Decidable
      (¬Unchecked key n ∧ (key.toInt < 0 → pyIndex key.toInt n = none)))
  | .query _ endOffset q => inferInstanceAs (Decidable (q.isNull = true → n = 0 → endOffset = 0))
  | .pushBack _ _ | .pushFront _ _ | .popBack | .clear | .getRecordCount => inferInstanceAs (Decidable True)

/-- Both raise an error, or both return the same; and they have the same records after the call. -/
def Same (data : List ValueAndMetadata) (c : SequenceCall) : Prop :=
  GuardedVector.effectOn data c = ListStorage.effectOn data c ∧ ListStorage.effectOn data c ≠ .undefined

variable (data : List ValueAndMetadata)

theorem popFront_same : Same data .popFront ↔ Agrees data.length .popFront := by
  unfold Same Agrees
  cases data with
  | nil => simp [GuardedVector.effectOn, ListStorage.effectOn]
  | cons r rest => simp [GuardedVector.effectOn, ListStorage.effectOn]

theorem modify_assign {value metadata : TioData} (hv : value.isNull = false) (hm : metadata.isNull = false) (i : Nat) :
    data.modify i (ListStorage.assign value metadata) = data.set i ⟨value, metadata⟩ := by
  have hassign : ListStorage.assign value metadata = fun _ => ⟨value, metadata⟩ := by
    funext r
    simp [ListStorage.assign, hv, hm]
  rw [hassign, List.set_eq_modify]

theorem set_same (key : Int32) {value metadata : TioData} (hlen : data.length < 2 ^ 31) (hv : value.isNull = false)
    (hm : metadata.isNull = false) : Same data (.set key value metadata) ↔ Agrees data.length (.set key value metadata) := by
  unfold Same Agrees
  simp only [GuardedVector.effectOn, ListStorage.effectOn, hv, modify_assign data hv hm]
  by_cases h : Unchecked key data.length
  · rw [pyIndex_unchecked hlen h, offsetOf_unchecked h]
    by_cases h0 : data.length ≤ 0 <;> simp [h, h0]
  · rw [offsetOf_checked h]
    cases hp : pyIndex key.toInt data.length with
    | none => simp [h]
    | some i =>
      have hi : ¬data.length ≤ i := Nat.not_le.mpr (pyIndex_lt hp)
      simp [h, hi]

theorem insert_same (key : Int32) (value metadata : TioData) (hlen : data.length < 2 ^ 31) :
    Same data (.insert key value metadata) ↔ Agrees data.length (.insert key value metadata) := by
  unfold Same Agrees
  simp only [GuardedVector.effectOn, ListStorage.effectOn]
  have hkey := toInt_bounds key
  have hbehind (h : key.toInt = data.length) : pyIndex key.toInt data.length = none := by
    unfold pyIndex
    rw [if_neg (by omega), if_neg (by omega)]
  by_cases h0 : key.toInt = 0
  · have hmin : key ≠ Int32.minValue := by
      rw [Ne, minValue_iff]
      omega
    rw [if_pos h0]
    by_cases hempty : data.length = 0
    · rw [hbehind (by omega)]
      simp [h0, hempty]
    · have hp : pyIndex key.toInt data.length = some 0 := by
        rw [h0, pyIndex, if_pos (by omega)]
        rfl
      have hne : (0 : Int) ≠ data.length := by omega
      rw [hp]
      cases value.isNull <;> simp [hmin, h0, hne]
  · rw [if_neg h0]
    by_cases hn : key.toInt = data.length
    · rw [if_pos hn, hbehind hn]
      simp [hn]
    · rw [if_neg hn]
      by_cases hmin : key = Int32.minValue
      · have hu : Unchecked key data.length := Or.inl hmin
        rw [pyIndex_unchecked hlen hu, offsetOf_unchecked hu]
        simp [hmin]
      · have hu : ¬Unchecked key data.length := by
          rw [Unchecked, zero_iff]
          tauto
        rw [offsetOf_checked hu]
        cases pyIndex key.toInt data.length <;> cases value.isNull <;> simp [hmin, hn]

theorem delete_same (key : Int32) (value metadata : TioData) (hlen : data.length < 2 ^ 31) :
    Same data (.delete key value metadata) ↔ Agrees data.length (.delete key value metadata) := by
  unfold Same Agrees
  simp only [GuardedVector.effectOn, ListStorage.effectOn]
  by_cases h : Unchecked key data.length
  · rw [pyIndex_unchecked hlen h, offsetOf_unchecked h]
    by_cases h0 : 0 = data.length
    · simp [← h0]
    · simp [h, h0, Ne.symm h0]
  · rw [offsetOf_checked h]
    cases hp : pyIndex key.toInt data.length with
    | none => simp [h]
    | some i =>
      have hi : i ≠ data.length := Nat.ne_of_lt (pyIndex_lt hp)
      simp [h, hi]

theorem getRecord_same (key : Int32) (hlen : data.length < 2 ^ 31) :
    Same data (.getRecord key) ↔ Agrees data.length (.getRecord key) := by
  unfold Same Agrees
  simp only [GuardedVector.effectOn, ListStorage.effectOn]
  by_cases h : Unchecked key data.length
  · rw [pyIndex_unchecked hlen h, offsetOf_unchecked h]
    dsimp only
    cases data[0]? <;> simp [h]
  · rw [offsetOf_checked h]
    cases hp : pyIndex key.toInt data.length with
    | none => simp [h]
    | some i =>
      have hi := pyIndex_lt hp
      have hkey : key = Int32.ofNat i ↔ ¬key.toInt < 0 := by
        rw [← Int32.toInt_inj, Int32.toInt_ofNat_of_lt (hi.trans hlen)]
        unfold pyIndex at hp
        split_ifs at hp <;> simp only [Option.some.injEq] at hp <;> omega
      simp [h, List.getElem?_eq_getElem hi, hkey]

theorem query_same (startOffset endOffset : Int32) (q : TioData) :
    Same data (.query startOffset endOffset q) ↔ Agrees data.length (.query startOffset endOffset q) := by
  unfold Same Agrees
  simp only [GuardedVector.effectOn, ListStorage.effectOn]
  cases hq : q.isNull with
  | false => simp
  | true =>
    by_cases hempty : data = []
    · by_cases hend : endOffset = 0
      · simp [hempty, hend]
      · by_cases hneg : endOffset < 0 <;> simp [hempty, hend, hneg]
    · simp [hempty]

theorem same_iff (c : SequenceCall) (hc : c.Admitted) (hlen : data.length < 2 ^ 31) :
    Same data c ↔ c.Agrees data.length := by
  cases c with
  | popFront => exact popFront_same data
  | set key value metadata => exact set_same data key hlen hc.1 hc.2
  | insert key value metadata => exact insert_same data key value metadata hlen
  | delete key value metadata => exact delete_same data key value metadata hlen
  | getRecord key => exact getRecord_same data key hlen
  | query startOffset endOffset q => exact query_same data startOffset endOffset q
  | pushBack value metadata =>
    simp only [Same, Agrees, GuardedVector.effectOn, ListStorage.effectOn]
    split_ifs <;> simp
  | pushFront value metadata =>
    simp only [Same, Agrees, GuardedVector.effectOn, ListStorage.effectOn]
    split_ifs <;> simp
  | popBack =>
    simp only [Same, Agrees, GuardedVector.effectOn, ListStorage.effectOn]
    cases data.getLast? <;> simp
  | clear => simp [Same, Agrees, GuardedVector.effectOn, ListStorage.effectOn]
  | getRecordCount => simp [Same, Agrees, GuardedVector.effectOn, ListStorage.effectOn]

end SequenceCall

/-! ## Any number of calls -/

namespace SequenceCall

/-- A vector and a list that are given the same calls. -/
abbrev Pair := VectorStorage × ListStorage

def vectorRun (c : SequenceCall) (v : VectorStorage) : Outcome Exc VectorStorage Returned :=
  unlocked ((GuardedVector.exec .recursive 0 c.storageCall).run ⟨v, 0⟩)

def listRun (c : SequenceCall) (l : ListStorage) : Outcome Exc ListStorage Returned :=
  (ListStorage.exec 0 c.storageCall).run l

def step (p : Pair) (c : SequenceCall) : Option Pair :=
  (c.vectorRun p.1).next.bind fun v => (c.listRun p.2).next.map fun l => (v, l)

/-- Both raise an error at the call or return the same, and both hold the same records after it. -/
def SameCall (p : Pair) (c : SequenceCall) : Prop :=
  effect VectorStorage.data (c.vectorRun p.1) = effect ListStorage.data (c.listRun p.2) ∧
    effect ListStorage.data (c.listRun p.2) ≠ .undefined

instance (p : Pair) (c : SequenceCall) : Decidable (SameCall p c) := inferInstanceAs (Decidable (_ ∧ _))

/-- The call does the same to both, and the records can be counted by an `int`. -/
def Meant (p : Pair) (c : SequenceCall) : Prop := p.2.data.length < 2 ^ 31 ∧ c.Agrees p.2.data.length

instance (p : Pair) (c : SequenceCall) : Decidable (Meant p c) := inferInstanceAs (Decidable (_ ∧ _))

def isChange : SequenceCall → Bool
  | .getRecord _ => false
  | .getRecordCount => false
  | .query .. => false
  | _ => true

/-- The call changes the list, and so counts as a revision. -/
def counted (l : ListStorage) (c : SequenceCall) : Bool :=
  c.isChange && match c.listRun l with
    | .ok _ _ => true
    | _ => false

def changes (p : Pair) : List SequenceCall → Nat
  | [] => 0
  | c :: cs =>
    (if c.counted p.2 then 1 else 0) +
      match c.step p with
      | some p' => changes p' cs
      | none => 0

theorem next_of_effect {σ : Type} {data : σ → List ValueAndMetadata} {o : Outcome Exc σ Returned}
    (h : effect data o ≠ .undefined) : ∃ s, o.next = some s ∧ (effect data o).records = data s := by
  cases o with
  | ok r s => exact ⟨s, rfl, rfl⟩
  | throws e s => exact ⟨s, rfl, rfl⟩
  | undefined => exact absurd rfl h

theorem SameCall.step {p : Pair} {c : SequenceCall} (h : SameCall p c) :
    ∃ p', SequenceCall.step p c = some p' ∧ p'.1.data = p'.2.data := by
  obtain ⟨l, hl, hdata⟩ := next_of_effect h.2
  obtain ⟨v, hv, hdata'⟩ := next_of_effect (h.1 ▸ h.2)
  refine ⟨(v, l), ?_, ?_⟩
  · rw [SequenceCall.step, hv, hl]
    rfl
  · rw [← hdata', h.1, hdata]

theorem sameCall_of_meant {p : Pair} {c : SequenceCall} (hp : p.1.data = p.2.data) (hc : c.Admitted) (h : Meant p c) :
    SameCall p c := by
  have hv : effect VectorStorage.data (c.vectorRun p.1) = GuardedVector.effectOn p.2.data c := by
    rw [← hp]
    exact GuardedVector.effectOn_spec p.1 c (by rw [hp]; exact h.1)
  have hl : effect ListStorage.data (c.listRun p.2) = ListStorage.effectOn p.2.data c :=
    ListStorage.effectOn_spec p.2 c h.1
  unfold SameCall
  rw [hv, hl]
  exact (same_iff p.2.data c hc h.1).mpr h.2

/-- An operation of the list counts one revision, or throws and changes nothing. -/
def CountsOne {α : Type} (x : ListStorage.ListM α) (l : ListStorage) : Prop :=
  (∀ a t, x.run l = .ok a t → t.revNum = l.revNum + 1) ∧ ∀ e t, x.run l = .throws e t → t = l

variable {l : ListStorage}

theorem CountsOne.of_changed {α : Type} {x : ListStorage.ListM α} {a : α} {data : List ValueAndMetadata} {e : Event}
    (h : x.run l = .ok a (l.changed data e)) : CountsOne x l := by
  refine ⟨fun a' t ht => ?_, fun e t ht => ?_⟩
  · rw [h] at ht
    obtain ⟨-, rfl⟩ := Outcome.ok.inj ht
    rfl
  · rw [h] at ht
    cases ht

theorem CountsOne.of_throws {α : Type} {x : ListStorage.ListM α} {e : Exc} (h : x.run l = .throws e l) :
    CountsOne x l := by
  refine ⟨fun a t ht => ?_, fun e' t ht => ?_⟩
  · rw [h] at ht
    cases ht
  · rw [h] at ht
    exact (Outcome.throws.inj ht).2.symm

theorem CountsOne.of_undefined {α : Type} {x : ListStorage.ListM α} (h : x.run l = .undefined) : CountsOne x l := by
  refine ⟨fun a t ht => ?_, fun e t ht => ?_⟩
  · rw [h] at ht
    cases ht
  · rw [h] at ht
    cases ht

theorem CountsOne.pure {α β : Type} {x : ListStorage.ListM α} (h : CountsOne x l) (f : α → β) :
    CountsOne (x >>= fun a => Pure.pure (f a)) l := by
  cases hr : x.run l with
  | ok a t =>
    refine ⟨fun b u hu => ?_, fun e u hu => ?_⟩
    · rw [Prog.run_bind_ok _ _ hr] at hu
      obtain ⟨-, rfl⟩ := Outcome.ok.inj hu
      exact h.1 a t hr
    · rw [Prog.run_bind_ok _ _ hr] at hu
      cases hu
  | throws e t =>
    obtain rfl := h.2 e t hr
    exact .of_throws (Prog.run_bind_throws _ _ hr)
  | undefined => exact .of_undefined (by rw [Prog.run_bind, hr])

theorem listRun_countsOne {c : SequenceCall} (hlen : l.data.length < 2 ^ 31) (hc : c.isChange = true) :
    CountsOne (ListStorage.exec 0 c.storageCall) l := by
  cases c with
  | pushBack value metadata =>
    refine CountsOne.pure ?_ _
    have hspec := ListStorage.pushBack_spec l .none value metadata
    split_ifs at hspec
    · exact .of_throws hspec
    · exact .of_changed hspec
  | pushFront value metadata =>
    refine CountsOne.pure ?_ _
    have hspec := ListStorage.pushFront_spec l .none value metadata
    split_ifs at hspec
    · exact .of_throws hspec
    · exact .of_changed hspec
  | popBack =>
    refine CountsOne.pure ?_ _
    have hspec := ListStorage.popBack_spec l (some .none) (some .none)
    cases hlast : l.data.getLast? with
    | none => exact .of_throws (by rw [hspec, hlast])
    | some r => exact .of_changed (by rw [hspec, hlast])
  | popFront =>
    refine CountsOne.pure ?_ _
    have hspec := ListStorage.popFront_spec l (some .none) (some .none)
    cases hhead : l.data.head? with
    | none => exact .of_throws (by rw [hspec, hhead])
    | some r => exact .of_changed (by rw [hspec, hhead])
  | set key value metadata =>
    refine CountsOne.pure ?_ _
    have hspec := ListStorage.set_spec l value metadata key hlen
    cases hoffset : ListStorage.offsetOf key l.data.length with
    | none => exact .of_throws (by rw [hspec, hoffset])
    | some i =>
      by_cases hi : l.data.length ≤ i
      · exact .of_undefined (by rw [hspec, hoffset]; exact if_pos hi)
      · exact .of_changed (by rw [hspec, hoffset]; exact if_neg hi)
  | insert key value metadata =>
    refine CountsOne.pure ?_ _
    have hspec := ListStorage.insert_spec l value metadata key hlen
    split_ifs at hspec
    · exact .of_changed hspec
    · exact .of_changed hspec
    · cases hoffset : ListStorage.offsetOf key l.data.length with
      | none => exact .of_throws (by rw [hspec, hoffset])
      | some i => exact .of_changed (by rw [hspec, hoffset])
  | delete key value metadata =>
    refine CountsOne.pure ?_ _
    have hspec := ListStorage.delete_spec l value metadata key hlen
    cases hoffset : ListStorage.offsetOf key l.data.length with
    | none => exact .of_throws (by rw [hspec, hoffset])
    | some i =>
      by_cases hi : i = l.data.length
      · exact .of_throws (by rw [hspec, hoffset]; exact if_pos hi)
      · exact .of_changed (by rw [hspec, hoffset]; exact if_neg hi)
  | clear => exact CountsOne.pure (.of_changed (ListStorage.clear_spec l)) _
  | _ => cases hc

theorem listRun_reads {c : SequenceCall} (hc : c.isChange = false) : (ListStorage.exec 0 c.storageCall).Reads := by
  cases c with
  | getRecord key => exact (ListStorage.getRecord_reads (.int key)).bind fun _ => Prog.reads_pure _
  | getRecordCount =>
    exact (ListStorage.reads_lockGuard (Prog.reads_get.bind fun _ => Prog.reads_pure _)).bind fun _ => Prog.reads_pure _
  | query startOffset endOffset q =>
    exact (ListStorage.query_reads startOffset endOffset q).bind fun _ => Prog.reads_pure _
  | _ => cases hc

theorem listRun_revNum {c : SequenceCall} {l' : ListStorage} (hlen : l.data.length < 2 ^ 31)
    (h : (c.listRun l).next = some l') : l'.revNum = l.revNum + if c.counted l then 1 else 0 := by
  cases hc : c.isChange with
  | false =>
    obtain rfl := listRun_reads hc l l' h
    simp [counted, hc]
  | true =>
    have hone := listRun_countsOne hlen hc
    cases hr : c.listRun l with
    | ok r t =>
      rw [hr] at h
      obtain rfl := Option.some.inj h
      simp [counted, hc, hr, hone.1 r t hr]
    | throws e t =>
      rw [hr] at h
      obtain rfl := Option.some.inj h
      simp [counted, hc, hr, hone.2 e t hr]
    | undefined =>
      rw [hr] at h
      cases h

theorem step_list {p p' : Pair} {c : SequenceCall} (h : step p c = some p') : (c.listRun p.2).next = some p'.2 := by
  obtain ⟨v, -, hmap⟩ := Option.bind_eq_some_iff.mp h
  obtain ⟨l, hl, rfl⟩ := Option.map_eq_some_iff.mp hmap
  exact hl

theorem run_same {p : Pair} (hp : p.1.data = p.2.data) {calls : List SequenceCall} (hc : ∀ c ∈ calls, c.Admitted)
    (hm : Meets step Meant p calls) :
    Meets step SameCall p calls ∧ ∃ p', run step p calls = some p' ∧ p'.1.data = p'.2.data ∧
      p'.2.revNum = p.2.revNum + UInt64.ofNat (changes p calls) := by
  induction calls generalizing p with
  | nil => exact ⟨trivial, p, rfl, hp, by simp [changes]⟩
  | cons c calls ih =>
    have hsame := sameCall_of_meant hp (hc c (by simp)) hm.1
    obtain ⟨p₁, hstep, hp₁⟩ := hsame.step
    obtain ⟨hrest, p', hrun, hp', hrev⟩ := ih hp₁ (fun c' hc' => hc c' (by simp [hc'])) (hm.2 p₁ hstep)
    refine ⟨⟨hsame, fun q hq => ?_⟩, p', run_cons.mpr ⟨p₁, hstep, hrun⟩, hp', ?_⟩
    · obtain rfl : p₁ = q := Option.some.inj (hstep.symm.trans hq)
      exact hrest
    · rw [hrev, listRun_revNum hm.1.1 (step_list hstep)]
      simp only [changes, hstep]
      split_ifs <;> simp [UInt64.ofNat_add, UInt64.add_assoc]

end SequenceCall

/-! ## Both from the start -/

/-- What `GetRevNum` returns. -/
def revNums (p : SequenceCall.Pair) : Option (Except Exc Returned) × Option (Except Exc Returned) :=
  ((unlocked ((GuardedVector.exec .recursive 0 .getRevNum).run ⟨p.1, 0⟩)).result,
    ((ListStorage.exec 0 .getRevNum).run p.2).result)

open SequenceCall in
/-- An empty vector and an empty list are the same under any calls that are the same on both, but for `GetRevNum`, which
tells them apart once a call has changed them. -/
theorem vector_like_list (name type : Bytes) (calls : List SequenceCall) (hc : ∀ c ∈ calls, c.Admitted)
    (hm : Meets step Meant (VectorStorage.new name type, ListStorage.new name type) calls) :
    Meets step SameCall (VectorStorage.new name type, ListStorage.new name type) calls ∧
    ∃ p, run step (VectorStorage.new name type, ListStorage.new name type) calls = some p ∧ p.1.data = p.2.data ∧
      ((revNums p).1 = (revNums p).2 ↔
        2 ^ 64 ∣ changes (VectorStorage.new name type, ListStorage.new name type) calls) := by
  obtain ⟨hsame, p, hrun, hp, hrev⟩ := run_same (p := (VectorStorage.new name type, ListStorage.new name type)) rfl hc hm
  refine ⟨hsame, p, hrun, hp, ?_⟩
  generalize changes (VectorStorage.new name type, ListStorage.new name type) calls = n at hrev ⊢
  have hvector : (revNums p).1 = some (.ok (.number 0)) := rfl
  have hlist : (revNums p).2 = some (.ok (.number p.2.revNum)) := rfl
  have hzero : (ListStorage.new name type).revNum + UInt64.ofNat n = 0 ↔ 2 ^ 64 ∣ n := by
    rw [← UInt64.toNat_inj, UInt64.toNat_add, UInt64.toNat_ofNat', Nat.dvd_iff_mod_eq_zero]
    simp [ListStorage.new]
  rw [hvector, hlist, hrev]
  simp only [Option.some.injEq, Except.ok.injEq, Returned.number.injEq]
  rw [eq_comm]
  exact hzero

theorem vector_like_list_four_calls :
    let calls : List SequenceCall := [.pushBack (.int 5) .none, .pushFront (.int 4) (.int 1), .insert 1 (.int 6) .none,
      .getRecord 2]
    let start := (VectorStorage.new [] [], ListStorage.new [] [])
    Meets SequenceCall.step SequenceCall.SameCall start calls ∧
    ∃ p, run SequenceCall.step start calls = some p ∧ p.1.data = p.2.data ∧ (revNums p).1 ≠ (revNums p).2 := by
  intro calls start
  obtain ⟨hsame, p, hrun, hp, hrev⟩ := vector_like_list [] [] calls (by decide) (by decide)
  exact ⟨hsame, p, hrun, hp, mt hrev.mp (by decide)⟩

/-- The key -1 comes back from the vector as it is, and from the list as 0; and the vector counts no revision. -/
theorem negative_key_comes_back :
    ∃ p, run SequenceCall.step (VectorStorage.new [] [], ListStorage.new [] []) [.pushBack (.int 5) .none] = some p ∧
      ¬SequenceCall.SameCall p (.getRecord (-1)) ∧ (revNums p).1 ≠ (revNums p).2 :=
  ⟨_, rfl, by decide, by decide⟩

end Tiodb
