import Tiodb.Lib.Machine
import Tiodb.Lib.Tables
import Tiodb.Server.DataCommand

/-!
# Keys of a map

A map is a function of its keys as `AsSz()` gives them, which is up to the first NUL.
Keys without a NUL are kept whole, and the map is then what the calls say: under each
key the last record that was put there.
-/

namespace Tiodb

open Lib

/-- A call that changes a map, with a string for its key. -/
inductive MapCall where
  | set (key : Bytes) (value metadata : TioData)
  | insert (key : Bytes) (value metadata : TioData)
  | delete (key : Bytes)
  | clear
  deriving DecidableEq, Repr

namespace MapCall

def exec : MapCall → MapStorage.MapM Unit
  | .set key value metadata => MapStorage.set (.string key) value metadata
  | .insert key value metadata => MapStorage.insert (.string key) value metadata
  | .delete key => MapStorage.delete (.string key) .none .none
  | .clear => MapStorage.clear

def keys : MapCall → List Bytes
  | .set key _ _ => [key]
  | .insert key _ _ => [key]
  | .delete key => [key]
  | .clear => []

/-- The record that the call puts under the key. -/
def puts (k : Bytes) : MapCall → Option ValueAndMetadata
  | .set key value metadata => if key = k then some ⟨value, metadata⟩ else none
  | .insert key value metadata => if key = k then some ⟨value, metadata⟩ else none
  | _ => none

def touches (k : Bytes) : MapCall → Bool
  | .clear => true
  | c => k ∈ c.keys

end MapCall

/-- A map, and the calls that were carried out on it. -/
structure MapHistory where
  storage : MapStorage
  done : List MapCall

namespace MapHistory

def start (name type : Bytes) (sink : Bool) : MapHistory := ⟨{ MapStorage.new name type with sink := sink }, []⟩

/-- A call that throws does not count. -/
def step (h : MapHistory) (c : MapCall) : Option MapHistory :=
  match c.exec.run h.storage with
  | .ok () s => some ⟨s, h.done ++ [c]⟩
  | .throws _ s => some { h with storage := s }
  | .undefined => none

/-- The last record that was put under the key, with no delete of it and no clear since. -/
def LastPut (done : List MapCall) (k : Bytes) (r : ValueAndMetadata) : Prop :=
  ∃ before c after, done = before ++ c :: after ∧ c.puts k = some r ∧ ∀ c' ∈ after, c'.touches k = false

/-- For the keys of `K`, the map is a function of the whole key. -/
structure WholeKeys (K : Set Bytes) (h : MapHistory) : Prop where
  found : ∀ k ∈ K, ∀ r, LastPut h.done k r →
    (MapStorage.getRecord (.string k)).run h.storage = .ok ⟨.string k, r.value, r.metadata⟩ h.storage
  missing : ∀ k ∈ K, (∀ r, ¬LastPut h.done k r) →
    ∃ e, (MapStorage.getRecord (.string k)).run h.storage = .throws e h.storage
  insert : ∀ k ∈ K, ∀ value metadata,
    (∃ e s, (MapStorage.insert (.string k) value metadata).run h.storage = .throws e s) ↔ ∃ r, LastPut h.done k r
  apart : ∀ c : MapCall, (∀ k ∈ c.keys, k ∈ K) → c ≠ .clear → ∀ k' ∈ K, k' ∉ c.keys →
    ∀ s, (c.exec.run h.storage).next = some s →
      ((MapStorage.getRecord (.string k')).run s).result = ((MapStorage.getRecord (.string k')).run h.storage).result

/-! ## The last put -/

variable {done : List MapCall} {c : MapCall} {k : Bytes} {r : ValueAndMetadata}

theorem lastPut_nil : ¬LastPut [] k r := by
  rintro ⟨before, c, after, h, -⟩
  simp at h

theorem lastPut_snoc : LastPut (done ++ [c]) k r ↔ c.puts k = some r ∨ c.touches k = false ∧ LastPut done k r := by
  constructor
  · rintro ⟨before, c', after, hdone, hput, hafter⟩
    rcases List.eq_nil_or_concat after with rfl | ⟨after, d, rfl⟩
    · obtain ⟨-, hc⟩ := List.append_inj' hdone rfl
      obtain rfl : c = c' := by simpa using hc
      exact .inl hput
    · rw [List.concat_eq_append] at hdone hafter
      rw [← List.cons_append, ← List.append_assoc] at hdone
      obtain ⟨hdone', hc⟩ := List.append_inj' hdone rfl
      obtain rfl : c = d := by simpa using hc
      refine .inr ⟨hafter c (by simp), before, c', after, hdone', hput, fun d hd => hafter d ?_⟩
      simp [hd]
  · rintro (hput | ⟨htouch, before, c', after, rfl, hput, hafter⟩)
    · exact ⟨done, c, [], rfl, hput, fun _ h => nomatch h⟩
    · refine ⟨before, c', after ++ [c], by simp, hput, fun d hd => ?_⟩
      rcases List.mem_append.mp hd with hd | hd
      · exact hafter d hd
      · rw [List.mem_singleton.mp hd]
        exact htouch

/-! ## What a call does -/

/-- An insert of what is there, or a delete of what is not. -/
def Refused (data : StringMap ValueAndMetadata) : MapCall → Prop
  | .insert key _ _ => data.contains (cstr key)
  | .delete key => ¬data.contains (cstr key)
  | _ => False

/-- The records after a call that is not refused. -/
def onRecords (data : StringMap ValueAndMetadata) : MapCall → StringMap ValueAndMetadata
  | .set key value metadata => data.insert (cstr key) ⟨value, metadata⟩
  | .insert key value metadata => data.insert (cstr key) ⟨value, metadata⟩
  | .delete key => data.erase (cstr key)
  | .clear => ∅

theorem exec_cases (c : MapCall) (s : MapStorage) :
    (Refused s.data c ∧ ∃ e, c.exec.run s = .throws e s) ∨
      (¬Refused s.data c ∧ ∃ s', c.exec.run s = .ok () s' ∧ s'.data = onRecords s.data c) := by
  cases c with
  | set k value metadata => exact .inr ⟨id, _, rfl, rfl⟩
  | clear => exact .inr ⟨id, _, rfl, rfl⟩
  | insert k value metadata =>
    have hspec := MapStorage.insertRecord_spec s k value metadata
    by_cases hc : s.data.contains (cstr k)
    · rw [if_pos hc] at hspec
      exact .inl ⟨hc, _, Prog.run_bind_throws _ _ hspec⟩
    · rw [if_neg hc] at hspec
      exact .inr ⟨hc, _, Prog.run_bind_ok _ _ hspec, rfl⟩
  | delete k =>
    have hspec := MapStorage.deleteRecord_spec s k
    by_cases hc : s.data.contains (cstr k)
    · rw [if_pos hc] at hspec
      exact .inr ⟨not_not.mpr hc, _, Prog.run_bind_ok _ _ hspec, rfl⟩
    · rw [if_neg hc] at hspec
      exact .inl ⟨hc, _, Prog.run_bind_throws _ _ hspec⟩

theorem step_cases (h : MapHistory) (c : MapCall) :
    ∃ s', (c.exec.run h.storage).next = some s' ∧
      ((s'.data = h.storage.data ∧ h.step c = some { h with storage := s' }) ∨
        (s'.data = onRecords h.storage.data c ∧ h.step c = some ⟨s', h.done ++ [c]⟩)) := by
  unfold step
  rcases exec_cases c h.storage with ⟨-, e, hr⟩ | ⟨-, s', hr, hd⟩
  · rw [hr]
    exact ⟨_, rfl, .inl ⟨rfl, rfl⟩⟩
  · rw [hr]
    exact ⟨s', rfl, .inr ⟨hd, rfl⟩⟩

theorem run_isSome (h : MapHistory) (cs : List MapCall) : ∃ h', run step h cs = some h' := by
  induction cs generalizing h with
  | nil => exact ⟨h, rfl⟩
  | cons c cs ih =>
    obtain ⟨s', -, ⟨-, hs⟩ | ⟨-, hs⟩⟩ := step_cases h c
    · obtain ⟨h', hr⟩ := ih { h with storage := s' }
      exact ⟨h', run_cons.mpr ⟨_, hs, hr⟩⟩
    · obtain ⟨h', hr⟩ := ih ⟨s', h.done ++ [c]⟩
      exact ⟨h', run_cons.mpr ⟨_, hs, hr⟩⟩

/-! ## Keys without a NUL -/

/-- Under a key without a NUL there is the last record that was put there. -/
def Follows (h : MapHistory) : Prop := ∀ k, 0 ∉ k → ∀ r, h.storage.data[k]? = some r ↔ LastPut h.done k r

theorem start_follows (name type : Bytes) (sink : Bool) : (start name type sink).Follows := by
  intro k _ r
  change (∅ : StringMap ValueAndMetadata)[k]? = some r ↔ LastPut [] k r
  simp [lastPut_nil]

theorem onRecords_get (data : StringMap ValueAndMetadata) (c : MapCall) (hkeys : ∀ k ∈ c.keys, 0 ∉ k) (k : Bytes)
    (r : ValueAndMetadata) :
    (onRecords data c)[k]? = some r ↔ c.puts k = some r ∨ c.touches k = false ∧ data[k]? = some r := by
  cases c with
  | clear => simp [onRecords, MapCall.puts, MapCall.touches]
  | delete key =>
    rw [onRecords, cstr_eq_self (hkeys key (by simp [MapCall.keys]))]
    by_cases heq : key = k
    · simp [heq, MapCall.puts, MapCall.touches, MapCall.keys]
    · simp [erase_of_ne _ heq, MapCall.puts, MapCall.touches, MapCall.keys, Ne.symm heq]
  | set key value metadata | insert key value metadata =>
    rw [onRecords, cstr_eq_self (hkeys key (by simp [MapCall.keys]))]
    by_cases heq : key = k
    · simp [heq, MapCall.puts, MapCall.touches, MapCall.keys]
    · simp [insert_of_ne _ _ heq, heq, MapCall.puts, MapCall.touches, MapCall.keys, Ne.symm heq]

theorem step_follows (h : MapHistory) (c : MapCall) (h' : MapHistory) (hh : h.Follows) (hkeys : ∀ k ∈ c.keys, 0 ∉ k)
    (hs : h.step c = some h') : h'.Follows := by
  obtain ⟨s', -, ⟨hd, hs'⟩ | ⟨hd, hs'⟩⟩ := step_cases h c
  · obtain rfl := Option.some.inj (hs'.symm.trans hs)
    intro k hk r
    rw [← hh k hk r, ← hd]
  · obtain rfl := Option.some.inj (hs'.symm.trans hs)
    intro k hk r
    change s'.data[k]? = some r ↔ LastPut (h.done ++ [c]) k r
    rw [hd, onRecords_get _ c hkeys, lastPut_snoc, hh k hk r]

theorem getRecord_whole (s : MapStorage) (hk : 0 ∉ k) :
    (MapStorage.getRecord (.string k)).run s =
      match s.data[k]? with
      | some r => .ok ⟨.string k, r.value, r.metadata⟩ s
      | none => .throws (invalidArgument "key not found") s := by
  have hget := MapStorage.getRecord_string s k
  rw [cstr_eq_self hk] at hget
  exact hget

theorem Follows.wholeKeys {h : MapHistory} (hh : h.Follows) {K : Set Bytes} (hK : ∀ k ∈ K, 0 ∉ k) : h.WholeKeys K where
  found k hk r hput := by
    rw [getRecord_whole _ (hK k hk), (hh k (hK k hk) r).mpr hput]
  missing k hk hno := by
    have hnone : h.storage.data[k]? = none := by
      rw [Option.eq_none_iff_forall_ne_some]
      exact fun r hr => hno r ((hh k (hK k hk) r).mp hr)
    rw [getRecord_whole _ (hK k hk), hnone]
    exact ⟨_, rfl⟩
  insert k hk value metadata := by
    have hcontains : h.storage.data.contains (cstr k) ↔ ∃ r, LastPut h.done k r := by
      rw [cstr_eq_self (hK k hk), Std.ExtTreeMap.contains_eq_isSome_getElem?, Option.isSome_iff_exists]
      exact exists_congr fun r => hh k (hK k hk) r
    rw [← hcontains]
    rcases exec_cases (.insert k value metadata) h.storage with ⟨hc, e, hr⟩ | ⟨hc, s', hr, -⟩
    · exact iff_of_true ⟨e, _, hr⟩ hc
    · refine iff_of_false ?_ hc
      rintro ⟨e, s, hs⟩
      cases hr.symm.trans hs
  apart c hc hclear k' hk' hne s hs := by
    have hkeys : ∀ k ∈ c.keys, 0 ∉ k := fun k hk => hK k (hc k hk)
    have htouch : c.touches k' = false := by
      cases c <;> simp_all [MapCall.touches]
    have hputs : c.puts k' = none := by
      cases c with
      | set key value metadata | insert key value metadata =>
        exact if_neg fun heq => hne (by simp [MapCall.keys, heq])
      | delete key => rfl
      | clear => rfl
    have hdata : s.data[k']? = h.storage.data[k']? := by
      obtain ⟨s', hs', ⟨hd, -⟩ | ⟨hd, -⟩⟩ := step_cases h c
      · obtain rfl := Option.some.inj (hs'.symm.trans hs)
        rw [hd]
      · obtain rfl := Option.some.inj (hs'.symm.trans hs)
        apply Option.ext
        intro r
        rw [hd, onRecords_get _ c hkeys]
        simp [htouch, hputs]
    rw [getRecord_whole _ (hK k' hk'), getRecord_whole _ (hK k' hk'), hdata]
    cases h.storage.data[k']? <;> rfl

/-! ## Every run -/

/-- The runs with keys of `K` keep the keys whole exactly if no key of `K` has a NUL. -/
theorem whole_keys_iff (name type : Bytes) (sink : Bool) (K : Set Bytes) :
    (∀ cs : List MapCall, (∀ c ∈ cs, ∀ k ∈ c.keys, k ∈ K) →
      ∃ h, run step (start name type sink) cs = some h ∧ h.WholeKeys K) ↔ ∀ k ∈ K, 0 ∉ k := by
  constructor
  · intro hall k hk hnul
    obtain ⟨h, hr, hw⟩ := hall [.set k .none .none] (by simpa [MapCall.keys] using hk)
    obtain ⟨t, ht, hnil⟩ := run_cons.mp hr
    obtain rfl := Option.some.inj hnil
    obtain rfl := Option.some.inj ht
    have hput : LastPut [.set k .none .none] k ⟨.none, .none⟩ :=
      ⟨[], _, [], rfl, by simp [MapCall.puts], fun _ h => nomatch h⟩
    have hget := hw.found k hk _ hput
    rw [MapStorage.getRecord_string] at hget
    -- The record that comes back is under the key up to its first NUL.
    have hkey : cstr k = k := by
      split at hget
      · injection hget with hrecord
        injection hrecord with hstring
        injection hstring
      · cases hget
    have hmem : (0 : UInt8) ∈ cstr k := hkey.symm ▸ hnul
    simpa using List.mem_takeWhile_imp hmem
  · intro hK cs hcs
    obtain ⟨h, hr⟩ := run_isSome (start name type sink) cs
    refine ⟨h, hr, Follows.wholeKeys ?_ hK⟩
    have hmeets : ∀ (cs : List MapCall) (g : MapHistory), (∀ c ∈ cs, ∀ k ∈ c.keys, k ∈ K) →
        Meets step (fun _ c => ∀ k ∈ c.keys, 0 ∉ k) g cs := by
      intro cs
      induction cs with
      | nil => exact fun _ _ => trivial
      | cons c cs ih =>
        intro g hcs
        exact ⟨fun k hk => hK k (hcs c (by simp) k hk), fun g' _ => ih g' fun c' hc' => hcs c' (by simp [hc'])⟩
    exact run_keeps step_follows (start_follows name type sink) (hmeets cs _ hcs) hr

/-- Two keys with the same bytes before a NUL are one key, and the record comes back under those bytes. -/
theorem one_record_for_two_keys :
    ∃ h, run step (start (ascii "m") (ascii "volatile_map") false) [.set [97, 0, 98] (.int 1) .none] = some h ∧
      (MapStorage.getRecord (.string [97, 0, 98])).run h.storage = .ok ⟨.string [97], .int 1, .none⟩ h.storage ∧
      (MapStorage.getRecord (.string [97, 0, 99])).run h.storage = .ok ⟨.string [97], .int 1, .none⟩ h.storage ∧
      ¬h.WholeKeys Set.univ := by
  refine ⟨_, rfl, rfl, rfl, fun hw => ?_⟩
  have hput : LastPut [.set [97, 0, 98] (.int 1) .none] [97, 0, 98] ⟨.int 1, .none⟩ :=
    ⟨[], _, [], rfl, rfl, fun _ h => nomatch h⟩
  have hget := congrArg Outcome.result (hw.found [97, 0, 98] trivial _ hput)
  revert hget
  decide +kernel

end MapHistory

end Tiodb
