import Tiodb.Lib.Machine
import Tiodb.Lib.Replay
import Tiodb.Storage.MapStorage

/-!
# Mirrors of a map

Writers of one map run side by side: each changes the map in one locked section and
publishes in another. The order of the events is then not always the order of the
changes, and a mirror is right only where the two orders lead to the same map.
-/

namespace Tiodb

open Lib

namespace MapMirror

/-- A set assigns, a delete removes and a clear empties. -/
def onEvent (m : StringMap ValueAndMetadata) (e : Event) : Option (StringMap ValueAndMetadata) :=
  match e.code, e.k with
  | .set, .string k => some (m.insert k ⟨e.v, e.m⟩)
  | .delete, .string k => some (m.erase k)
  | .clear, _ => some ∅
  | _, _ => none

/-- Two events that lead to different maps in different orders, if `e` is a set: a set of the same
record to something else, a delete of it, or a clear. -/
def SetConflict (e f : Event) : Prop :=
  e.code = .set ∧
    ((f.code = .set ∧ e.k = f.k ∧ (e.v ≠ f.v ∨ e.m ≠ f.m)) ∨ (f.code = .delete ∧ e.k = f.k) ∨ f.code = .clear)

def Conflict (e f : Event) : Prop := SetConflict e f ∨ SetConflict f e

instance (e f : Event) : Decidable (SetConflict e f) :=
  inferInstanceAs (Decidable (_ ∧ ((_ ∧ _ ∧ (_ ∨ _)) ∨ (_ ∧ _) ∨ _)))

instance (e f : Event) : Decidable (Conflict e f) := inferInstanceAs (Decidable (_ ∨ _))

theorem onEvent_cases (e : Event) :
    (∃ k, e.code = .set ∧ e.k = .string k ∧ ∀ m, onEvent m e = some (m.insert k ⟨e.v, e.m⟩)) ∨
    (∃ k, e.code = .delete ∧ e.k = .string k ∧ ∀ m, onEvent m e = some (m.erase k)) ∨
    (e.code = .clear ∧ ∀ m, onEvent m e = some ∅) ∨ ∀ m, onEvent m e = none := by
  obtain ⟨code, k, v, m⟩ := e
  cases code with
  | clear => exact Or.inr (Or.inr (Or.inl ⟨rfl, fun _ => rfl⟩))
  | set =>
    cases k with
    | string k => exact Or.inl ⟨k, rfl, rfl, fun _ => rfl⟩
    | _ => exact Or.inr (Or.inr (Or.inr fun _ => rfl))
  | delete =>
    cases k with
    | string k => exact Or.inr (Or.inl ⟨k, rfl, rfl, fun _ => rfl⟩)
    | _ => exact Or.inr (Or.inr (Or.inr fun _ => rfl))
  | _ => exact Or.inr (Or.inr (Or.inr fun _ => rfl))

theorem commute_of_not_conflict {e f : Event} (h : ¬Conflict e f) : Commute onEvent e f := by
  intro m
  rcases onEvent_cases e with ⟨k, hc, hk, he⟩ | ⟨k, hc, hk, he⟩ | ⟨hc, he⟩ | he <;>
    rcases onEvent_cases f with ⟨k', hc', hk', hf⟩ | ⟨k', hc', hk', hf⟩ | ⟨hc', hf⟩ | hf <;>
    simp only [he, hf, Option.bind_some, Option.bind_none, Option.some.injEq]
  · by_cases hkk : k = k'
    · subst hkk
      have hsame : e.v = f.v ∧ e.m = f.m := by
        by_contra hne
        exact h (Or.inl ⟨hc, Or.inl ⟨hc', hk.trans hk'.symm, by tauto⟩⟩)
      rw [hsame.1, hsame.2]
    · apply Std.ExtTreeMap.ext_getElem?
      intro a
      simp only [Std.ExtTreeMap.getElem?_insert, Std.compare_eq_iff_eq]
      split_ifs <;> simp_all
  · have hkk : k ≠ k' := fun hkk => h (Or.inl ⟨hc, Or.inr (Or.inl ⟨hc', by rw [hk, hk', hkk]⟩)⟩)
    apply Std.ExtTreeMap.ext_getElem?
    intro a
    simp only [Std.ExtTreeMap.getElem?_insert, Std.ExtTreeMap.getElem?_erase, Std.compare_eq_iff_eq]
    split_ifs <;> simp_all
  · exact absurd (Or.inl ⟨hc, Or.inr (Or.inr hc')⟩) h
  · have hkk : k ≠ k' := fun hkk => h (Or.inr ⟨hc', Or.inr (Or.inl ⟨hc, by rw [hk, hk', hkk]⟩)⟩)
    apply Std.ExtTreeMap.ext_getElem?
    intro a
    simp only [Std.ExtTreeMap.getElem?_insert, Std.ExtTreeMap.getElem?_erase, Std.compare_eq_iff_eq]
    split_ifs <;> simp_all
  · apply Std.ExtTreeMap.ext_getElem?
    intro a
    simp only [Std.ExtTreeMap.getElem?_erase, Std.compare_eq_iff_eq]
    split_ifs <;> rfl
  · simp
  · exact absurd (Or.inr ⟨hc', Or.inr (Or.inr hc)⟩) h
  · simp

end MapMirror

namespace MapStorage

open MapMirror

inductive Call where
  | set (key value metadata : TioData)
  | insert (key value metadata : TioData)
  | delete (key value metadata : TioData)
  | clear
  deriving DecidableEq, Repr

/-- The call up to the end of the section that changes the map. -/
def Call.change : Call → MapM Unit
  | .set k v m => setRecord k v m
  | .insert k v m => insertRecord k v m
  | .delete k _ _ => deleteRecord k
  | .clear => clearRecords

def Call.event : Call → Event
  | .set k v m => ⟨.set, k, v, m⟩
  | .insert k v m => ⟨.set, k, v, m⟩
  | .delete k v m => ⟨.delete, k, v, m⟩
  | .clear => ⟨.clear, .none, .none, .none⟩

def Call.publish (c : Call) : MapM Unit :=
  updateRevNumAndPublish c.event.code c.event.k c.event.v c.event.m

def Call.exec : Call → MapM Unit
  | .set k v m => MapStorage.set k v m
  | .insert k v m => MapStorage.insert k v m
  | .delete k v m => MapStorage.delete k v m
  | .clear => MapStorage.clear

theorem exec_eq (c : Call) : c.exec = (do c.change; c.publish) := by
  cases c <;> rfl

/-- A map and the calls between their two sections, in the order they changed the map. -/
structure Writers where
  storage : MapStorage
  inFlight : List Call
  deriving DecidableEq

inductive WriterStep where
  | change (c : Call)
  | publish (i : Nat)
  deriving DecidableEq, Repr

def writerStep (w : Writers) : WriterStep → Option Writers
  | .change c =>
    match c.change.run w.storage with
    | .ok _ s => some ⟨s, w.inFlight ++ [c]⟩
    | .throws _ s => some ⟨s, w.inFlight⟩
    | .undefined => none
  | .publish i =>
    w.inFlight[i]?.bind fun c => (c.publish.run w.storage).next.map fun s => ⟨s, w.inFlight.eraseIdx i⟩

def NulFree : TioData → Prop
  | .string k => 0 ∉ k
  | _ => True

/-- A change with a key that `AsSz()` does not cut, or a publication that overtakes no call in conflict. -/
def InOrder (w : Writers) : WriterStep → Prop
  | .change c => NulFree c.event.k
  | .publish i => ∀ c ∈ w.inFlight[i]?, ∀ d ∈ w.inFlight.take i, ¬Conflict d.event c.event

instance : DecidablePred NulFree
  | .string k => inferInstanceAs (Decidable (0 ∉ k))
  | .none => inferInstanceAs (Decidable True)
  | .int _ => inferInstanceAs (Decidable True)
  | .double _ => inferInstanceAs (Decidable True)

instance (w : Writers) : DecidablePred (InOrder w)
  | .change c => inferInstanceAs (Decidable (NulFree c.event.k))
  | .publish i => inferInstanceAs (Decidable (∀ c ∈ w.inFlight[i]?, ∀ d ∈ w.inFlight.take i, _))

/-! ## One section -/

def Matches (s : MapStorage) (e : Event) (o : Outcome Exc MapStorage Unit) : Prop :=
  (∃ x, o = .throws x s) ∨ ∃ data, o = .ok () (s.withData data) ∧ onEvent s.data e = some data

theorem change_matches (s : MapStorage) (c : Call) (h : NulFree c.event.k) :
    s.Matches c.event (c.change.run s) := by
  cases c with
  | clear => exact Or.inr ⟨∅, rfl, rfl⟩
  | set k v m =>
    cases k with
    | string k => exact Or.inr ⟨_, by rw [Call.change, setRecord_spec, cstr_eq_self h]; rfl, rfl⟩
    | _ => exact Or.inl ⟨_, rfl⟩
  | insert k v m =>
    cases k with
    | string k =>
      rw [Call.change, insertRecord_spec, cstr_eq_self h]
      split_ifs
      · exact Or.inl ⟨_, rfl⟩
      · exact Or.inr ⟨_, rfl, rfl⟩
    | _ => exact Or.inl ⟨_, rfl⟩
  | delete k v m =>
    cases k with
    | string k =>
      rw [Call.change, deleteRecord_spec, cstr_eq_self h]
      split_ifs
      · exact Or.inr ⟨_, rfl, rfl⟩
      · exact Or.inl ⟨_, rfl⟩
    | _ => exact Or.inl ⟨_, rfl⟩

/-! ## Whole runs -/

/-- A mirror that also applied the events of the calls in flight would have the map. -/
structure Follows (initial : StringMap ValueAndMetadata) (w : Writers) : Prop where
  sink : w.storage.sink = true
  replays : replay onEvent initial (w.storage.published ++ w.inFlight.map Call.event) = some w.storage.data

theorem Follows.change {initial : StringMap ValueAndMetadata} {w w' : Writers} {c : Call}
    (h : Follows initial w) (hk : NulFree c.event.k) (hs : writerStep w (.change c) = some w') :
    Follows initial w' := by
  rcases change_matches w.storage c hk with ⟨x, hx⟩ | ⟨data, hok, hev⟩
  · obtain rfl : w = w' := by simpa [writerStep, hx] using hs
    exact h
  · obtain rfl : _ = w' := by simpa [writerStep, hok] using hs
    refine ⟨h.sink, ?_⟩
    simp only [withData_data, withData_published, List.map_append, List.map_cons, List.map_nil,
      ← List.append_assoc]
    rw [replay_concat _ h.replays, hev]

theorem Follows.publish {initial : StringMap ValueAndMetadata} {w w' : Writers} {i : Nat}
    (h : Follows initial w) (hord : InOrder w (.publish i)) (hs : writerStep w (.publish i) = some w') :
    Follows initial w' := by
  simp only [writerStep, Option.bind_eq_some_iff, Option.map_eq_some_iff] at hs
  obtain ⟨c, hc, s, hnext, rfl⟩ := hs
  rw [Call.publish, updateRevNumAndPublish_spec] at hnext
  obtain rfl := Option.some.inj hnext
  refine ⟨h.sink, ?_⟩
  have hsplit : w.inFlight = w.inFlight.take i ++ c :: w.inFlight.drop (i + 1) := by
    obtain ⟨hi, rfl⟩ := List.getElem?_eq_some_iff.mp hc
    simp
  have hcomm : ∀ e ∈ (w.inFlight.take i).map Call.event, Commute onEvent e c.event := by
    intro e he
    obtain ⟨d, hd, rfl⟩ := List.mem_map.mp he
    exact commute_of_not_conflict (hord c hc d hd)
  -- The event of the call moves to the front of those still to come.
  have hold := h.replays
  rw [hsplit, List.map_append, List.map_cons, replay_append] at hold
  simp only [h.sink, if_true, List.eraseIdx_eq_take_drop_succ, List.map_append, List.append_assoc]
  rw [replay_append, ← hold]
  congr 1
  funext t
  exact (replay_move hcomm).symm

theorem writerStep_follows {initial : StringMap ValueAndMetadata} (w : Writers) (a : WriterStep) (w' : Writers)
    (h : Follows initial w) (hord : InOrder w a) (hs : writerStep w a = some w') : Follows initial w' := by
  cases a with
  | change c => exact h.change hord hs
  | publish i => exact h.publish hord hs

/-- In every run whose publications overtake no call in conflict, once every call has returned, a
mirror has the map. -/
theorem map_replay_run (s : MapStorage) (hsink : s.sink = true) (hpub : s.published = [])
    (as : List WriterStep) (w : Writers) (hord : Meets writerStep InOrder ⟨s, []⟩ as)
    (hrun : run writerStep ⟨s, []⟩ as = some w) (hdone : w.inFlight = []) :
    replay onEvent s.data w.storage.published = some w.storage.data := by
  have h0 : Follows s.data ⟨s, []⟩ := ⟨hsink, by simp [hpub]⟩
  have h := (run_keeps writerStep_follows h0 hord hrun).replays
  simpa [hdone] using h

theorem map_replay_run_two_keys :
    let s := { MapStorage.new (ascii "m") (ascii "volatile_map") with sink := true }
    let as := [.change (.set (.string (ascii "a")) (.int 1) .none),
      .change (.set (.string (ascii "b")) (.int 2) .none), .publish 1, .publish 0]
    ∃ w, run writerStep ⟨s, []⟩ as = some w ∧
      replay onEvent s.data w.storage.published = some w.storage.data := by
  intro s as
  generalize hr : run writerStep ⟨s, []⟩ as = r
  have hview : r.map Writers.inFlight = some [] := by
    rw [← hr]
    rfl
  obtain ⟨w, rfl, hw⟩ := Option.map_eq_some_iff.mp hview
  exact ⟨w, rfl, map_replay_run s rfl rfl as w (by decide) hr hw⟩

/-- Two writers of one record: the map keeps the second value, the mirror the first. -/
theorem overtaken_set_lost :
    let s := { MapStorage.new (ascii "m") (ascii "volatile_map") with sink := true }
    let k := TioData.string (ascii "k")
    (run writerStep ⟨s, []⟩
      [.change (.set k (.int 1) .none), .change (.set k (.int 2) .none), .publish 1, .publish 0]).map
        (fun w => (w.inFlight, w.storage.data.toList,
          (replay onEvent s.data w.storage.published).map Std.ExtTreeMap.toList)) =
      some ([], [(ascii "k", ⟨.int 2, .none⟩)], some [(ascii "k", ⟨.int 1, .none⟩)]) := by
  intro s k
  rfl

end MapStorage

end Tiodb
