import Tiodb.Ldb.Recovery

/-!
# Stopping in the middle of an operation

Each call of `Write` or `GrowFile` happens as a whole or not at all. Until its last call an
operation changes nothing that a load looks at, so a load gives back the tables as they
were before the operation, or as they are after it.
-/

namespace Tiodb.Logdb

open Lib

section Frame

variable {f f' : File} {l : Layout} {next : Nat} {owner o : Option Bytes} {bs cs : List Block} {b c : Block}

theorem Untouched.inUse {i : Nat} (h : Untouched next b i) : InUse next b i := by
  have hoffset : b.offset + blockHeaderSize ≤ b.used := Nat.le_add_right _ _
  exact ⟨h.1, fun hin => h.2 ⟨by omega, hin.2⟩⟩

theorem Layout.Framed.inUse_block (h : l.Framed next) (hlast : l.blocks owner = some (bs ++ [b]))
    (hcs : l.blocks o = some cs) (hc : c ∈ cs) (hused : c.used ≤ c.stop) {i : Nat} (hi : c.offset ≤ i)
    (hi' : i < c.used) : InUse next b i := by
  obtain ⟨j, hj⟩ := List.mem_iff_getElem?.mp hc
  by_cases hsame : o = owner ∧ j = bs.length
  · obtain ⟨rfl, rfl⟩ := hsame
    obtain rfl := Option.some.inj (hlast.symm.trans hcs)
    obtain rfl : b = c := by simpa using hj
    have hstop := h.below_block hlast hc
    exact ⟨by omega, fun hin => by omega⟩
  · exact (h.untouched_block hlast hcs hj (fun ho hjl => hsame ⟨ho, hjl⟩) hused hi hi').inUse

theorem Chain.of_inUse (h : Chain f cs) (hp : l.Framed next) (hlast : l.blocks owner = some (bs ++ [b]))
    (hcs : l.blocks o = some cs) (hk : f.Keeps (InUse next b) f') : Chain f' cs :=
  h.of_keeps hk fun _ hc _ hi hi' => hp.inUse_block hlast hcs hc (h.linked.used_le_stop hc) hi hi'

/-- Before the last call of an operation, the layout of the file is the old one. -/
theorem OnFile.of_inUse (h : OnFile f l) (hp : l.Framed next) (hlast : l.blocks owner = some (bs ++ [b]))
    (hk : f.Keeps (InUse next b) f') : OnFile f' l := by
  have hk' : f.Keeps (Untouched next b) f' := hk.mono fun _ hi => hi.inUse
  refine ⟨header_of_keeps hp hlast h.header hk', h.metatable.of_inUse (o := none) hp hlast rfl hk, h.start, ?_, ?_⟩
  · intro r hr
    obtain ⟨name, cs, hname, hcs, hchain, hstart⟩ := h.listed r hr
    exact ⟨name, cs, readField_key hp hlast (mem_logOf_of_mem_recordsOf hr) hname hk', hcs,
      hchain.of_inUse (o := some name) hp hlast hcs hk, hstart⟩
  · intro name cs hcs
    obtain ⟨r, hr, hname⟩ := h.complete name cs hcs
    exact ⟨r, hr, readField_key hp hlast (mem_logOf_of_mem_recordsOf hr) hname hk'⟩

theorem getRecord_of_keeps (hp : l.Placed next) (hlast : l.blocks owner = some (bs ++ [b])) {name : Bytes}
    (hcs : l.tables name = some cs) {r : LogRecord} (hr : r ∈ logOf cs) (hsize : next ≤ f.size)
    (hk : f.Keeps (Untouched next b) f') : getRecord f' r = getRecord f r := by
  obtain ⟨j, hj⟩ := List.mem_iff_getElem?.mp hr
  have hfield (p : Part) : getField f' (r.part p) = getField f (r.part p) := by
    have he : l.extent (.field (some name) j p) = some ((r.part p).start, (r.part p).stop) :=
      Layout.extent_field.mpr ⟨by simp, cs, r, hcs, hj, rfl⟩
    have hstop : (r.part p).stop ≤ f.size := (hp.below _ _ he).trans hsize
    obtain ⟨data, hdata⟩ := File.exists_read hstop
    have hdata' := File.read_of_keeps hdata hk fun i hi hi' => hp.untouched hlast (by simp) he hi hi'
    simp only [getField, readField, Field.start]
    rw [hdata, hdata']
  simp only [getRecord]
  rw [show getField f' r.key = _ from hfield .key, show getField f' r.value = _ from hfield .value,
    show getField f' r.metadata = _ from hfield .metadata]
  rfl

end Frame

namespace Ldb

variable {s₀ s s' : Ldb} {growPagesStep : Nat} {actions : List Action} {c : Command}

/-- `LoadFile` gives back these tables and records. -/
def Reconstructs (f : File) (growPagesStep : Nat) (tables : Bytes → Option (List (Option (Bytes × Bytes × Bytes)))) :
    Prop :=
  ∃ s, loadFile f growPagesStep = some s ∧ s.contents = tables

/-- The calls of an operation leave nothing that is neither the state before it nor the one after it. -/
def CrashAtomic (s s' : Ldb) (growPagesStep : Nat) : Prop :=
  ∃ calls before after, s'.space.calls = s.space.calls ++ calls ∧ s.space.file.changes calls = some s'.space.file ∧
    Reconstructs s.space.file growPagesStep before ∧ Reconstructs s'.space.file growPagesStep after ∧
    ∀ done rest f, calls = done ++ rest → s.space.file.changes done = some f →
      Reconstructs f growPagesStep before ∨ Reconstructs f growPagesStep after

theorem size_le_of_changes {f f' : File} {cs : List Change} (h : f.changes cs = some f') : f.size ≤ f'.size :=
  (File.keeps_of_changes (P := fun _ => False) h fun c _ => by cases c <;> simp [File.Avoids]).size

theorem Inv.reconstructs (h : s.Inv) (hsize : s.space.file.size < 2 ^ 32) (growPagesStep : Nat) :
    Reconstructs s.space.file growPagesStep fun name =>
      (s.layout.tables name).map fun bs => (recordsOf bs).map (getRecord s.space.file) :=
  contents_of_load h.onFile hsize growPagesStep

theorem Inv.reconstructs_of_inUse (h : s.Inv) {o : Option Bytes} {t : TableInfo} {bs : List Block} {b : Block}
    (ht : s.table? o = some t) (hblocks : t.blocks = bs ++ [b]) {f : File}
    (hk : s.space.file.Keeps (InUse s.space.nextDataOffset b) f) (hsize : f.size < 2 ^ 32) (growPagesStep : Nat) :
    Reconstructs f growPagesStep fun name =>
      (s.layout.tables name).map fun bs => (recordsOf bs).map (getRecord s.space.file) := by
  have hlast : s.layout.blocks o = some (bs ++ [b]) := by rw [layout_blocks, ht, Option.map_some, hblocks]
  obtain ⟨s₁, hload, hcontents⟩ := contents_of_load (h.onFile.of_inUse h.placed.framed hlast hk) hsize growPagesStep
  refine ⟨s₁, hload, ?_⟩
  rw [hcontents]
  funext name
  cases hcs : s.layout.tables name with
  | none => rfl
  | some cs =>
    rw [Option.map_some, Option.map_some]
    refine congrArg some (List.map_congr_left fun r hr => ?_)
    exact getRecord_of_keeps h.placed hlast hcs (mem_logOf_of_mem_recordsOf hr) h.next_le (hk.mono fun _ hi => hi.inUse)

theorem Inv.crashAtomic (h : s.Inv) (hs : s.apply c = some s') (hsize : s'.space.file.size < 2 ^ 32)
    (growPagesStep : Nat) : CrashAtomic s s' growPagesStep := by
  have hbefore : s.space.file.size < 2 ^ 32 := Nat.lt_of_le_of_lt (apply_size_le hs) hsize
  have heffect := effect_of_apply h.frame hbefore hs
  rcases heffect.appended with rfl | ⟨o, t, t', bs, b, _, _, _, _, _, r, ht, hblocks, happ⟩
  · refine ⟨[], _, _, by simp, rfl, h.reconstructs hsize growPagesStep, h.reconstructs hsize growPagesStep, ?_⟩
    intro done rest f hdone hf
    obtain ⟨rfl, rfl⟩ := List.append_eq_nil_iff.mp hdone.symm
    obtain rfl := Option.some.inj hf
    exact .inl (h.reconstructs hsize growPagesStep)
  · obtain ⟨g, header, ⟨cs, hcalls, hchanges, havoids⟩, hwrite, -⟩ := happ.commit
    obtain ⟨hfile, hcalls', -⟩ := Space.write_eq_some hwrite
    have hafter := (heffect.inv h hsize).reconstructs hsize growPagesStep
    have hall : s.space.file.changes (cs ++ [.write b.offset header]) = some s'.space.file := by
      rw [File.changes_append, hchanges, Option.bind_some, File.changes_singleton]
      exact hfile
    refine ⟨cs ++ [.write b.offset header], _, _, by rw [hcalls', hcalls, List.append_assoc], hall,
      h.reconstructs hbefore growPagesStep, hafter, ?_⟩
    -- up to the last call, what is in use is kept
    have hquiet : ∀ done rest f, cs = done ++ rest → s.space.file.changes done = some f →
        Reconstructs f growPagesStep fun name =>
          (s.layout.tables name).map fun bs => (recordsOf bs).map (getRecord s.space.file) := by
      rintro done rest f rfl hf
      have hk := File.keeps_of_changes hf fun d hd => havoids d (by simp [hd])
      rw [File.changes_append, hf, Option.bind_some] at hchanges
      have hg := size_le_of_changes hchanges
      have hs' := File.size_of_write hfile
      exact h.reconstructs_of_inUse ht hblocks hk (by omega) growPagesStep
    intro done rest f hdone hf
    rcases List.append_eq_append_iff.mp hdone with ⟨last, rfl, hrest⟩ | ⟨more, hcs, -⟩
    · cases last with
      | nil => exact .inl (hquiet (cs ++ []) [] f (by simp) hf)
      | cons d last =>
        obtain ⟨rfl, hnil⟩ := List.cons.inj hrest
        obtain ⟨rfl, -⟩ := List.append_eq_nil_iff.mp hnil.symm
        obtain rfl := Option.some.inj (hall.symm.trans hf)
        exact .inr hafter
    · exact .inl (hquiet done more f hcs hf)

/-- A file below 2^32 bytes that is never loaded with a tied record in it: whatever part of its calls the next
operation has made, a load gives back the tables before it or the tables after it. -/
theorem operations_crash_atomic (hcreate : create growPagesStep = some s₀) (hmeets : Meets step Loadable s₀ actions)
    (hrun : run step s₀ actions = some s) (hs : s.apply c = some s') (hsize : s'.space.file.size < 2 ^ 32)
    (growPagesStep' : Nat) : CrashAtomic s s' growPagesStep' := by
  have hbefore : s.space.file.size < 2 ^ 32 := Nat.lt_of_le_of_lt (apply_size_le hs) hsize
  exact (run_inv hcreate hmeets hrun hbefore).crashAtomic hs hsize growPagesStep'

/-- The operation that follows the load of a file with a tied record. -/
def overwriting : Command := .append (ascii "t") (some (ascii "zz")) none none

theorem operations_crash_atomic_after_load :
    ∃ s s', run step fresh keptActions = some s ∧ s.apply overwriting = some s' ∧ CrashAtomic s s' 1 := by
  have hmeets : Meets step Loadable fresh keptActions := by decide +kernel
  have hview : ((run step fresh keptActions).bind fun s =>
      (s.apply overwriting).map fun s' => s'.space.file.size) = some 12288 := by decide +kernel
  obtain ⟨s, hrun, hview⟩ := Option.bind_eq_some_iff.mp hview
  obtain ⟨s', hs, hsize⟩ := Option.map_eq_some_iff.mp hview
  exact ⟨s, s', hrun, hs, operations_crash_atomic create_fresh hmeets hrun hs (by rw [hsize]; decide) 1⟩

/-- The first call of the operation writes over a live key: the record is neither what it was nor, yet, one of two. -/
theorem tied_record_is_torn :
    ∃ s s' f, run step fresh tiedActions = some s ∧ s.apply overwriting = some s' ∧ s'.space.file.size < 2 ^ 32 ∧
      (∃ rest, s'.space.calls = s.space.calls ++ .write 8210 (ascii "zz") :: rest) ∧
      s.space.file.changes [.write 8210 (ascii "zz")] = some f ∧
      ∀ tables, Reconstructs f 1 tables →
        ¬ Reconstructs s.space.file 1 tables ∧ ¬ Reconstructs s'.space.file 1 tables := by
  have hview : ((run step fresh tiedActions).bind fun s => (s.apply overwriting).bind fun s' =>
      (s.space.file.changes [.write 8210 (ascii "zz")]).bind fun f =>
      (loadFile s.space.file 1).bind fun before => (loadFile f 1).bind fun torn =>
      (loadFile s'.space.file 1).map fun after =>
        (s'.space.file.size, s.space.calls, s'.space.calls.head?, before.contents (ascii "t"),
          torn.contents (ascii "t"), after.contents (ascii "t"))) =
      some (12288, [], some (.write 8210 (ascii "zz")), some [some (ascii "new", [], [])],
        some [some (ascii "zzw", [], [])], some [some (ascii "zzw", [], []), some (ascii "zz", [], [])]) := by
    decide +kernel
  obtain ⟨s, hrun, hview⟩ := Option.bind_eq_some_iff.mp hview
  obtain ⟨s', hs, hview⟩ := Option.bind_eq_some_iff.mp hview
  obtain ⟨f, hf, hview⟩ := Option.bind_eq_some_iff.mp hview
  obtain ⟨before, hbefore, hview⟩ := Option.bind_eq_some_iff.mp hview
  obtain ⟨torn, htorn, hview⟩ := Option.bind_eq_some_iff.mp hview
  obtain ⟨after, hafter, hview⟩ := Option.map_eq_some_iff.mp hview
  obtain ⟨hsize, hview⟩ := Prod.mk.inj hview
  obtain ⟨hcalls, hview⟩ := Prod.mk.inj hview
  obtain ⟨hcalls', hview⟩ := Prod.mk.inj hview
  obtain ⟨hb, hview⟩ := Prod.mk.inj hview
  obtain ⟨ht, ha⟩ := Prod.mk.inj hview
  have hone {g : File} {loaded : Ldb} {tables} (hg : loadFile g 1 = some loaded) (h : Reconstructs g 1 tables) :
      tables = loaded.contents := by
    obtain ⟨u, hu, rfl⟩ := h
    rw [Option.some.inj (hu.symm.trans hg)]
  obtain ⟨rest, hrest⟩ : ∃ rest, s'.space.calls = .write 8210 (ascii "zz") :: rest := by
    cases hl : s'.space.calls with
    | nil => simp [hl] at hcalls'
    | cons d rest => exact ⟨rest, by simpa [hl] using hcalls'⟩
  refine ⟨s, s', f, hrun, hs, by rw [hsize]; decide, ⟨rest, by rw [hcalls, hrest]; rfl⟩, hf, fun tables h => ?_⟩
  obtain rfl := hone htorn h
  constructor
  · intro hsame
    rw [hone hbefore hsame, hb] at ht
    exact absurd ht (by decide)
  · intro hsame
    rw [hone hafter hsame, ha] at ht
    exact absurd ht (by decide)

end Ldb

end Tiodb.Logdb
