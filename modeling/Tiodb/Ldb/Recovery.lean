import Tiodb.Ldb.Reload

/-!
# What survives

Whole runs of the database: what a load gives back, that no data is overwritten, and what
is left when the process stops in the middle of an operation.
-/

namespace Tiodb.Logdb

open Lib

/-! ## A load does not change the file -/

theorem loadBlock_file {s s' : Space} {t t' : TableInfo} (h : loadBlock s t = some (s', t')) : s'.file = s.file := by
  simp only [loadBlock, Option.bind_eq_bind, Option.bind_eq_some_iff] at h
  obtain ⟨header, -, records, -, h⟩ := h
  obtain ⟨rfl, -⟩ := Prod.mk.inj (Option.some.inj h)
  rfl

theorem loadAllBlocks_file {fuel offset : Nat} {s s' : Space} {t t' : TableInfo}
    (h : loadAllBlocks fuel offset s t = some (s', t')) : s'.file = s.file := by
  induction fuel generalizing offset s t with
  | zero =>
    rw [loadAllBlocks] at h
    split at h
    · obtain ⟨rfl, -⟩ := Prod.mk.inj (Option.some.inj h)
      rfl
    · cases h
  | succ fuel ih =>
    rw [loadAllBlocks] at h
    split at h
    · obtain ⟨rfl, -⟩ := Prod.mk.inj (Option.some.inj h)
      rfl
    · obtain ⟨⟨s₁, t₁⟩, h₁, h⟩ := Option.bind_eq_some_iff.mp h
      exact (ih h).trans (loadBlock_file h₁)

theorem foldlM_loadTable_file {fuel : Nat} {rs : List LogRecord} {s s' : Space} {m m' : StringMap TableInfo}
    (h : rs.foldlM (loadTable fuel) (s, m) = some (s', m')) : s'.file = s.file := by
  induction rs generalizing s m with
  | nil =>
    obtain ⟨rfl, -⟩ := Prod.mk.inj (Option.some.inj h)
    rfl
  | cons r rs ih =>
    rw [List.foldlM_cons, Option.bind_eq_bind, Option.bind_eq_some_iff] at h
    obtain ⟨⟨s₁, m₁⟩, h₁, h⟩ := h
    obtain ⟨name, -, h₁⟩ := Option.bind_eq_some_iff.mp h₁
    obtain ⟨⟨s₂, t₂⟩, h₂, heq⟩ := Option.map_eq_some_iff.mp h₁
    obtain ⟨rfl, -⟩ := Prod.mk.inj heq
    exact (ih h).trans (loadAllBlocks_file h₂)

theorem loadFile_file {f : File} {growPagesStep : Nat} {s : Ldb} (h : loadFile f growPagesStep = some s) :
    s.space.file = f := by
  simp only [loadFile, Option.bind_eq_bind, Option.bind_eq_some_iff] at h
  obtain ⟨header, -, h⟩ := h
  split at h
  · cases h
  · obtain ⟨⟨s₁, t₁⟩, h₁, h⟩ := Option.bind_eq_some_iff.mp h
    obtain ⟨⟨s₂, m₂⟩, h₂, h⟩ := Option.bind_eq_some_iff.mp h
    obtain rfl := Option.some.inj h
    exact (foldlM_loadTable_file h₂).trans (loadAllBlocks_file h₁)

namespace Ldb

variable {s₀ s s' : Ldb} {growPagesStep : Nat} {actions : List Action} {commands : List Command}

/-! ## Runs -/

/-- A load is called on a file in which no record is tied. -/
def Loadable (s : Ldb) : Action → Prop
  | .command _ => True
  | .reload _ => s.Untied

instance (s : Ldb) : ∀ a, Decidable (s.Loadable a)
  | .command _ => isTrue trivial
  | .reload _ => inferInstanceAs (Decidable s.Untied)

theorem step_frame {a : Action} (h : s.space.file.size < 2 ^ 32 → s.Frame) (hs : s.step a = some s')
    (hsize : s'.space.file.size < 2 ^ 32) : s'.Frame := by
  cases a with
  | command c =>
    have hbefore : s.space.file.size < 2 ^ 32 := Nat.lt_of_le_of_lt (apply_size_le hs) hsize
    exact (effect_of_apply (h hbefore) hbefore hs).frame (h hbefore) hsize
  | reload growPagesStep =>
    have hbefore : s.space.file.size < 2 ^ 32 := loadFile_file hs ▸ hsize
    obtain ⟨s₁, hs₁, hframe, -⟩ := (h hbefore).reload hbefore growPagesStep
    obtain rfl := Option.some.inj (hs₁.symm.trans hs)
    exact hframe

theorem step_inv {a : Action} (h : s.space.file.size < 2 ^ 32 → s.Inv) (ha : s.Loadable a)
    (hs : s.step a = some s') (hsize : s'.space.file.size < 2 ^ 32) : s'.Inv := by
  cases a with
  | command c =>
    have hbefore : s.space.file.size < 2 ^ 32 := Nat.lt_of_le_of_lt (apply_size_le hs) hsize
    exact (effect_of_apply (h hbefore).frame hbefore hs).inv (h hbefore) hsize
  | reload growPagesStep =>
    have hbefore : s.space.file.size < 2 ^ 32 := loadFile_file hs ▸ hsize
    obtain ⟨s₁, hs₁, hinv, -⟩ := (h hbefore).reload hbefore ha growPagesStep
    obtain rfl := Option.some.inj (hs₁.symm.trans hs)
    exact hinv

theorem run_inv (hcreate : create growPagesStep = some s₀) (hmeets : Meets step Loadable s₀ actions)
    (hrun : run step s₀ actions = some s) (hsize : s.space.file.size < 2 ^ 32) : s.Inv := by
  obtain ⟨s₁, hs₁, hinv, -⟩ := create_inv growPagesStep
  obtain rfl := Option.some.inj (hs₁.symm.trans hcreate)
  have hkeeps := run_keeps (I := fun s : Ldb => s.space.file.size < 2 ^ 32 → s.Inv)
    (fun s a s' h ha hs => step_inv h ha hs) (fun _ => hinv) hmeets hrun
  exact hkeeps hsize

/-! ## Nothing is overwritten -/

/-- The layout is on the file, apart but for the fields that a set kept, and below the next data offset. -/
structure Laid (s : Ldb) : Prop where
  onFile : OnFile s.space.file s.layout
  placed : s.layout.Placed s.space.nextDataOffset
  next_le : s.space.nextDataOffset ≤ s.space.file.size

/-- While a file below 2^32 bytes is never loaded with a tied record in it, everything that is live lies apart and
below the next data offset, so that every command goes through and leaves the data of all live tables as it is. -/
theorem live_data_kept_apart (hcreate : create growPagesStep = some s₀) (hmeets : Meets step Loadable s₀ actions)
    (hrun : run step s₀ actions = some s) (hsize : s.space.file.size < 2 ^ 32) :
    s.Laid ∧ (∀ c s', s.apply c = some s' → s.KeepsData s') ∧
      ∀ c : Command, (∀ name ∈ c.table, ∃ t, s.tables[name]? = some t) → ∃ s', s.apply c = some s' := by
  have hinv := run_inv hcreate hmeets hrun hsize
  refine ⟨⟨hinv.onFile, hinv.placed, hinv.next_le⟩, fun c s' hs => ?_, fun c hc => hinv.frame.exists_apply hsize hc⟩
  exact (effect_of_apply hinv.frame hsize hs).keepsData hinv

/-- A new file that grows a page at a time. -/
def fresh : Ldb := (create 1).get (by decide +kernel)

theorem create_fresh : create 1 = some fresh := (Option.some_get _).symm

/-- A set that keeps data, and a load after it. -/
def keptActions : List Action :=
  [.command (.createTable (ascii "t")), .command (.append (ascii "t") (some (ascii "k")) (some (ascii "v")) none),
    .command (.setByIndex (ascii "t") 0 (some (ascii "new")) none none), .reload 1]

theorem live_data_kept_apart_after_load :
    ∃ s, run step fresh keptActions = some s ∧ s.Laid ∧ ∀ c s', s.apply c = some s' → s.KeepsData s' := by
  have hmeets : Meets step Loadable fresh keptActions := by decide +kernel
  have hview : ((run step fresh keptActions).map fun s => s.space.file.size) = some 12288 := by decide +kernel
  obtain ⟨s, hrun, hsize⟩ := Option.map_eq_some_iff.mp hview
  have hkept := live_data_kept_apart create_fresh hmeets hrun (by rw [hsize]; decide)
  exact ⟨s, hrun, hkept.1, hkept.2.1⟩

/-- The same with no value to keep: the new key starts where the empty value does. -/
def tiedActions : List Action :=
  [.command (.createTable (ascii "t")), .command (.append (ascii "t") (some (ascii "k")) (some []) none),
    .command (.setByIndex (ascii "t") 0 (some (ascii "new")) none none), .reload 1]

theorem tied_key_is_overwritten :
    ∃ s s', run step fresh tiedActions = some s ∧ s.space.file.size < 2 ^ 32 ∧ ¬ s.Laid ∧
      s.apply (.append (ascii "t") (some (ascii "zz")) none none) = some s' ∧ ¬ s.KeepsData s' := by
  have hview : ((run step fresh tiedActions).bind fun s =>
      (s.apply (.append (ascii "t") (some (ascii "zz")) none none)).map fun s' =>
        (s.space.file.size, s.space.nextDataOffset, s.layout.extent (.field (some (ascii "t")) 1 .key),
          s.space.file.byte 8210, s'.space.file.byte 8210)) =
      some (12288, 8210, some (8210, 8213), 110, 122) := by decide +kernel
  obtain ⟨s, hrun, hview⟩ := Option.bind_eq_some_iff.mp hview
  obtain ⟨s', hs, hview⟩ := Option.map_eq_some_iff.mp hview
  obtain ⟨hsize, hnext, hextent, hbyte, hbyte'⟩ : s.space.file.size = 12288 ∧ s.space.nextDataOffset = 8210 ∧
      s.layout.extent (.field (some (ascii "t")) 1 .key) = some (8210, 8213) ∧ s.space.file.byte 8210 = 110 ∧
      s'.space.file.byte 8210 = 122 := by simpa using hview
  refine ⟨s, s', hrun, by rw [hsize]; decide, fun hlaid => ?_, hs, fun hkeeps => ?_⟩
  · have hbelow := hlaid.placed.below _ _ hextent
    rw [hnext] at hbelow
    exact absurd hbelow (by decide)
  · have hsame := hkeeps (some (ascii "t")) 1 .key _ hextent 8210 (by decide) (by decide)
    rw [hbyte, hbyte'] at hsame
    exact absurd hsame (by decide)

/-! ## What a load gives back -/

/-- The records in memory are the ones that the log gives. -/
def InSync (s : Ldb) : Prop := ∀ (name : Bytes) t, s.tables[name]? = some t → t.records = recordsOf t.blocks

theorem loadRecord_eq {operation : Operation} {recordIndex : UInt32} {records : List LogRecord} {r : LogRecord}
    (hop : r.operation = operation.code) (hindex : r.recordIndex = recordIndex)
    (hset : operation = .set ∨ operation = .delete ∨ operation = .insert → recordIndex.toNat < records.length) :
    loadRecord records r = applyOperation operation recordIndex.toNat r records := by
  subst hindex
  unfold loadRecord
  rw [hop, Operation.ofCode_code]
  cases operation with
  | append => rfl
  | clear => rfl
  | set => exact if_pos (hset (by simp))
  | delete => exact if_pos (hset (by simp))
  | insert =>
    have hlt := hset (by simp)
    simp only [applyOperation, Nat.ne_of_lt hlt, if_false, hlt, if_true]

theorem Logged.operation {start : Nat} {operation : Operation} {recordIndex : UInt32}
    {key value metadata : Option Bytes} {records : List LogRecord} {r : LogRecord}
    (h : Logged start operation recordIndex key value metadata records r) :
    r.operation = operation.code ∧ r.recordIndex = recordIndex := by
  obtain ⟨recordID, ⟨-, rfl⟩ | ⟨-, old, -, rfl⟩⟩ := h
  · exact ⟨rfl, rfl⟩
  · exact ⟨rfl, rfl⟩

/-- A command that does not insert the first record of a table. -/
def NoFirstInsert (s : Ldb) (c : Command) : Prop :=
  ∀ name ∈ c.insertsFirst, ∀ t ∈ s.tables[name]?, t.records ≠ []

instance (s : Ldb) (c : Command) : Decidable (s.NoFirstInsert c) :=
  inferInstanceAs (Decidable (∀ name ∈ c.insertsFirst, ∀ t ∈ s.tables[name]?, t.records ≠ []))

theorem Effect.inSync {c : Command} (he : Effect s c s') (h : s.InSync) (hc : s.NoFirstInsert c) : s'.InSync := by
  cases he with
  | nothing heq => exact heq ▸ h
  | table name t t' sp bs b operation recordIndex key value metadata r ht hblocks happ hset hinsert heq =>
    subst heq
    intro n t₀ hn
    rcases insert_cases hn with ⟨rfl, rfl⟩ | ⟨-, hn⟩
    · obtain ⟨hop, hindex⟩ := Logged.operation happ.logged
      have hlt : operation = .set ∨ operation = .delete ∨ operation = .insert →
          recordIndex.toNat < t.records.length := by
        rintro (hop | hop | hop)
        · exact hset (.inl hop)
        · exact hset (.inr hop)
        · rcases hinsert hop with hlt | ⟨rfl, hfirst⟩
          · exact hlt
          · exact List.length_pos_of_ne_nil (hc n hfirst t ht)
      rw [happ.records, happ.blocks, recordsOf_tailOf, ← hblocks, ← h n t ht, loadRecord_eq hop hindex hlt]
    · exact h n t₀ hn
  | create name t' sp bs b recordIndex r hnew hblocks happ heq =>
    subst heq
    intro n t₀ hn
    rcases insert_cases hn with ⟨rfl, rfl⟩ | ⟨-, hn⟩
    · rfl
    · exact h n t₀ hn
  | delete name t' sp bs b recordIndex r r₀ hr₀ hname hblocks happ heq =>
    subst heq
    intro n t₀ hn
    exact h n t₀ (erase_some hn).2

theorem contents_of_load {f : File} {l : Layout} (h : OnFile f l) (hsize : f.size < 2 ^ 32) (growPagesStep : Nat) :
    ∃ s, loadFile f growPagesStep = some s ∧
      s.contents = fun name => (l.tables name).map fun bs => (recordsOf bs).map (getRecord f) := by
  obtain ⟨s, hload, hfile, -, htables, -⟩ := loadFile_spec h hsize growPagesStep
  refine ⟨s, hload, ?_⟩
  funext name
  rw [contents, htables name, hfile, Option.map_map]
  rfl

theorem exists_getRecord {f : File} {r : LogRecord} (h : ∀ p, (r.part p).stop ≤ f.size) :
    ∃ x, getRecord f r = some x := by
  obtain ⟨k, hk⟩ := exists_getField (h .key)
  obtain ⟨v, hv⟩ := exists_getField (h .value)
  obtain ⟨m, hm⟩ := exists_getField (h .metadata)
  simp only [LogRecord.part] at hk hv hm
  exact ⟨(k, v, m), by simp [getRecord, hk, hv, hm]⟩

theorem Inv.exists_getRecord (h : s.Inv) {name : Bytes} {t : TableInfo} (ht : s.tables[name]? = some t) {r : LogRecord}
    (hr : r ∈ t.records) : ∃ x, getRecord s.space.file r = some x :=
  Ldb.exists_getRecord fun p => (h.stop_le ht (h.records (some name) t ht r hr) p).trans h.next_le

/-- While no command inserts the first record of a table, a file below 2^32 bytes loads as the tables that were in
memory, with the same bytes in every record. -/
theorem load_gives_back (hcreate : create growPagesStep = some s₀) (hmeets : Meets apply NoFirstInsert s₀ commands)
    (hrun : run apply s₀ commands = some s) (hsize : s.space.file.size < 2 ^ 32) (growPagesStep' : Nat) :
    ∃ s', loadFile s.space.file growPagesStep' = some s' ∧ s'.contents = s.contents ∧
      ∀ name records, s.contents name = some records → ∀ x ∈ records, x.isSome := by
  obtain ⟨s₁, hs₁, hfirst, hempty⟩ := create_inv growPagesStep
  obtain rfl := Option.some.inj (hs₁.symm.trans hcreate)
  have hinit : s₁.InSync := fun name t ht => by simp [hempty] at ht
  have hkeeps : s.space.file.size < 2 ^ 32 → s.Inv ∧ s.InSync := by
    refine run_keeps (I := fun s : Ldb => s.space.file.size < 2 ^ 32 → s.Inv ∧ s.InSync) ?_ (fun _ => ⟨hfirst, hinit⟩)
      hmeets hrun
    intro s c s' h hc hs hsize
    have hbefore : s.space.file.size < 2 ^ 32 := Nat.lt_of_le_of_lt (apply_size_le hs) hsize
    obtain ⟨hinv, hsync⟩ := h hbefore
    have heffect := effect_of_apply hinv.frame hbefore hs
    exact ⟨heffect.inv hinv hsize, heffect.inSync hsync hc⟩
  obtain ⟨hinv, hsync⟩ := hkeeps hsize
  obtain ⟨s', hload, hcontents⟩ := contents_of_load hinv.onFile hsize growPagesStep'
  refine ⟨s', hload, ?_, fun name records h x hx => ?_⟩
  · rw [hcontents]
    funext name
    cases ht : s.tables[name]? with
    | none => simp [layout, contents, ht]
    | some t => simp [layout, contents, ht, hsync name t ht]
  · obtain ⟨t, ht, rfl⟩ := Option.map_eq_some_iff.mp h
    obtain ⟨r, hr, rfl⟩ := List.mem_map.mp hx
    obtain ⟨y, hy⟩ := hinv.exists_getRecord ht hr
    rw [hy]
    rfl

def exampleCommands : List Command :=
  [.createTable (ascii "t"), .append (ascii "t") (some (ascii "k")) (some (ascii "v")) none,
    .insertByIndex (ascii "t") 0 none (some (ascii "w")) (some (ascii "m")),
    .setByIndex (ascii "t") 1 none (some (ascii "u")) none, .createTable (ascii "d"), .deleteTable (ascii "d")]

theorem load_gives_back_example :
    ∃ s s', run apply fresh exampleCommands = some s ∧
      s.contents (ascii "t") = some [some ([], ascii "w", ascii "m"), some (ascii "k", ascii "u", [])] ∧
      loadFile s.space.file 1 = some s' ∧ s'.contents = s.contents := by
  have hmeets : Meets apply NoFirstInsert fresh exampleCommands := by decide +kernel
  have hview : ((run apply fresh exampleCommands).map fun s => (s.space.file.size, s.contents (ascii "t"))) =
      some (16384, some [some ([], ascii "w", ascii "m"), some (ascii "k", ascii "u", [])]) := by decide +kernel
  obtain ⟨s, hrun, hview⟩ := Option.map_eq_some_iff.mp hview
  obtain ⟨hsize, hcontents⟩ := Prod.mk.inj hview
  obtain ⟨s', hload, hsame, -⟩ := load_gives_back create_fresh hmeets hrun (by rw [hsize]; decide) 1
  exact ⟨s, s', hrun, hcontents, hload, hsame⟩

theorem first_insert_is_doubled :
    ∃ s s', run apply fresh [.createTable (ascii "t"),
        .insertByIndex (ascii "t") 0 (some (ascii "k")) (some (ascii "v")) none] = some s ∧
      s.space.file.size < 2 ^ 32 ∧ loadFile s.space.file 1 = some s' ∧ s'.contents ≠ s.contents := by
  have hview : ((run apply fresh [.createTable (ascii "t"),
        .insertByIndex (ascii "t") 0 (some (ascii "k")) (some (ascii "v")) none]).bind fun s =>
      (loadFile s.space.file 1).map fun s' =>
        (s.space.file.size, s.contents (ascii "t"), s'.contents (ascii "t"))) =
      some (12288, some [some (ascii "k", ascii "v", [])],
        some [some (ascii "k", ascii "v", []), some (ascii "k", ascii "v", [])]) := by decide +kernel
  obtain ⟨s, hrun, hview⟩ := Option.bind_eq_some_iff.mp hview
  obtain ⟨s', hload, hview⟩ := Option.map_eq_some_iff.mp hview
  obtain ⟨hsize, hview⟩ := Prod.mk.inj hview
  obtain ⟨hbefore, hafter⟩ := Prod.mk.inj hview
  refine ⟨s, s', hrun, by rw [hsize]; decide, hload, fun hsame => ?_⟩
  rw [hsame, hbefore] at hafter
  exact absurd hafter (by decide)

end Ldb

end Tiodb.Logdb
