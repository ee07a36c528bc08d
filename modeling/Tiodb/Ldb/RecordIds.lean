import Tiodb.Ldb.Blocks

/-!
# The numbers of log records

The last number is not on the file: a load takes the greatest one of the records it meets.
A table that is deleted takes its records out of reach, but its deletion is itself logged,
in the metatable, with a greater number.
-/

namespace Tiodb.Logdb

open Lib

def Action.isCommand : Action → Bool
  | .command _ => true
  | .reload _ => false

namespace Ldb

variable {s s' s₀ : Ldb} {c : Command} {growPagesStep : Nat} {actions : List Action}

/-- Some record that a load meets has the last number, and none has a greater one. -/
structure Numbered (s : Ldb) : Prop where
  le : ∀ o t, s.table? o = some t → ∀ r ∈ logOf t.blocks, r.recordID ≤ s.space.lastRecordID
  reached : s.space.lastRecordID = 0 ∨
    ∃ o t, s.table? o = some t ∧ ∃ r ∈ logOf t.blocks, r.recordID = s.space.lastRecordID

theorem numbered_create (h : create growPagesStep = some s) : s.Numbered := by
  have hnone := remembers_create h
  obtain ⟨sp, rfl, hzero⟩ := eq_of_create h
  refine ⟨fun o t ht r hr => ?_, .inl hzero⟩
  rw [hnone o t ht] at hr
  cases hr

/-! ## Commands -/

theorem Numbered.called (h : s.Numbered) (hframe : s.Frame) {o : Option Bytes} {made : Call} {t t' : TableInfo}
    (hcalled : Called s s' c o made t t') (hlt : s.space.lastRecordID.toNat + 1 < 2 ^ 32) : s'.Numbered := by
  obtain ⟨r, -, hid, hlast, hlog⟩ := logged_of_called hcalled
  have hlog := hlog (hframe.chain hcalled.before).ne_nil
  have hle : s.space.lastRecordID ≤ s'.space.lastRecordID := by
    rw [hlast, UInt32.le_iff_toNat_le, UInt32.toNat_add, UInt32.toNat_one, Nat.mod_eq_of_lt hlt]
    exact Nat.le_succ _
  refine ⟨fun o' t₀ ht₀ r' hr' => ?_, .inr ⟨o, t', hcalled.after, r, by simp [hlog], hid.trans hlast.symm⟩⟩
  rcases mem_log_of_called hcalled hlog ht₀ hr' with ⟨t₁, ht₁, hr'⟩ | rfl
  · exact UInt32.le_trans (h.le o' t₁ ht₁ r' hr') hle
  · exact UInt32.le_of_eq (hid.trans hlast.symm)

/-! ## Loads -/

theorem Numbered.lastRecordID_of_load (h : s.Numbered) (hframe : s.Frame) (hsize : s.space.file.size < 2 ^ 32)
    {growPagesStep : Nat} (hload : loadFile s.space.file growPagesStep = some s') :
    s'.space.lastRecordID = s.space.lastRecordID := by
  obtain ⟨s₁, hs₁, -, -, -, -, hlast⟩ := loadFile_spec hframe.onFile hsize growPagesStep
  obtain rfl := Option.some.inj (hs₁.symm.trans hload)
  have hblocks {o : Option Bytes} {t : TableInfo} (ht : s.table? o = some t) : s.layout.blocks o = some t.blocks := by
    rw [layout_blocks, ht]
    rfl
  have hall (B : Nat) : s₁.space.lastRecordID.toNat ≤ B ↔
      ∀ o t, s.table? o = some t → ∀ r ∈ logOf t.blocks, r.recordID.toNat ≤ B := by
    rw [hlast]
    constructor
    · rintro ⟨hmeta, htables⟩ o t ht
      cases o with
      | none => exact Option.some.inj (hblocks ht) ▸ hmeta
      | some name => exact htables name t.blocks (hblocks ht)
    · intro hall
      refine ⟨hall none _ rfl, fun name bs hbs => ?_⟩
      obtain ⟨t, ht, rfl⟩ := Option.map_eq_some_iff.mp hbs
      exact hall (some name) t ht
  apply UInt32.toNat_inj.mp
  apply Nat.le_antisymm
  · exact (hall _).mpr fun o t ht r hr => UInt32.le_iff_toNat_le.mp (h.le o t ht r hr)
  · rcases h.reached with hzero | ⟨o, t, ht, r, hr, hid⟩
    · rw [hzero]
      exact Nat.zero_le _
    · rw [← hid]
      exact (hall _).mp (Nat.le_refl _) o t ht r hr

theorem Numbered.reload (h : s.Numbered) (hlayout : s'.layout = s.layout)
    (hlast : s'.space.lastRecordID = s.space.lastRecordID) : s'.Numbered := by
  refine ⟨fun o t ht r hr => ?_, h.reached.imp (fun hzero => hlast.trans hzero) ?_⟩
  · obtain ⟨t₀, ht₀, heq⟩ := exists_table_of_layout hlayout ht
    rw [hlast]
    exact h.le o t₀ ht₀ r (heq ▸ hr)
  · rintro ⟨o, t, ht, r, hr, hid⟩
    obtain ⟨t', ht', heq⟩ := exists_table_of_layout hlayout.symm ht
    exact ⟨o, t', ht', r, heq ▸ hr, hid.trans hlast.symm⟩

/-! ## Every run -/

/-- The numbers are given one after the other. -/
structure Counted (s : Traced) : Prop where
  frame : s.ldb.Frame
  numbered : s.ldb.Numbered
  count : s.ldb.space.lastRecordID.toNat = s.ids.length
  le : ∀ id ∈ s.ids, id ≤ s.ldb.space.lastRecordID
  increasing : s.ids.Pairwise (· < ·)

theorem Counted.command {s : Traced} (h : Counted s) {ldb : Ldb} (hs : s.ldb.apply c = some ldb)
    (hframe : ldb.Frame) (hcount : (s.ids ++ c.ids s.ldb).length < 2 ^ 32) :
    Counted ⟨ldb, c.logs s.ldb s.logs, s.ids ++ c.ids s.ldb⟩ := by
  rcases called_of_apply hs with ⟨hnone, rfl⟩ | ⟨o, call, t, t', hcalled⟩
  · have hids : c.ids s.ldb = [] := by simp [Command.ids, Command.logged, hnone]
    rw [hids, List.append_nil]
    exact ⟨h.frame, h.numbered, h.count, h.le, h.increasing⟩
  · obtain ⟨r, hlogged, hid, hlast, -⟩ := logged_of_called hcalled
    have hids : c.ids s.ldb = [ldb.space.lastRecordID] := by simp [Command.ids, hlogged, hid, hlast]
    rw [hids, List.length_append, List.length_singleton] at hcount
    have hlt : s.ldb.space.lastRecordID.toNat + 1 < 2 ^ 32 := by rw [h.count]; exact hcount
    have hnext : ldb.space.lastRecordID.toNat = s.ldb.space.lastRecordID.toNat + 1 := by
      rw [hlast, UInt32.toNat_add, UInt32.toNat_one, Nat.mod_eq_of_lt hlt]
    have hbelow : ∀ id ∈ s.ids, id < ldb.space.lastRecordID := fun id hmem => by
      have hle := UInt32.le_iff_toNat_le.mp (h.le id hmem)
      rw [UInt32.lt_iff_toNat_lt]
      omega
    rw [hids]
    refine ⟨hframe, h.numbered.called h.frame hcalled hlt, ?_, fun id hmem => ?_, ?_⟩
    · rw [List.length_append, List.length_singleton, ← h.count]
      exact hnext
    · rcases List.mem_append.mp hmem with hmem | hmem
      · exact UInt32.le_of_lt (hbelow id hmem)
      · rw [List.mem_singleton.mp hmem]
        exact UInt32.le_refl _
    · rw [List.pairwise_append]
      refine ⟨h.increasing, List.pairwise_singleton .., fun id hmem id' hmem' => ?_⟩
      rw [List.mem_singleton.mp hmem']
      exact hbelow id hmem

theorem counted_of_run {s : Traced} (hcreate : create growPagesStep = some s₀)
    (hrun : run Traced.step (.start s₀) actions = some s) (hsize : s.ldb.space.file.size < 2 ^ 32)
    (hcount : s.ids.length < 2 ^ 32) : Counted s := by
  obtain ⟨s₁, hs₁, hinv, -⟩ := create_inv growPagesStep
  obtain rfl := Option.some.inj (hs₁.symm.trans hcreate)
  have hzero : s₁.space.lastRecordID = 0 := by
    obtain ⟨sp, rfl, hzero⟩ := eq_of_create hcreate
    exact hzero
  refine run_invariant
    (I := fun s : Traced => s.ldb.space.file.size < 2 ^ 32 → s.ids.length < 2 ^ 32 → Counted s) ?_ (fun _ _ => ?_)
    hrun hsize hcount
  · intro s a s' h hs hsize hcount
    obtain ⟨ldb, hldb, rfl⟩ := Option.map_eq_some_iff.mp hs
    cases a with
    | command c =>
      have hbefore : s.ldb.space.file.size < 2 ^ 32 := (apply_size_le hldb).trans_lt hsize
      have hids : s.ids.length < 2 ^ 32 := by
        refine Nat.lt_of_le_of_lt ?_ hcount
        simp
      have hcounted := h hbefore hids
      exact hcounted.command hldb (step_frame (fun _ => hcounted.frame) hldb hsize) hcount
    | reload growPagesStep =>
      have hbefore : s.ldb.space.file.size < 2 ^ 32 := loadFile_file hldb ▸ hsize
      have hcounted := h hbefore hcount
      obtain ⟨s₁, hs₁, hframe, -, hlayout, -⟩ := hcounted.frame.reload hbefore growPagesStep
      obtain rfl := Option.some.inj (hs₁.symm.trans hldb)
      have hlast := hcounted.numbered.lastRecordID_of_load hcounted.frame hbefore hldb
      exact ⟨hframe, hcounted.numbered.reload hlayout hlast, (congrArg UInt32.toNat hlast).trans hcounted.count,
        fun id hmem => hlast ▸ hcounted.le id hmem, hcounted.increasing⟩
  · exact ⟨hinv.frame, numbered_create hcreate, congrArg UInt32.toNat hzero, by simp [Traced.start], .nil⟩

theorem length_ids_le (c : Command) (s : Ldb) : (c.ids s).length ≤ 1 := by
  unfold Command.ids
  cases c.logged s <;> simp

theorem length_ids_le_of_run {s s' : Traced} (hrun : run Traced.step s actions = some s') :
    s'.ids.length ≤ s.ids.length + actions.countP Action.isCommand := by
  induction actions generalizing s with
  | nil =>
    obtain rfl : s = s' := by simpa [run] using hrun
    exact Nat.le_refl _
  | cons a actions ih =>
    obtain ⟨t, ht, hrun⟩ := run_cons.mp hrun
    have hrest := ih hrun
    obtain ⟨ldb, -, rfl⟩ := Option.map_eq_some_iff.mp ht
    rw [List.countP_cons]
    cases a with
    | command c =>
      have hids := length_ids_le c s.ldb
      simp only [List.length_append, Action.isCommand, if_true] at hrest ⊢
      omega
    | reload growPagesStep => simpa [Action.isCommand] using hrest

/-- With fewer than 2^32 commands on a file below 2^32 bytes every record has a greater number than all the records
before it, and a load finds the last number, whatever was deleted. -/
theorem record_ids_increase {s : Traced} (hcreate : create growPagesStep = some s₀)
    (hrun : run Traced.step (.start s₀) actions = some s) (hcount : actions.countP Action.isCommand < 2 ^ 32)
    (hsize : s.ldb.space.file.size < 2 ^ 32) :
    s.ids.Pairwise (· < ·) ∧ ∀ growPagesStep', ∃ s', loadFile s.ldb.space.file growPagesStep' = some s' ∧
      s'.space.lastRecordID = s.ldb.space.lastRecordID := by
  have hids : s.ids.length ≤ 0 + actions.countP Action.isCommand := length_ids_le_of_run hrun
  have hcounted := counted_of_run hcreate hrun hsize (by omega)
  refine ⟨hcounted.increasing, fun growPagesStep' => ?_⟩
  obtain ⟨s', hload, -⟩ := hcounted.frame.reload hsize growPagesStep'
  exact ⟨s', hload, hcounted.numbered.lastRecordID_of_load hcounted.frame hsize hload⟩

/-- The table with the records up to number 4 is deleted by number 5. -/
def deletedActions : List Action :=
  [.command (.createTable (ascii "t")), .command (.createTable (ascii "d")),
    .command (.append (ascii "d") (some (ascii "k")) none none), .command (.deleteByIndex (ascii "d") 0), .reload 1,
    .command (.deleteTable (ascii "d"))]

theorem record_ids_increase_after_delete :
    ∃ s s', run Traced.step (.start fresh) deletedActions = some s ∧ s.ids = [1, 2, 3, 4, 5] ∧
      s.ids.Pairwise (· < ·) ∧ loadFile s.ldb.space.file 1 = some s' ∧ s'.space.lastRecordID = 5 := by
  have hview : ((run Traced.step (.start fresh) deletedActions).map fun s =>
      (s.ldb.space.file.size, s.ids, s.ldb.space.lastRecordID)) = some (16384, [1, 2, 3, 4, 5], 5) := by decide +kernel
  obtain ⟨s, hrun, hview⟩ := Option.map_eq_some_iff.mp hview
  obtain ⟨hsize, hids, hlast⟩ : s.ldb.space.file.size = 16384 ∧ s.ids = [1, 2, 3, 4, 5] ∧
      s.ldb.space.lastRecordID = 5 := by simpa using hview
  obtain ⟨hincreasing, hload⟩ := record_ids_increase create_fresh hrun (by decide) (by rw [hsize]; decide)
  obtain ⟨s', hs', hlast'⟩ := hload 1
  exact ⟨s, s', hrun, hids, hincreasing, hs', hlast'.trans hlast⟩

end Ldb

end Tiodb.Logdb
