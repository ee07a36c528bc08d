import Tiodb.Ldb.Operations

/-!
# Closing and loading

The next data offset is not on the file: a load derives it from the ends of the blocks and,
for each log record, from the field with the greatest offset. Where that field is empty and
shares its offset with data, the data is taken for free space.
-/

namespace Tiodb.Logdb

open Lib

/-! ## The fields of a log record -/

/-- The data with the greatest offset starts where a field after it, which is empty, starts. -/
def LogRecord.Tied (r : LogRecord) : Prop :=
  (r.key.dataSize ≠ 0 ∧ r.value.dataOffset ≤ r.key.dataOffset ∧ r.metadata.dataOffset ≤ r.key.dataOffset ∧
    (r.value.dataOffset = r.key.dataOffset ∨ r.metadata.dataOffset = r.key.dataOffset)) ∨
  (r.value.dataSize ≠ 0 ∧ r.key.dataOffset ≤ r.value.dataOffset ∧ r.metadata.dataOffset = r.value.dataOffset)

instance (r : LogRecord) : Decidable r.Tied := inferInstanceAs (Decidable (_ ∨ _))

/-- The parts of a record lie apart. -/
def LogRecord.Separate (r : LogRecord) : Prop :=
  ∀ p q : Part, p ≠ q → Layout.Apart ((r.part p).start, (r.part p).stop) ((r.part q).start, (r.part q).stop)

theorem stop_le_lastFieldEnd {r : LogRecord} (hsep : r.Separate) (h : ¬ r.Tied) (p : Part) :
    (r.part p).stop ≤ lastFieldEnd r := by
  have hkv := hsep .key .value (by decide)
  have hkm := hsep .key .metadata (by decide)
  have hvm := hsep .value .metadata (by decide)
  simp only [LogRecord.Tied, ← UInt32.toNat_inj, UInt32.le_iff_toNat_le, ne_eq, UInt32.toNat_zero] at h
  simp only [Layout.Apart, LogRecord.part, Field.start, Field.stop] at hkv hkm hvm
  simp only [lastFieldEnd, UInt32.lt_iff_toNat_lt]
  cases p <;> simp only [LogRecord.part, Field.stop] <;> split <;> split <;> omega

theorem lastFieldEnd_cases (r : LogRecord) : ∃ p, lastFieldEnd r = (r.part p).stop := by
  unfold lastFieldEnd
  split <;> split
  · exact ⟨.key, rfl⟩
  · exact ⟨.metadata, rfl⟩
  · exact ⟨.value, rfl⟩
  · exact ⟨.metadata, rfl⟩

namespace Ldb

variable {s : Ldb}

/-! ## A new file -/

theorem placed_first {sp : Space} {m : TableInfo} (hnext : sp.nextDataOffset = 4112) (hm : m.blocks = [⟨16, []⟩]) :
    (layout ⟨sp, m, ∅⟩).Placed sp.nextDataOffset := by
  have hcases : ∀ x e, (layout ⟨sp, m, ∅⟩).extent x = some e →
      x = .header ∧ e = (0, 16) ∨ x = .block none 0 ∧ e = (16, 4112) := by
    intro x e he
    cases x with
    | header => exact .inl ⟨rfl, (Option.some.inj he).symm⟩
    | block o i =>
      obtain ⟨bs, b, hbs, hb, rfl⟩ := Layout.extent_block.mp he
      cases o with
      | none =>
        obtain rfl : [⟨16, []⟩] = bs := hm.symm.trans (Option.some.inj hbs)
        cases i with
        | zero =>
          obtain rfl := Option.some.inj hb
          exact .inr ⟨rfl, rfl⟩
        | succ i => cases hb
      | some name => simp [layout, Layout.blocks] at hbs
    | field o j part =>
      obtain ⟨-, bs, r, hbs, hr, -⟩ := Layout.extent_field.mp he
      cases o with
      | none =>
        obtain rfl : [⟨16, []⟩] = bs := hm.symm.trans (Option.some.inj hbs)
        cases hr
      | some name => simp [layout, Layout.blocks] at hbs
  constructor
  · intro x e he
    rw [hnext]
    rcases hcases x e he with ⟨-, rfl⟩ | ⟨-, rfl⟩ <;> decide
  · intro x y e e' hne he he'
    left
    rcases hcases x e he with ⟨rfl, rfl⟩ | ⟨rfl, rfl⟩ <;> rcases hcases y e' he' with ⟨rfl, rfl⟩ | ⟨rfl, rfl⟩
    · exact absurd rfl hne
    · exact .inl (by decide)
    · exact .inr (by decide)
    · exact absurd rfl hne

theorem create_inv (growPagesStep : Nat) : ∃ s, create growPagesStep = some s ∧ s.Inv ∧ s.tables = ∅ := by
  let b : Block := ⟨16, []⟩
  let s₀ : Space := ⟨.empty, 4112, growPagesStep, 0, []⟩
  have hsize : 8208 ≤ (s₀.leaveRoom 8208).file.size := by simpa [s₀, File.empty] using Space.leaveRoom_size s₀ 8208
  obtain ⟨s₁, h₁⟩ : ∃ s₁, (s₀.leaveRoom 8208).write 16 (b.headerInfo 0).blockHeader.encode = some s₁ :=
    Space.exists_write (by rw [BlockHeader.length_encode]; exact Nat.le_trans (by decide) hsize)
  have hsize₁ := Space.size_of_write h₁
  obtain ⟨s₂, h₂⟩ : ∃ s₂, s₁.write 0 fileHeader.encode = some s₂ :=
    Space.exists_write (by rw [FileHeader.length_encode, hsize₁]; exact Nat.le_trans (by decide) hsize)
  have hsize₂ := (Space.size_of_write h₂).trans hsize₁
  have hnext : s₂.nextDataOffset = 4112 := (Space.write_eq_some h₂).2.2.trans (Space.write_eq_some h₁).2.2
  have hfirst : b.At s₂.file 0 := by
    have hat : b.At s₁.file 0 := .of_write (by decide)
      (Nat.le_trans (show b.stop ≤ 8208 by decide) hsize) (by decide) (fun i r hr => by cases hr)
      (Space.write_eq_some h₁).1
    have hk : s₁.file.Keeps (16 ≤ ·) s₂.file := by
      refine (Space.through_of_write h₂ fun i _ hi => ?_).keeps
      rw [FileHeader.length_encode] at hi
      simp only [fileHeaderSize] at hi
      omega
    exact hat.of_keeps hk fun i hi _ => hi
  refine ⟨⟨s₂, ⟨[], b.headerInfo 0, [], [b]⟩, ∅⟩, ?_, ?_, rfl⟩
  · have hstep : create growPagesStep = ((s₀.leaveRoom 8208).write 16 (b.headerInfo 0).blockHeader.encode).bind fun s =>
        (s.write 0 fileHeader.encode).bind fun s => some ⟨s, ⟨[], b.headerInfo 0, [], [b]⟩, ∅⟩ := rfl
    rw [hstep, h₁, Option.bind_some, h₂, Option.bind_some]
  · have hheader : s₂.file.read 0 fileHeaderSize = some fileHeader.encode := by
      have hread := Space.read_write h₂
      rwa [FileHeader.length_encode] at hread
    have htables : ∀ name : Bytes, (∅ : StringMap TableInfo)[name]? = none := fun name => by simp
    exact {
      next_le := by
        change s₂.nextDataOffset ≤ s₂.file.size
        rw [hnext, hsize₂]
        exact Nat.le_trans (by decide) hsize
      onFile := ⟨hheader, ⟨by simp [layout], linked_singleton.mpr hfirst, by simp [layout]⟩, rfl,
        (fun r hr => by cases hr), (fun name bs h => by simp [layout] at h)⟩
      placed := placed_first hnext rfl
      infos := fun o t ho => by
        cases o with
        | none => exact ⟨[], b, (Option.some.inj ho) ▸ rfl, (Option.some.inj ho) ▸ rfl⟩
        | some name => exact absurd ((htables name).symm.trans ho) (by simp)
      names := fun name t ht => absurd ((htables name).symm.trans ht) (by simp)
      records := fun o t ho r hr => by
        cases o with
        | none =>
          obtain rfl := Option.some.inj ho
          cases hr
        | some name => exact absurd ((htables name).symm.trans ho) (by simp)
      metatable := rfl
      distinct := List.nodup_nil
      ends := fun r hr => by cases hr }

/-! ## Loading -/

theorem Inv.separate (h : s.Inv) {name : Bytes} {t : TableInfo} (ht : s.tables[name]? = some t) {r : LogRecord}
    (hr : r ∈ logOf t.blocks) : r.Separate := by
  intro p q hpq
  obtain ⟨j, hj⟩ := List.mem_iff_getElem?.mp hr
  have hblocks : s.layout.blocks (some name) = some t.blocks := by simp [layout, Layout.blocks, ht]
  have hextent (p : Part) : s.layout.extent (.field (some name) j p) = some ((r.part p).start, (r.part p).stop) :=
    Layout.extent_field.mpr ⟨by simp, _, r, hblocks, hj, rfl⟩
  exact h.placed.apart_parts hpq (hextent p) (hextent q)

theorem Inv.stop_le (h : s.Inv) {name : Bytes} {t : TableInfo} (ht : s.tables[name]? = some t) {r : LogRecord}
    (hr : r ∈ logOf t.blocks) (p : Part) : (r.part p).stop ≤ s.space.nextDataOffset := by
  obtain ⟨j, hj⟩ := List.mem_iff_getElem?.mp hr
  have hblocks : s.layout.blocks (some name) = some t.blocks := by simp [layout, Layout.blocks, ht]
  exact h.placed.below (.field (some name) j p) _ (Layout.extent_field.mpr ⟨by simp, _, r, hblocks, hj, rfl⟩)

theorem Frame.chain_of_blocks (h : s.Frame) {o : Option Bytes} {bs : List Block} (hbs : s.layout.blocks o = some bs) :
    Chain s.space.file bs := by
  rw [layout_blocks] at hbs
  obtain ⟨t, ht, rfl⟩ := Option.map_eq_some_iff.mp hbs
  exact h.chain ht

theorem lastInfo_tableOf (name : Bytes) {blocks : List Block} (h : blocks ≠ []) :
    ∃ bs b, (tableOf name blocks).blocks = bs ++ [b] ∧ (tableOf name blocks).lastBlockHeaderInfo = b.headerInfo 0 := by
  refine ⟨blocks.dropLast, blocks.getLast h, (List.dropLast_append_getLast h).symm, ?_⟩
  simp [tableOf, lastInfo, List.getLast?_eq_some_getLast h]

/-- No log record of a table would hide the end of its data from a load. -/
def Untied (s : Ldb) : Prop := ∀ entry ∈ s.tables.toList, ∀ r ∈ logOf entry.2.blocks, ¬ r.Tied

instance : Decidable s.Untied := inferInstanceAs (Decidable (∀ entry ∈ s.tables.toList, _))

section Load

variable {s' : Ldb} (h : s.Frame)
  (hnext : ∀ B, s'.space.nextDataOffset ≤ B ↔
    Below B s.layout.metatable ∧ ∀ name blocks, s.layout.tables name = some blocks → Below B blocks)
include h hnext

theorem Frame.below_of_load {x : Item} {e : Nat × Nat} (he : s.layout.extent x = some e) (hframe : x.OfFrame) :
    e.2 ≤ s'.space.nextDataOffset := by
  obtain ⟨hbelowMeta, hbelow⟩ := (hnext s'.space.nextDataOffset).mp (Nat.le_refl _)
  cases x with
  | header =>
    obtain rfl := Option.some.inj he
    obtain ⟨b, bs, hb⟩ := List.exists_cons_of_ne_nil h.onFile.metatable.ne_nil
    have hstart : b.offset = 16 := by
      have hs := h.onFile.start
      rw [hb] at hs
      exact hs
    have hstop := (hbelowMeta b (by simp [hb])).1
    rw [Block.stop, hstart] at hstop
    exact Nat.le_trans (Nat.le_add_right _ _) hstop
  | block o i =>
    obtain ⟨bs, b, hbs, hb, rfl⟩ := Layout.extent_block.mp he
    have hmem := List.mem_of_getElem? hb
    cases o with
    | none =>
      obtain rfl := Option.some.inj hbs
      exact (hbelowMeta b hmem).1
    | some name => exact (hbelow name bs hbs b hmem).1
  | field o j part =>
    obtain ⟨hkey, bs, r, hbs, hr, rfl⟩ := Layout.extent_field.mp he
    obtain rfl : o = none := hframe
    obtain rfl := Option.some.inj hbs
    obtain rfl := hkey rfl
    have hmem := List.mem_of_getElem? hr
    obtain ⟨b, hb, hrb⟩ := List.mem_flatMap.mp hmem
    exact (h.ends r hmem).1.trans ((hbelowMeta b hb).2 r hrb)

theorem Frame.next_le_of_load : s'.space.nextDataOffset ≤ s.space.file.size := by
  have hblock : ∀ o bs, s.layout.blocks o = some bs → ∀ b ∈ bs, b.stop ≤ s.space.file.size := fun o bs hbs b hb =>
    (h.framed.below_block hbs hb).trans h.next_le
  refine (hnext _).mpr ⟨fun b hb => ⟨hblock none _ rfl b hb, fun r hr => ?_⟩, fun name bs hbs b hb =>
    ⟨hblock (some name) bs hbs b hb, fun r hr => ?_⟩⟩
  · exact (h.ends r (List.mem_flatMap.mpr ⟨b, hb, hr⟩)).2.trans h.next_le
  · obtain ⟨t, ht, rfl⟩ : ∃ t, s.tables[name]? = some t ∧ t.blocks = bs := Option.map_eq_some_iff.mp hbs
    obtain ⟨p, hp⟩ := lastFieldEnd_cases r
    rw [hp]
    exact h.stops name t ht r (List.mem_flatMap.mpr ⟨b, hb, hr⟩) p

end Load

theorem Frame.reload (h : s.Frame) (hsize : s.space.file.size < 2 ^ 32) (growPagesStep : Nat) :
    ∃ s', loadFile s.space.file growPagesStep = some s' ∧ s'.Frame ∧ s'.space.file = s.space.file ∧
      s'.layout = s.layout ∧ ∀ B, s'.space.nextDataOffset ≤ B ↔
        Below B s.layout.metatable ∧ ∀ name blocks, s.layout.tables name = some blocks → Below B blocks := by
  obtain ⟨s', hload, hfile, hmeta, htables, hnext, -⟩ := loadFile_spec h.onFile hsize growPagesStep
  have hlayout : s'.layout = s.layout := by
    have hm : s'.metatable.blocks = s.layout.metatable := by rw [hmeta]; rfl
    have ht : (fun name => s'.tables[name]?.map (·.blocks)) = s.layout.tables := by
      funext name
      rw [htables name, Option.map_map]
      exact Option.map_id'
    rw [layout, hm, ht]
  have hloaded : ∀ o t, s'.table? o = some t → ∃ name bs, s.layout.blocks o = some bs ∧ t = tableOf name bs := by
    intro o t ho
    cases o with
    | none => exact ⟨[], _, rfl, (Option.some.inj ho).symm.trans hmeta⟩
    | some name =>
      have ho : s'.tables[name]? = some t := ho
      rw [htables name] at ho
      obtain ⟨bs, hbs, rfl⟩ := Option.map_eq_some_iff.mp ho
      exact ⟨name, bs, hbs, rfl⟩
  refine ⟨s', hload, ?_, hfile, hlayout, hnext⟩
  exact {
    next_le := by rw [hfile]; exact h.next_le_of_load hnext
    onFile := by rw [hfile, hlayout]; exact h.onFile
    framed := by
      rw [hlayout]
      exact Layout.PlacedOn.lower h.framed fun x e hframe he => h.below_of_load hnext he hframe
    infos := fun o t ho => by
      obtain ⟨name, bs, hbs, rfl⟩ := hloaded o t ho
      exact lastInfo_tableOf name (h.chain_of_blocks hbs).ne_nil
    names := fun name t ht => by
      rw [htables name] at ht
      obtain ⟨bs, -, rfl⟩ := Option.map_eq_some_iff.mp ht
      rfl
    records := fun o t ho r hr => by
      obtain ⟨name, bs, hbs, rfl⟩ := hloaded o t ho
      exact mem_logOf_of_mem_recordsOf hr
    metatable := by rw [hmeta]; rfl
    distinct := by
      have hdistinct := h.distinct
      rw [h.metatable] at hdistinct
      rw [hmeta, hfile]
      exact hdistinct
    ends := by
      rw [hmeta]
      intro r hr
      obtain ⟨b, hb, hrb⟩ := List.mem_flatMap.mp hr
      exact ⟨(h.ends r hr).1, (((hnext _).mp (Nat.le_refl _)).1 b hb).2 r hrb⟩
    stops := fun name t ht r hr p => by
      obtain ⟨n, bs, hbs, rfl⟩ := hloaded (some name) t ht
      obtain ⟨t₀, ht₀, rfl⟩ : ∃ t, s.tables[name]? = some t ∧ t.blocks = bs := Option.map_eq_some_iff.mp hbs
      rw [hfile]
      exact h.stops name t₀ ht₀ r hr p }

/-- Where no record hides the end of its data, the data of the tables stays below the next data offset too. -/
theorem Inv.reload (h : s.Inv) (hsize : s.space.file.size < 2 ^ 32) (huntied : s.Untied) (growPagesStep : Nat) :
    ∃ s', loadFile s.space.file growPagesStep = some s' ∧ s'.Inv ∧ s'.space.file = s.space.file ∧
      s'.layout = s.layout := by
  obtain ⟨s', hload, hframe, hfile, hlayout, hnext⟩ := h.frame.reload hsize growPagesStep
  obtain ⟨-, hbelow⟩ := (hnext s'.space.nextDataOffset).mp (Nat.le_refl _)
  refine ⟨s', hload, hframe.inv ?_, hfile, hlayout⟩
  rw [hlayout]
  refine Layout.placed_iff.mpr ((Layout.placed_iff.mp h.placed).lower fun x e _ he => ?_)
  cases x with
  | header => exact h.frame.below_of_load hnext he trivial
  | block o i => exact h.frame.below_of_load hnext he trivial
  | field o j part =>
    cases o with
    | none => exact h.frame.below_of_load hnext he rfl
    | some name =>
      obtain ⟨-, bs, r, hbs, hr, rfl⟩ := Layout.extent_field.mp he
      have hmem := List.mem_of_getElem? hr
      obtain ⟨b, hb, hrb⟩ := List.mem_flatMap.mp hmem
      obtain ⟨t, ht, rfl⟩ : ∃ t, s.tables[name]? = some t ∧ t.blocks = bs := Option.map_eq_some_iff.mp hbs
      have hentry : (name, t) ∈ s.tables.toList := Std.ExtTreeMap.mem_toList_iff_getElem?_eq_some.mpr ht
      have hend := stop_le_lastFieldEnd (h.separate ht hmem) (huntied _ hentry r hmem) part
      exact hend.trans ((hbelow name _ hbs b hb).2 r hrb)

end Ldb

end Tiodb.Logdb
