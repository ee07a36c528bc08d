import Tiodb.Ldb.Load

/-!
# Where things lie on the file

The file header, the blocks of each table and the data of the fields of their log records
are the items of a layout. A field that a set keeps is shared with the record it was kept
from; any other two items lie apart, and all of them below the next data offset.
-/

namespace Tiodb.Logdb

open Lib

/-- The owner `none` is the metatable. -/
inductive Item where
  | header
  | block (owner : Option Bytes) (i : Nat)
  | field (owner : Option Bytes) (j : Nat) (part : Part)
  deriving DecidableEq, Repr

/-- What a load finds its way by: all but the fields of the tables. -/
def Item.OfFrame : Item → Prop
  | .field owner _ _ => owner = none
  | _ => True

/-- Whether an item is meant does not depend on which record of the owner has it. -/
def Item.Uniform (P : Item → Prop) : Prop := ∀ owner i j part, P (.field owner i part) → P (.field owner j part)

theorem Item.uniform_ofFrame : Item.Uniform Item.OfFrame := fun _ _ _ _ h => h

theorem Item.uniform_true : Item.Uniform fun _ => True := fun _ _ _ _ _ => trivial

namespace Layout

def blocks (l : Layout) : Option Bytes → Option (List Block)
  | none => some l.metatable
  | some name => l.tables name

/-- The offsets at which an item starts and stops. The other fields of the metatable's records are the first blocks
of the tables. -/
def extent (l : Layout) : Item → Option (Nat × Nat)
  | .header => some (0, fileHeaderSize)
  | .block owner i => (l.blocks owner).bind fun bs => bs[i]?.map fun b => (b.offset, b.stop)
  | .field owner j part =>
    if owner = none ∧ part ≠ .key then none
    else (l.blocks owner).bind fun bs => (logOf bs)[j]?.map fun r => ((r.part part).start, (r.part part).stop)

/-- The record at `j` is a set that kept the part from the record at `i`, or both kept it. -/
def Kept (l : Layout) (x y : Item) : Prop :=
  ∃ owner part i j, x = .field owner i part ∧ y = .field owner j part ∧ i < j ∧
    ∃ bs r r', l.blocks owner = some bs ∧ (logOf bs)[i]? = some r ∧ (logOf bs)[j]? = some r' ∧
      r'.operation = Operation.set.code ∧ r'.part part = r.part part

def Shared (l : Layout) (x y : Item) : Prop := l.Kept x y ∨ l.Kept y x

def Apart (e e' : Nat × Nat) : Prop := e.2 ≤ e'.1 ∨ e'.2 ≤ e.1

structure Placed (l : Layout) (next : Nat) : Prop where
  below : ∀ x e, l.extent x = some e → e.2 ≤ next
  apart : ∀ x y e e', x ≠ y → l.extent x = some e → l.extent y = some e' → Apart e e' ∨ l.Shared x y

/-- The same of some items only. -/
structure PlacedOn (P : Item → Prop) (l : Layout) (next : Nat) : Prop where
  below : ∀ x e, P x → l.extent x = some e → e.2 ≤ next
  apart : ∀ x y e e', P x → P y → x ≠ y → l.extent x = some e → l.extent y = some e' → Apart e e' ∨ l.Shared x y

def Framed (l : Layout) (next : Nat) : Prop := l.PlacedOn Item.OfFrame next

def set (l : Layout) (owner : Option Bytes) (bs : List Block) : Layout :=
  match owner with
  | none => { l with metatable := bs }
  | some name => { l with tables := fun n => if n = name then some bs else l.tables n }

variable {l : Layout} {owner o : Option Bytes} {bs cs : List Block}

@[simp] theorem blocks_set_self (l : Layout) (owner : Option Bytes) (bs : List Block) :
    (l.set owner bs).blocks owner = some bs := by
  cases owner <;> simp [set, blocks]

theorem blocks_set_of_ne (l : Layout) (bs : List Block) (h : o ≠ owner) : (l.set owner bs).blocks o = l.blocks o := by
  cases owner with
  | none =>
    cases o with
    | none => exact absurd rfl h
    | some n => rfl
  | some name =>
    cases o with
    | none => rfl
    | some n =>
      have hne : n ≠ name := fun hn => h (congrArg some hn)
      simp [set, blocks, hne]

theorem extent_block {i : Nat} {e : Nat × Nat} :
    l.extent (.block owner i) = some e ↔
      ∃ bs b, l.blocks owner = some bs ∧ bs[i]? = some b ∧ (b.offset, b.stop) = e := by
  simp [extent, Option.bind_eq_some_iff, Option.map_eq_some_iff]

theorem extent_field {j : Nat} {part : Part} {e : Nat × Nat} :
    l.extent (.field owner j part) = some e ↔
      (owner = none → part = .key) ∧ ∃ bs r, l.blocks owner = some bs ∧ (logOf bs)[j]? = some r ∧
        ((r.part part).start, (r.part part).stop) = e := by
  by_cases h : owner = none ∧ part ≠ .key
  · simp [extent, h]
  · have hok : (owner = none → part = .key) ↔ True := iff_true_intro fun ho => by_contra fun hp => h ⟨ho, hp⟩
    rw [hok, true_and, extent, if_neg h]
    simp [Option.bind_eq_some_iff, Option.map_eq_some_iff]

theorem Apart.symm {e e' : Nat × Nat} (h : Apart e e') : Apart e' e := h.elim .inr .inl

theorem Shared.symm {x y : Item} (h : l.Shared x y) : l.Shared y x := h.elim .inr .inl

theorem placed_iff {next : Nat} : l.Placed next ↔ l.PlacedOn (fun _ => True) next := by
  constructor
  · intro h
    exact ⟨fun x e _ => h.below x e, fun x y e e' _ _ => h.apart x y e e'⟩
  · intro h
    exact ⟨fun x e => h.below x e trivial, fun x y e e' => h.apart x y e e' trivial trivial⟩

theorem Placed.framed {next : Nat} (h : l.Placed next) : l.Framed next :=
  ⟨fun x e _ => h.below x e, fun x y e e' _ _ => h.apart x y e e'⟩

section PlacedOn

variable {P : Item → Prop} {next : Nat} (h : l.PlacedOn P next)
include h

theorem PlacedOn.apart_block {i : Nat} {x : Item} {e e' : Nat × Nat} (hPx : P x) (hPb : P (.block owner i))
    (hx : x ≠ .block owner i) (he : l.extent x = some e) (he' : l.extent (.block owner i) = some e') : Apart e e' := by
  rcases h.apart x _ e e' hPx hPb hx he he' with hapart | ⟨_, _, _, _, -, hy, -⟩ | ⟨_, _, _, _, hy, -⟩
  · exact hapart
  · cases hy
  · cases hy

theorem PlacedOn.lower {low : Nat} (hlow : ∀ x e, P x → l.extent x = some e → e.2 ≤ low) : l.PlacedOn P low :=
  ⟨hlow, h.apart⟩

end PlacedOn

theorem Framed.below_block {next : Nat} (h : l.Framed next) (hbs : l.blocks o = some bs) {b : Block} (hb : b ∈ bs) :
    b.stop ≤ next := by
  obtain ⟨i, hi⟩ := List.mem_iff_getElem?.mp hb
  have hframe : (Item.block o i).OfFrame := trivial
  exact h.below _ _ hframe (extent_block.mpr ⟨bs, b, hbs, hi, rfl⟩)

/-- What is shared stays so while logs only grow. -/
theorem Shared.mono {l' : Layout} {x y : Item} {e e' : Nat × Nat} (h : l.Shared x y) (hx : l'.extent x = some e)
    (hy : l'.extent y = some e')
    (hlog : ∀ o bs bs', l.blocks o = some bs → l'.blocks o = some bs' →
      ∀ (j : Nat) r, (logOf bs)[j]? = some r → (logOf bs')[j]? = some r) : l'.Shared x y := by
  have hkept : ∀ {x y e}, l'.extent x = some e → l.Kept x y → l'.Kept x y := by
    rintro x y e hx ⟨owner, part, i, j, rfl, rfl, hlt, bs, r, r', hbs, hr, hr', hset, hpart⟩
    obtain ⟨-, bs', -, hbs', -⟩ := extent_field.mp hx
    have hgrow := hlog owner bs bs' hbs hbs'
    exact ⟨owner, part, i, j, rfl, rfl, hlt, bs', r, r', hbs', hgrow i r hr, hgrow j r' hr', hset, hpart⟩
  exact h.imp (hkept hx) (hkept hy)

theorem PlacedOn.of_le {P : Item → Prop} {l' : Layout} {next : Nat} (h : l.PlacedOn P next)
    (hle : ∀ o bs, l'.blocks o = some bs → l.blocks o = some bs) : l'.PlacedOn P next := by
  have hextent : ∀ x e, l'.extent x = some e → l.extent x = some e := by
    intro x e he
    cases x with
    | header => exact he
    | block o i =>
      obtain ⟨bs, b, hbs, hb, he⟩ := extent_block.mp he
      exact extent_block.mpr ⟨bs, b, hle o bs hbs, hb, he⟩
    | field o j part =>
      obtain ⟨hkey, bs, r, hbs, hr, he⟩ := extent_field.mp he
      exact extent_field.mpr ⟨hkey, bs, r, hle o bs hbs, hr, he⟩
  refine ⟨fun x e hP he => h.below x e hP (hextent x e he), fun x y e e' hPx hPy hne he he' => ?_⟩
  refine (h.apart x y e e' hPx hPy hne (hextent x e he) (hextent y e' he')).imp_right fun hshared => ?_
  refine hshared.mono he he' fun o bs bs' hbs hbs' j r hr => ?_
  obtain rfl := Option.some.inj (hbs.symm.trans (hle o bs' hbs'))
  exact hr

end Layout

namespace Layout

variable {l : Layout} {next : Nat} {P : Item → Prop}

theorem PlacedOn.add_table {name : Bytes} (h : l.PlacedOn P next) (hnew : l.tables name = none) :
    (l.set (some name) [⟨next, []⟩]).PlacedOn P (next + defaultBlockSize.toNat) := by
  have hcases : ∀ x e, (l.set (some name) [⟨next, []⟩]).extent x = some e →
      l.extent x = some e ∨ x = .block (some name) 0 ∧ e = (next, next + defaultBlockSize.toNat) := by
    intro x e he
    cases x with
    | header => exact .inl he
    | block o i =>
      obtain ⟨bs, b, hbs, hb, rfl⟩ := extent_block.mp he
      by_cases ho : o = some name
      · subst ho
        obtain rfl := Option.some.inj ((blocks_set_self l _ _).symm.trans hbs)
        obtain ⟨rfl, rfl⟩ : i = 0 ∧ b = ⟨next, []⟩ := by
          cases i with
          | zero => exact ⟨rfl, by simpa using hb.symm⟩
          | succ i => simp at hb
        exact .inr ⟨rfl, rfl⟩
      · rw [blocks_set_of_ne l _ ho] at hbs
        exact .inl (extent_block.mpr ⟨bs, b, hbs, hb, rfl⟩)
    | field o j part =>
      obtain ⟨hkey, bs, r, hbs, hr, rfl⟩ := extent_field.mp he
      by_cases ho : o = some name
      · subst ho
        obtain rfl := Option.some.inj ((blocks_set_self l _ _).symm.trans hbs)
        simp [logOf] at hr
      · rw [blocks_set_of_ne l _ ho] at hbs
        exact .inl (extent_field.mpr ⟨hkey, bs, r, hbs, hr, rfl⟩)
  constructor
  · intro x e hP he
    rcases hcases x e he with he | ⟨-, rfl⟩
    · exact (h.below x e hP he).trans (Nat.le_add_right _ _)
    · exact Nat.le_refl _
  · intro x y e e' hPx hPy hne he he'
    rcases hcases x e he with hx | ⟨rfl, rfl⟩
    · rcases hcases y e' he' with hy | ⟨-, rfl⟩
      · refine (h.apart x y e e' hPx hPy hne hx hy).imp_right fun hshared => hshared.mono he he' ?_
        intro o bs bs' hbs hbs' j r hr
        by_cases ho : o = some name
        · subst ho
          exact absurd (hnew.symm.trans hbs) (by simp)
        · rw [blocks_set_of_ne l _ ho] at hbs'
          obtain rfl := Option.some.inj (hbs.symm.trans hbs')
          exact hr
      · exact .inl (.inl (h.below x e hPx hx))
    · rcases hcases y e' he' with hy | ⟨rfl, -⟩
      · exact .inl (.inr (h.below y e' hPy hy))
      · exact absurd rfl hne

end Layout

/-! ## The fields of a record that is logged -/

def partData (key value metadata : Option Bytes) : Part → Option Bytes
  | .key => key
  | .value => value
  | .metadata => metadata

def partStart (start : Nat) (key value : Option Bytes) : Part → Nat
  | .key => start
  | .value => start + dataSize key
  | .metadata => start + dataSize key + dataSize value

theorem fieldAt_cases (offset : Nat) (data : Option Bytes) (h : offset + dataSize data < 2 ^ 32) :
    fieldAt offset data = .zero ∨
      (fieldAt offset data).start = offset ∧ (fieldAt offset data).stop = offset + dataSize data := by
  cases data with
  | none => exact .inl rfl
  | some data =>
    have hsize : dataSize (some data) = data.length := rfl
    have hoffset : (UInt32.ofNat offset).toNat = offset :=
      UInt32.toNat_ofNat_of_lt' (Nat.lt_of_le_of_lt (Nat.le_add_right _ _) h)
    have hlength : (UInt32.ofNat data.length).toNat = data.length :=
      UInt32.toNat_ofNat_of_lt' (Nat.lt_of_le_of_lt (Nat.le_add_left _ _) h)
    exact .inr ⟨hoffset, by rw [Field.stop, fieldAt, hoffset, hlength, hsize]⟩

theorem Logged.part_cases {start : Nat} {operation : Operation} {recordIndex : UInt32}
    {key value metadata : Option Bytes} {records : List LogRecord} {r : LogRecord}
    (h : Logged start operation recordIndex key value metadata records r)
    (hlt : start + dataSize key + dataSize value + dataSize metadata < 2 ^ 32) (part : Part) :
    r.part part = .zero ∨
      ((r.part part).start = partStart start key value part ∧
        (r.part part).stop = partStart start key value part + dataSize (partData key value metadata part)) ∨
      (r.operation = Operation.set.code ∧ ∃ old ∈ records, r.part part = old.part part) := by
  have hk := fieldAt_cases start key (by omega)
  have hv := fieldAt_cases (start + dataSize key) value (by omega)
  have hm := fieldAt_cases (start + dataSize key + dataSize value) metadata hlt
  obtain ⟨recordID, ⟨-, rfl⟩ | ⟨hset, old, hold, rfl⟩⟩ := h
  · rw [← or_assoc]
    left
    cases part with
    | key => exact hk
    | value => exact hv
    | metadata => exact hm
  · have hmem : old ∈ records := List.mem_of_getElem? hold
    have hop : (keepFields key value metadata (writtenRecord start operation recordIndex recordID key value metadata)
        old).operation = Operation.set.code := by rw [← hset]; rfl
    cases part with
    | key =>
      cases key with
      | none => exact .inr (.inr ⟨hop, old, hmem, rfl⟩)
      | some data => exact or_assoc.mp (.inl hk)
    | value =>
      cases value with
      | none => exact .inr (.inr ⟨hop, old, hmem, rfl⟩)
      | some data => exact or_assoc.mp (.inl hv)
    | metadata =>
      cases metadata with
      | none => exact .inr (.inr ⟨hop, old, hmem, rfl⟩)
      | some data => exact or_assoc.mp (.inl hm)

/-! ## One more record -/

section Append

variable {l : Layout} {owner : Option Bytes} {bs : List Block} {b : Block} {next : Nat} {r : LogRecord}

theorem startOf_tailOf (after next : Nat) (b : Block) (r : LogRecord) : startOf after (tailOf next b r) = b.offset := by
  unfold tailOf
  split <;> rfl

theorem logOf_tailOf (bs : List Block) (b : Block) (next : Nat) (r : LogRecord) :
    logOf (bs ++ tailOf next b r) = logOf (bs ++ [b]) ++ [r] := by
  unfold tailOf
  split <;> simp [logOf, Block.add]

theorem getElem?_tailOf {i : Nat} {c : Block} (h : (bs ++ tailOf next b r)[i]? = some c) :
    (∃ c', (bs ++ [b])[i]? = some c' ∧ c'.offset = c.offset) ∨
      i = bs.length + 1 ∧ ¬ b.records.length < Block.capacity ∧ c = ⟨next, [r]⟩ := by
  rcases Nat.lt_trichotomy i bs.length with hi | rfl | hi
  · rw [List.getElem?_append_left hi] at h
    exact .inl ⟨c, by rw [List.getElem?_append_left hi, h], rfl⟩
  · left
    refine ⟨b, by simp, ?_⟩
    unfold tailOf at h
    split at h <;> simp at h <;> subst h <;> rfl
  · right
    unfold tailOf at h
    split at h
    case isTrue =>
      have hlen := (List.getElem?_eq_some_iff.mp h).1
      simp only [List.length_append, List.length_cons, List.length_nil] at hlen
      omega
    case isFalse hfull =>
      obtain rfl : i = bs.length + 1 := by
        have := (List.getElem?_eq_some_iff.mp h).1
        simp only [List.length_append, List.length_cons, List.length_nil] at this
        omega
      exact ⟨rfl, hfull, by simpa using h.symm⟩

/-- Where an item of a layout with one more record comes from. -/
inductive Origin (l : Layout) (owner : Option Bytes) (bs : List Block) (b : Block) (next start : Nat)
    (key value metadata : Option Bytes) (r : LogRecord) (x : Item) (e : Nat × Nat) : Prop
  | old (h : l.extent x = some e)
  | block (hx : x = .block owner (bs.length + 1)) (hfull : ¬ b.records.length < Block.capacity)
      (he : e = (next, next + defaultBlockSize.toNat))
  | void (he : e = (0, 0))
  | written (part : Part) (hx : x = .field owner (logOf (bs ++ [b])).length part)
      (he : e = (partStart start key value part,
        partStart start key value part + dataSize (partData key value metadata part)))
  | kept (part : Part) (j : Nat) (old : LogRecord) (hx : x = .field owner (logOf (bs ++ [b])).length part)
      (hset : r.operation = Operation.set.code) (hold : (logOf (bs ++ [b]))[j]? = some old)
      (hpart : r.part part = old.part part) (h : l.extent (.field owner j part) = some e)

variable {operation : Operation} {recordIndex : UInt32} {key value metadata : Option Bytes}
  {records : List LogRecord}

theorem origin_of_extent (hbs : l.blocks owner = some (bs ++ [b]))
    (hlogged : Logged (dataStart next b) operation recordIndex key value metadata records r)
    (hrecords : ∀ old ∈ records, old ∈ logOf (bs ++ [b]))
    (hlt : dataStart next b + dataSize key + dataSize value + dataSize metadata < 2 ^ 32) {x : Item} {e : Nat × Nat}
    (he : (l.set owner (bs ++ tailOf next b r)).extent x = some e) :
    Origin l owner bs b next (dataStart next b) key value metadata r x e := by
  cases x with
  | header => exact .old he
  | block o i =>
    obtain ⟨cs, c, hcs, hc, rfl⟩ := Layout.extent_block.mp he
    by_cases ho : o = owner
    · subst ho
      obtain rfl := Option.some.inj ((Layout.blocks_set_self l o _).symm.trans hcs)
      rcases getElem?_tailOf hc with ⟨c', hc', hoffset⟩ | ⟨rfl, hfull, rfl⟩
      · exact .old (Layout.extent_block.mpr ⟨_, c', hbs, hc', by rw [Block.stop, hoffset, Block.stop]⟩)
      · exact .block rfl hfull rfl
    · rw [Layout.blocks_set_of_ne l _ ho] at hcs
      exact .old (Layout.extent_block.mpr ⟨cs, c, hcs, hc, rfl⟩)
  | field o j part =>
    obtain ⟨hkey, cs, r', hcs, hr', rfl⟩ := Layout.extent_field.mp he
    by_cases ho : o = owner
    · subst ho
      obtain rfl := Option.some.inj ((Layout.blocks_set_self l o _).symm.trans hcs)
      rw [logOf_tailOf, List.getElem?_append] at hr'
      split at hr'
      · exact .old (Layout.extent_field.mpr ⟨hkey, _, r', hbs, hr', rfl⟩)
      · -- the new record
        obtain ⟨rfl, rfl⟩ : j = (logOf (bs ++ [b])).length ∧ r = r' := by
          have hlen := (List.getElem?_eq_some_iff.mp hr').1
          rw [List.length_singleton] at hlen
          have hzero : j - (logOf (bs ++ [b])).length = 0 := by omega
          rw [hzero] at hr'
          exact ⟨by omega, by simpa using hr'⟩
        rcases hlogged.part_cases hlt part with hzero | ⟨hstart, hstop⟩ | ⟨hset, old, hold, hpart⟩
        · exact .void (by rw [hzero]; rfl)
        · exact .written part rfl (by rw [hstart, hstop])
        · obtain ⟨i, hi⟩ := List.mem_iff_getElem?.mp (hrecords old hold)
          exact .kept part i old rfl hset hi hpart
            (Layout.extent_field.mpr ⟨hkey, _, old, hbs, hi, by rw [hpart]⟩)
    · rw [Layout.blocks_set_of_ne l _ ho] at hcs
      exact .old (Layout.extent_field.mpr ⟨hkey, cs, r', hcs, hr', rfl⟩)

/-- What had the field that a set keeps shares it with the set. -/
theorem kept_of_shared {part : Part} {j : Nat} {old : LogRecord} {x : Item}
    (hbs : l.blocks owner = some (bs ++ [b])) (hold : (logOf (bs ++ [b]))[j]? = some old)
    (hset : r.operation = Operation.set.code) (hpart : r.part part = old.part part)
    (hx : x = .field owner j part ∨ l.Shared x (.field owner j part)) :
    (l.set owner (bs ++ tailOf next b r)).Kept x (.field owner (logOf (bs ++ [b])).length part) := by
  have hsame : ∃ i r', x = .field owner i part ∧ (logOf (bs ++ [b]))[i]? = some r' ∧ r'.part part = old.part part := by
    rcases hx with rfl | ⟨o, p, i, k, rfl, hy, -, cs, r1, r2, hcs, hr1, hr2, -, heq⟩ |
        ⟨o, p, i, k, hy, rfl, -, cs, r1, r2, hcs, hr1, hr2, -, heq⟩
    · exact ⟨j, old, rfl, hold, rfl⟩
    · cases hy
      obtain rfl := Option.some.inj (hbs.symm.trans hcs)
      obtain rfl := Option.some.inj (hold.symm.trans hr2)
      exact ⟨i, r1, rfl, hr1, heq.symm⟩
    · cases hy
      obtain rfl := Option.some.inj (hbs.symm.trans hcs)
      obtain rfl := Option.some.inj (hold.symm.trans hr1)
      exact ⟨k, r2, rfl, hr2, heq⟩
  obtain ⟨i, r', rfl, hr', heq⟩ := hsame
  have hlt : i < (logOf (bs ++ [b])).length := (List.getElem?_eq_some_iff.mp hr').1
  refine ⟨owner, part, i, _, rfl, rfl, hlt, _, r', r, Layout.blocks_set_self l owner _, ?_, ?_, hset, hpart.trans heq.symm⟩
  · rw [logOf_tailOf, List.getElem?_append_left hlt, hr']
  · rw [logOf_tailOf]
    simp

theorem le_dataStart (next : Nat) (b : Block) : next ≤ dataStart next b := by
  unfold dataStart
  split
  · exact Nat.le_refl _
  · exact Nat.le_add_right _ _

theorem le_partStart (start : Nat) (key value : Option Bytes) (part : Part) : start ≤ partStart start key value part := by
  cases part <;> simp only [partStart] <;> omega

theorem old_apart_kept {P : Item → Prop} (h : l.PlacedOn P next) (hbs : l.blocks owner = some (bs ++ [b])) {x : Item}
    {e e' : Nat × Nat} (hPx : P x) (hx : l.extent x = some e) {part : Part} {j : Nat} {old : LogRecord}
    (hset : r.operation = Operation.set.code) (hold : (logOf (bs ++ [b]))[j]? = some old)
    (hpart : r.part part = old.part part) (hPy : P (.field owner j part))
    (he' : l.extent (.field owner j part) = some e') :
    Layout.Apart e e' ∨ (l.set owner (bs ++ tailOf next b r)).Shared x (.field owner (logOf (bs ++ [b])).length part) := by
  by_cases heq : x = .field owner j part
  · exact .inr (.inl (kept_of_shared hbs hold hset hpart (.inl heq)))
  · exact (h.apart x _ e e' hPx hPy heq hx he').imp_right fun hshared =>
      .inl (kept_of_shared hbs hold hset hpart (.inr hshared))

theorem Layout.PlacedOn.apart_parts {P : Item → Prop} (h : l.PlacedOn P next) {i j : Nat} {p q : Part}
    {e e' : Nat × Nat} (hne : p ≠ q) (hPx : P (.field owner i p)) (hPy : P (.field owner j q))
    (he : l.extent (.field owner i p) = some e) (he' : l.extent (.field owner j q) = some e') : Apart e e' := by
  have hxy : Item.field owner i p ≠ .field owner j q := fun heq => hne (Item.field.inj heq).2.2
  rcases h.apart _ _ e e' hPx hPy hxy he he' with hapart | ⟨_, _, _, _, hx, hy, -⟩ | ⟨_, _, _, _, hy, hx, -⟩
  · exact hapart
  · cases hx
    exact absurd (Item.field.inj hy).2.2.symm hne
  · cases hx
    exact absurd (Item.field.inj hy).2.2.symm hne

theorem Layout.Placed.apart_parts (h : l.Placed next) {i j : Nat} {p q : Part} {e e' : Nat × Nat} (hne : p ≠ q)
    (he : l.extent (.field owner i p) = some e) (he' : l.extent (.field owner j q) = some e') : Apart e e' :=
  (placed_iff.mp h).apart_parts hne trivial trivial he he'

theorem apart_written (start : Nat) (key value metadata : Option Bytes) {p q : Part} (hne : p ≠ q) :
    Layout.Apart
      (partStart start key value p, partStart start key value p + dataSize (partData key value metadata p))
      (partStart start key value q, partStart start key value q + dataSize (partData key value metadata q)) := by
  cases p <;> cases q <;> simp only [Layout.Apart, partStart, partData] <;> first | omega | exact absurd rfl hne

theorem Layout.PlacedOn.append {P : Item → Prop} (hP : Item.Uniform P) (h : l.PlacedOn P next)
    (hbs : l.blocks owner = some (bs ++ [b]))
    (hlogged : Logged (dataStart next b) operation recordIndex key value metadata records r)
    (hrecords : ∀ old ∈ records, old ∈ logOf (bs ++ [b]))
    (hlt : dataStart next b + dataSize key + dataSize value + dataSize metadata < 2 ^ 32) :
    (l.set owner (bs ++ tailOf next b r)).PlacedOn P
      (dataStart next b + dataSize key + dataSize value + dataSize metadata) := by
  have hstart := le_dataStart next b
  have hsource {z : Item} {part : Part} (j : Nat) (hz : z = .field owner (logOf (bs ++ [b])).length part) (hPz : P z) :
      P (.field owner j part) := hP owner _ j part (hz ▸ hPz)
  constructor
  · intro x e hPx he
    cases origin_of_extent hbs hlogged hrecords hlt he with
    | old h' => exact (h.below x e hPx h').trans (by omega)
    | block _ hfull he =>
      have hdata : dataStart next b = next + defaultBlockSize.toNat := if_neg hfull
      rw [he, hdata]
      exact Nat.le_trans (Nat.le_add_right _ _) (Nat.le_trans (Nat.le_add_right _ _) (Nat.le_add_right _ _))
    | void he => rw [he]; exact Nat.zero_le _
    | written part _ he =>
      rw [he]
      cases part <;> simp only [partStart, partData] <;> omega
    | kept part j old hx _ _ _ h' => exact (h.below _ e (hsource j hx hPx) h').trans (by omega)
  · intro x y e e' hPx hPy hne he he'
    have hx := origin_of_extent hbs hlogged hrecords hlt he
    have hy := origin_of_extent hbs hlogged hrecords hlt he'
    have hlog : ∀ o cs cs', l.blocks o = some cs → (l.set owner (bs ++ tailOf next b r)).blocks o = some cs' →
        ∀ (j : Nat) r, (logOf cs)[j]? = some r → (logOf cs')[j]? = some r := by
      intro o cs cs' hcs hcs' j r' hr'
      by_cases ho : o = owner
      · subst ho
        obtain rfl := Option.some.inj ((Layout.blocks_set_self l o _).symm.trans hcs')
        obtain rfl := Option.some.inj (hbs.symm.trans hcs)
        rw [logOf_tailOf]
        exact getElem?_append_some hr' _
      · rw [Layout.blocks_set_of_ne l _ ho] at hcs'
        obtain rfl := Option.some.inj (hcs.symm.trans hcs')
        exact hr'
    have hpart := le_partStart (dataStart next b) key value
    cases hx with
    | void hv => exact .inl (.inl (by rw [hv]; exact Nat.zero_le _))
    | old hxo =>
      cases hy with
      | void hv => exact .inl (.inr (by rw [hv]; exact Nat.zero_le _))
      | old hyo => exact (h.apart x y e e' hPx hPy hne hxo hyo).imp_right fun hs => hs.mono he he' hlog
      | block _ _ hv => exact .inl (.inl ((h.below x e hPx hxo).trans (by rw [hv])))
      | written part _ hv => exact .inl (.inl ((h.below x e hPx hxo).trans (by rw [hv]; exact hstart.trans (hpart part))))
      | kept part j old hy hset hold heq hyo =>
        have hPold := hsource j hy hPy
        subst hy
        exact old_apart_kept h hbs hPx hxo hset hold heq hPold hyo
    | block hxb hfull hv =>
      have hdata : dataStart next b = next + defaultBlockSize.toNat := if_neg hfull
      cases hy with
      | void hv' => exact .inl (.inr (by rw [hv']; exact Nat.zero_le _))
      | old hyo => exact .inl (.inr ((h.below y e' hPy hyo).trans (by rw [hv])))
      | block hyb _ _ => exact absurd (hxb.trans hyb.symm) hne
      | written part _ hv' => exact .inl (.inl (by rw [hv, hv', ← hdata]; exact hpart part))
      | kept part j old hy _ _ _ hyo =>
        exact .inl (.inr ((h.below _ e' (hsource j hy hPy) hyo).trans (by rw [hv])))
    | written p hxp hv =>
      cases hy with
      | void hv' => exact .inl (.inr (by rw [hv']; exact Nat.zero_le _))
      | old hyo => exact .inl (.inr ((h.below y e' hPy hyo).trans (by rw [hv]; exact hstart.trans (hpart p))))
      | block _ hfull hv' =>
        have hdata : dataStart next b = next + defaultBlockSize.toNat := if_neg hfull
        exact .inl (.inr (by rw [hv, hv', ← hdata]; exact hpart p))
      | written q hyq hv' =>
        have hpq : p ≠ q := fun hpq => hne (by rw [hxp, hyq, hpq])
        exact .inl (by rw [hv, hv']; exact apart_written _ key value metadata hpq)
      | kept part j old hy _ _ _ hyo =>
        exact .inl (.inr ((h.below _ e' (hsource j hy hPy) hyo).trans (by rw [hv]; exact hstart.trans (hpart p))))
    | kept p i old hxp hset hold heq hxo =>
      have hPold := hsource i hxp hPx
      cases hy with
      | void hv' => exact .inl (.inr (by rw [hv']; exact Nat.zero_le _))
      | old hyo =>
        subst hxp
        exact (old_apart_kept h hbs hPy hyo hset hold heq hPold hxo).imp Layout.Apart.symm Layout.Shared.symm
      | block _ _ hv' => exact .inl (.inl ((h.below _ e hPold hxo).trans (by rw [hv'])))
      | written q _ hv' =>
        exact .inl (.inl ((h.below _ e hPold hxo).trans (by rw [hv']; exact hstart.trans (hpart q))))
      | kept q j old' hyq _ _ _ hyo =>
        have hpq : p ≠ q := fun hpq => hne (by rw [hxp, hyq, hpq])
        exact .inl (h.apart_parts hpq hPold (hsource j hyq hPy) hxo hyo)

end Append

end Tiodb.Logdb
