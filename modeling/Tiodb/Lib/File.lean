import Mathlib.Data.List.Basic

/-!
# Files

Bytes by their offset, below a size. A change of a file is a write inside it or growth
at its end, and what a list of changes keeps is said by the offsets they stay away from.
-/

namespace Tiodb.Lib

structure File where
  size : Nat
  byte : Nat → UInt8

inductive Change where
  | write (offset : Nat) (bytes : List UInt8)
  | grow (n : Nat) (fill : UInt8)
  deriving DecidableEq, Repr

namespace File

def empty : File := ⟨0, fun _ => 0⟩

/-- `none` is a read that leaves the file. -/
def read (f : File) (offset n : Nat) : Option (List UInt8) :=
  if offset + n ≤ f.size then some ((List.range n).map fun i => f.byte (offset + i)) else none

/-- `none` is a write that leaves the file. -/
def write (f : File) (offset : Nat) (bytes : List UInt8) : Option File :=
  if offset + bytes.length ≤ f.size then
    some { f with
      byte := fun i => if offset ≤ i ∧ i < offset + bytes.length then bytes.getD (i - offset) 0 else f.byte i }
  else none

def grow (f : File) (n : Nat) (fill : UInt8) : File :=
  ⟨f.size + n, fun i => if i < f.size then f.byte i else fill⟩

def change (f : File) : Change → Option File
  | .write offset bytes => f.write offset bytes
  | .grow n fill => some (f.grow n fill)

def changes (f : File) (cs : List Change) : Option File := cs.foldlM change f

/-- `f'` has all of `f`, less some bytes outside `P`. -/
structure Keeps (P : Nat → Prop) (f f' : File) : Prop where
  size : f.size ≤ f'.size
  byte : ∀ i < f.size, P i → f'.byte i = f.byte i

variable {P Q : Nat → Prop} {f f' f'' : File} {offset n : Nat} {bytes : List UInt8}

theorem Keeps.refl (P : Nat → Prop) (f : File) : Keeps P f f := ⟨Nat.le_refl _, fun _ _ _ => rfl⟩

theorem Keeps.trans (h : Keeps P f f') (h' : Keeps P f' f'') : Keeps P f f'' where
  size := Nat.le_trans h.size h'.size
  byte i hi hP := (h'.byte i (Nat.lt_of_lt_of_le hi h.size) hP).trans (h.byte i hi hP)

theorem Keeps.mono (h : Keeps P f f') (hQ : ∀ i, Q i → P i) : Keeps Q f f' :=
  ⟨h.size, fun i hi hq => h.byte i hi (hQ i hq)⟩

theorem read_eq_some :
    f.read offset n = some bytes ↔
      offset + n ≤ f.size ∧ (List.range n).map (fun i => f.byte (offset + i)) = bytes := by
  simp [read]

/-- A read depends only on the bytes it reads. -/
theorem read_of_keeps (h : f.read offset n = some bytes) (hk : Keeps P f f')
    (hP : ∀ i, offset ≤ i → i < offset + n → P i) : f'.read offset n = some bytes := by
  obtain ⟨hsize, rfl⟩ := read_eq_some.mp h
  refine read_eq_some.mpr ⟨Nat.le_trans hsize hk.size, List.map_congr_left fun i hi => ?_⟩
  have hi : i < n := List.mem_range.mp hi
  exact hk.byte _ (by omega) (hP _ (by omega) (by omega))

theorem length_of_read (h : f.read offset n = some bytes) : bytes.length = n := by
  obtain ⟨-, rfl⟩ := read_eq_some.mp h
  simp

theorem exists_read (h : offset + n ≤ f.size) : ∃ bytes, f.read offset n = some bytes :=
  ⟨_, read_eq_some.mpr ⟨h, rfl⟩⟩

theorem read_take (h : f.read offset n = some bytes) {m : Nat} (hm : m ≤ n) : f.read offset m = some (bytes.take m) := by
  obtain ⟨hsize, rfl⟩ := read_eq_some.mp h
  refine read_eq_some.mpr ⟨by omega, ?_⟩
  rw [← List.map_take, List.take_range, Nat.min_eq_left hm]

theorem read_drop (h : f.read offset n = some bytes) {m : Nat} (hm : m ≤ n) :
    f.read (offset + m) (n - m) = some (bytes.drop m) := by
  obtain ⟨hsize, rfl⟩ := read_eq_some.mp h
  refine read_eq_some.mpr ⟨by omega, ?_⟩
  apply List.ext_getElem
  · simp
  · intro i _ _
    simp [Nat.add_assoc]

theorem exists_write (h : offset + bytes.length ≤ f.size) :
    ∃ f', f.write offset bytes = some f' ∧ f'.size = f.size := by
  simp [write, h]

theorem size_of_write (h : f.write offset bytes = some f') : f'.size = f.size := by
  unfold write at h
  split at h
  · obtain rfl := Option.some.inj h
    rfl
  · cases h

theorem read_write (h : f.write offset bytes = some f') : f'.read offset bytes.length = some bytes := by
  unfold write at h
  split at h
  case isFalse => cases h
  case isTrue hsize =>
    obtain rfl := Option.some.inj h
    refine read_eq_some.mpr ⟨hsize, ?_⟩
    apply List.ext_getElem
    · simp
    · intro i hi hi'
      simp [hi']

/-! ## What a change keeps -/

/-- The change writes no byte of `P` that is there. -/
def Avoids (P : Nat → Prop) : Change → Prop
  | .write offset bytes => ∀ i, offset ≤ i → i < offset + bytes.length → ¬ P i
  | .grow _ _ => True

theorem Avoids.mono {c : Change} (h : Avoids P c) (hQ : ∀ i, Q i → P i) : Avoids Q c := by
  cases c with
  | write offset bytes => exact fun i hi hi' hq => h i hi hi' (hQ i hq)
  | grow n fill => trivial

theorem keeps_of_write (h : f.write offset bytes = some f')
    (hP : ∀ i, offset ≤ i → i < offset + bytes.length → ¬ P i) : Keeps P f f' := by
  refine ⟨Nat.le_of_eq (size_of_write h).symm, fun i hi hPi => ?_⟩
  unfold write at h
  split at h
  case isFalse => cases h
  case isTrue =>
    obtain rfl := Option.some.inj h
    have hout : ¬ (offset ≤ i ∧ i < offset + bytes.length) := fun hin => hP i hin.1 hin.2 hPi
    simp only [hout, if_false]

theorem keeps_of_grow (P : Nat → Prop) (f : File) (n : Nat) (fill : UInt8) : Keeps P f (f.grow n fill) :=
  ⟨Nat.le_add_right _ _, fun i hi _ => by simp [grow, hi]⟩

theorem keeps_of_change {c : Change} (h : f.change c = some f') (hP : Avoids P c) : Keeps P f f' := by
  cases c with
  | write offset bytes => exact keeps_of_write h hP
  | grow n fill =>
    obtain rfl := Option.some.inj h
    exact keeps_of_grow P f n fill

@[simp] theorem changes_nil : f.changes [] = some f := rfl

theorem changes_append (cs ds : List Change) :
    f.changes (cs ++ ds) = (f.changes cs).bind fun g => g.changes ds :=
  List.foldlM_append

theorem changes_singleton (c : Change) : f.changes [c] = f.change c := by
  rw [changes, List.foldlM_cons]
  exact bind_pure _

theorem keeps_of_changes {cs : List Change} (h : f.changes cs = some f') (hP : ∀ c ∈ cs, Avoids P c) :
    Keeps P f f' := by
  induction cs generalizing f with
  | nil =>
    obtain rfl := Option.some.inj h
    exact .refl P f
  | cons c cs ih =>
    rw [changes, List.foldlM_cons, Option.bind_eq_bind, Option.bind_eq_some_iff] at h
    obtain ⟨g, hg, h⟩ := h
    have hfirst : Keeps P f g := keeps_of_change hg (hP c (by simp))
    exact hfirst.trans (ih h fun d hd => hP d (by simp [hd]))

/-! ## Files with the same bytes -/

structure Same (f g : File) : Prop where
  size : f.size = g.size
  byte : ∀ i < f.size, f.byte i = g.byte i

theorem Same.refl (f : File) : Same f f := ⟨rfl, fun _ _ => rfl⟩

theorem Same.symm {g : File} (h : Same f g) : Same g f :=
  ⟨h.size.symm, fun i hi => (h.byte i (h.size ▸ hi)).symm⟩

theorem Same.trans {g k : File} (h : Same f g) (h' : Same g k) : Same f k :=
  ⟨h.size.trans h'.size, fun i hi => (h.byte i hi).trans (h'.byte i (h.size ▸ hi))⟩

theorem Same.read {g : File} (h : Same f g) (offset n : Nat) : f.read offset n = g.read offset n := by
  unfold File.read
  rw [h.size]
  split
  case isTrue hin =>
    refine congrArg some (List.map_congr_left fun i hi => h.byte _ ?_)
    have hi : i < n := List.mem_range.mp hi
    have := h.size
    omega
  case isFalse => rfl

theorem Same.write {g : File} (h : Same f g) (hw : f.write offset bytes = some f') :
    ∃ g', g.write offset bytes = some g' ∧ Same f' g' := by
  unfold File.write at hw ⊢
  rw [← h.size]
  split at hw
  case isFalse => cases hw
  case isTrue hin =>
    obtain rfl := Option.some.inj hw
    rw [if_pos hin]
    refine ⟨_, rfl, rfl, fun i hi => ?_⟩
    simp only [h.byte i hi]

theorem Same.grow {g : File} (h : Same f g) (n : Nat) (fill : UInt8) : Same (f.grow n fill) (g.grow n fill) := by
  refine ⟨congrArg (· + n) h.size, fun i hi => ?_⟩
  unfold File.grow
  simp only [← h.size]
  split
  case isTrue hlt => exact h.byte i hlt
  case isFalse => rfl

theorem write_nil (h : offset ≤ f.size) : f.write offset [] = some f := by
  have hout (i : Nat) : ¬ (offset ≤ i ∧ i < offset + 0) := by omega
  simp only [File.write, List.length_nil, Nat.add_zero, h, if_true]
  congr 2
  funext i
  exact if_neg (hout i)

theorem read_append {m : Nat} {bytes' : List UInt8} (h : f.read offset m = some bytes)
    (h' : f.read (offset + m) n = some bytes') : f.read offset (m + n) = some (bytes ++ bytes') := by
  obtain ⟨-, rfl⟩ := read_eq_some.mp h
  obtain ⟨hsize, rfl⟩ := read_eq_some.mp h'
  refine read_eq_some.mpr ⟨by omega, ?_⟩
  rw [List.range_add, List.map_append, List.map_map]
  simp only [Function.comp_def, Nat.add_assoc]

theorem write_append {bytes' : List UInt8} (h : f.write offset bytes = some f')
    (h' : f'.write (offset + bytes.length) bytes' = some f'') : f.write offset (bytes ++ bytes') = some f'' := by
  have hsize := size_of_write h
  unfold File.write at h h' ⊢
  split at h
  case isFalse => cases h
  case isTrue hin =>
    obtain rfl := Option.some.inj h
    split at h'
    case isFalse => cases h'
    case isTrue hin' =>
      obtain rfl := Option.some.inj h'
      rw [List.length_append, ← Nat.add_assoc, if_pos hin']
      congr 2
      funext i
      simp only [List.getD_eq_getElem?_getD, List.getElem?_append]
      grind

end File

end Tiodb.Lib
