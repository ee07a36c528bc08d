import Mathlib.Data.List.Basic
import Mathlib.Logic.Function.Basic
import Tiodb.Ldb.Database

/-!
# The page cache

`PagedFile` of `logdb.h`, down to the calls of the file. Pages are cached first in first
out, and a write goes to the page and to the file. The bytes of a new buffer are any, and
`none` is an access to memory that is not there.
-/

namespace Tiodb.Logdb

open Lib

/-- A `DWORD`. -/
def dword (n : Nat) : Nat := n % 2 ^ 32

def cacheInMegabytes : Nat := 4

/-- `File::Read` after `SetPointer`: what the file has of the bytes goes over the start of the buffer. -/
def readAt (f : File) (offset : Nat) (buffer : Bytes) : Bytes :=
  let n := min buffer.length (f.size - offset)
  (List.range n).map (fun i => f.byte (offset + i)) ++ buffer.drop n

/-- `File::Write` after `SetPointer`, which may move the end of the file. -/
def writeAt (f : File) (offset : Nat) (bytes : Bytes) : File where
  size := max f.size (offset + bytes.length)
  byte i :=
    if offset ≤ i ∧ i < offset + bytes.length then bytes.getD (i - offset) 0
    else if i < f.size then f.byte i else 0

/-- `cache` has the buffer of each page in it. `news` counts the buffers, and `reads` is history. -/
structure PagedFile where
  file : File
  pageSize : Nat := 4096
  cacheMaxPages : Nat := cacheInMegabytes * 1024 * 1024 / 4096
  cache : Nat → Option Bytes := fun _ => none
  currentCachePagesList : List Nat := []
  news : Nat := 0
  reads : List Bytes := []

/-- What is in each new buffer. -/
abbrev Memory := Nat → Nat → UInt8

namespace PagedFile

/-- The buffer of the page that is evicted, or a new one. -/
def buffer (memory : Memory) (s : PagedFile) : Option (Bytes × PagedFile) :=
  if s.cacheMaxPages ≤ s.currentCachePagesList.length then
    match s.currentCachePagesList with
    | [] => none
    | front :: rest => (s.cache front).map fun buffer =>
      (buffer, { s with cache := Function.update s.cache front none, currentCachePagesList := rest })
  else some ((List.range s.pageSize).map (memory s.news), { s with news := s.news + 1 })

def getPage (memory : Memory) (s : PagedFile) (page : Nat) : Option (Bytes × PagedFile) :=
  match s.cache page with
  | some buffer => some (buffer, s)
  | none =>
    (s.buffer memory).map fun (buffer, s) =>
      let buffer := readAt s.file (dword (page * s.pageSize)) buffer
      (buffer, { s with
        cache := Function.update s.cache page (some buffer)
        currentCachePagesList := s.currentCachePagesList ++ [page] })

def flushPage (s : PagedFile) (page : Nat) : PagedFile :=
  match s.cache page with
  | none => s
  | some buffer => { s with file := writeAt s.file (dword (page * s.pageSize)) buffer }

def setPageSize (s : PagedFile) (pageSize : Nat) : PagedFile :=
  { s with
    cache := fun _ => none
    currentCachePagesList := []
    pageSize := pageSize
    cacheMaxPages := cacheInMegabytes * 1024 * 1024 / pageSize }

/-- The loop of `Read`, for at most so many pages. -/
def readLoop (memory : Memory) : Nat → PagedFile → Nat → Nat → Nat → Option (Bytes × PagedFile)
  | 0, s, _, _, remaining => if remaining = 0 then some ([], s) else none
  | fuel + 1, s, pageNumber, pageOffset, remaining =>
    if remaining = 0 then some ([], s)
    else do
      let (pageBuffer, s) ← s.getPage memory pageNumber
      let toRead := min remaining (s.pageSize - pageOffset)
      let bytes := (pageBuffer.drop pageOffset).take toRead
      let (rest, s) ← readLoop memory fuel s (dword (pageNumber + 1)) 0 (remaining - toRead)
      some (bytes ++ rest, s)

def read (memory : Memory) (s : PagedFile) (offset size : Nat) : Option (Bytes × PagedFile) :=
  readLoop memory size s (offset / s.pageSize) (offset % s.pageSize) size

/-- `memcpy` into the buffer of a page. -/
def poke (pageBuffer : Bytes) (pageOffset : Nat) (bytes : Bytes) : Bytes :=
  pageBuffer.take pageOffset ++ bytes ++ pageBuffer.drop (pageOffset + bytes.length)

def writeLoop (memory : Memory) : Nat → PagedFile → Nat → Nat → Bytes → Option PagedFile
  | 0, s, _, _, bytes => if bytes = [] then some s else none
  | fuel + 1, s, pageNumber, pageOffset, bytes =>
    if bytes = [] then some s
    else do
      let (pageBuffer, s) ← s.getPage memory pageNumber
      let toWrite := min bytes.length (s.pageSize - pageOffset)
      let pageBuffer := poke pageBuffer pageOffset (bytes.take toWrite)
      let s := { s with cache := Function.update s.cache pageNumber (some pageBuffer) }.flushPage pageNumber
      writeLoop memory fuel s (dword (pageNumber + 1)) 0 (bytes.drop toWrite)

def write (memory : Memory) (s : PagedFile) (offset : Nat) (bytes : Bytes) : Option PagedFile :=
  writeLoop memory bytes.length s (offset / s.pageSize) (offset % s.pageSize) bytes

def getFileSize (s : PagedFile) : Nat := dword s.file.size

def growFile (s : PagedFile) (pages : Nat) : PagedFile :=
  { s with file := writeAt s.file s.getFileSize (List.replicate (dword (pages * s.pageSize)) uninitializedByte) }

/-! ## Buffers -/

theorem length_readAt (f : File) (offset : Nat) (buffer : Bytes) : (readAt f offset buffer).length = buffer.length := by
  simp only [readAt, List.length_append, List.length_map, List.length_range, List.length_drop]
  omega

theorem getElem?_readAt {f : File} {offset j : Nat} {buffer : Bytes} (hj : j < buffer.length)
    (hin : offset + j < f.size) : (readAt f offset buffer)[j]? = some (f.byte (offset + j)) := by
  have hlt : j < min buffer.length (f.size - offset) := by omega
  unfold readAt
  rw [List.getElem?_append_left (by simpa using hlt), List.getElem?_map, List.getElem?_range hlt]
  rfl

theorem length_poke {pageBuffer bytes : Bytes} {pageOffset : Nat} (h : pageOffset + bytes.length ≤ pageBuffer.length) :
    (poke pageBuffer pageOffset bytes).length = pageBuffer.length := by
  simp only [poke, List.length_append, List.length_take, List.length_drop]
  omega

theorem getElem?_poke {pageBuffer bytes : Bytes} {pageOffset : Nat}
    (h : pageOffset + bytes.length ≤ pageBuffer.length) (j : Nat) :
    (poke pageBuffer pageOffset bytes)[j]? =
      if pageOffset ≤ j ∧ j < pageOffset + bytes.length then bytes[j - pageOffset]? else pageBuffer[j]? := by
  unfold poke
  simp only [List.getElem?_append, List.length_append, List.length_take, List.getElem?_take, List.getElem?_drop]
  grind

/-! ## What the cache keeps -/

/-- The pages in the cache begin inside the file, and have its bytes. -/
structure Sound (s : PagedFile) : Prop where
  pageSize : 0 < s.pageSize
  room : 0 < s.cacheMaxPages
  listed : ∀ p, (s.cache p).isSome ↔ p ∈ s.currentCachePagesList
  distinct : s.currentCachePagesList.Nodup
  inside : ∀ p buffer, s.cache p = some buffer → p * s.pageSize < s.file.size ∧ buffer.length = s.pageSize
  bytes : ∀ p buffer, s.cache p = some buffer → ∀ j < s.pageSize, p * s.pageSize + j < s.file.size →
    buffer[j]? = some (s.file.byte (p * s.pageSize + j))

/-- Only the cache is another one. -/
structure SameBut (s s' : PagedFile) : Prop where
  file : s'.file = s.file
  pageSize : s'.pageSize = s.pageSize
  reads : s'.reads = s.reads

variable (memory : Memory) {s : PagedFile}

theorem Sound.buffer (h : s.Sound) :
    ∃ buffer s', s.buffer memory = some (buffer, s') ∧ buffer.length = s.pageSize ∧ s'.Sound ∧ SameBut s s' ∧
      ∀ p, s.cache p = none → s'.cache p = none := by
  unfold PagedFile.buffer
  by_cases hfull : s.cacheMaxPages ≤ s.currentCachePagesList.length
  · rw [if_pos hfull]
    cases hlist : s.currentCachePagesList with
    | nil =>
      have := h.room
      simp only [hlist, List.length_nil] at hfull
      omega
    | cons front rest =>
      obtain ⟨buffer, hbuffer⟩ := Option.isSome_iff_exists.mp ((h.listed front).mpr (by simp [hlist]))
      have hdistinct := h.distinct
      rw [hlist] at hdistinct
      obtain ⟨hfront, hrest⟩ := List.nodup_cons.mp hdistinct
      have hother : ∀ p buffer', Function.update s.cache front none p = some buffer' → s.cache p = some buffer' := by
        intro p buffer' hp
        rw [Function.update_apply] at hp
        split at hp
        · cases hp
        · exact hp
      refine ⟨buffer, { s with cache := Function.update s.cache front none, currentCachePagesList := rest },
        by simp only [hbuffer, Option.map_some], (h.inside _ _ hbuffer).2,
        ⟨h.pageSize, h.room, fun p => ?_, hrest, ?_, ?_⟩, ⟨rfl, rfl, rfl⟩, fun p hp => ?_⟩
      · dsimp only
        have hlisted := h.listed p
        rw [hlist, List.mem_cons] at hlisted
        by_cases hp : p = front
        · subst hp
          simpa using hfront
        · simpa [Function.update_apply, hp] using hlisted
      · exact fun p buffer' hp => h.inside p buffer' (hother p buffer' hp)
      · exact fun p buffer' hp => h.bytes p buffer' (hother p buffer' hp)
      · dsimp only
        rw [Function.update_apply]
        split
        · rfl
        · exact hp
  · rw [if_neg hfull]
    exact ⟨_, _, rfl, by simp, ⟨h.pageSize, h.room, h.listed, h.distinct, h.inside, h.bytes⟩, ⟨rfl, rfl, rfl⟩,
      fun p hp => hp⟩

theorem Sound.getPage (h : s.Sound) (page : Nat) (hin : page * s.pageSize < s.file.size)
    (hdword : page * s.pageSize < 2 ^ 32) :
    ∃ buffer s', s.getPage memory page = some (buffer, s') ∧ s'.Sound ∧ SameBut s s' ∧
      s'.cache page = some buffer := by
  unfold PagedFile.getPage
  cases hpage : s.cache page with
  | some buffer => exact ⟨buffer, s, rfl, h, ⟨rfl, rfl, rfl⟩, hpage⟩
  | none =>
    obtain ⟨buffer, s', hbuffer, hlength, hsound, hsame, hnone⟩ := h.buffer memory
    have hnew : page ∉ s'.currentCachePagesList := by
      rw [← hsound.listed, hnone page hpage]
      simp
    have hoffset : dword (page * s'.pageSize) = page * s'.pageSize := by
      rw [hsame.pageSize]
      exact Nat.mod_eq_of_lt hdword
    rw [hbuffer]
    refine ⟨_, _, rfl, ⟨hsound.pageSize, hsound.room, fun p => ?_, ?_, fun p b hp => ?_, fun p b hp => ?_⟩,
      ⟨hsame.file, hsame.pageSize, hsame.reads⟩, Function.update_self ..⟩
    · have hlisted := hsound.listed p
      by_cases hp : p = page
      · subst hp
        simp
      · simpa [Function.update_apply, hp] using hlisted
    · rw [List.nodup_append]
      refine ⟨hsound.distinct, by simp, fun a ha b hb => ?_⟩
      rw [List.mem_singleton] at hb
      rintro rfl
      exact hnew (hb ▸ ha)
    · simp only [Function.update_apply] at hp
      split at hp
      case isFalse => exact hsound.inside p b hp
      case isTrue heq =>
        subst heq
        obtain rfl := Option.some.inj hp
        refine ⟨?_, ?_⟩
        · simpa only [hsame.pageSize, hsame.file] using hin
        · rw [length_readAt, hlength, hsame.pageSize]
    · simp only [Function.update_apply] at hp
      split at hp
      case isFalse => exact hsound.bytes p b hp
      case isTrue heq =>
        subst heq
        obtain rfl := Option.some.inj hp
        intro j hj hsize
        rw [hoffset]
        exact getElem?_readAt (by rw [hlength, ← hsame.pageSize]; exact hj) hsize

/-! ## Reading -/

theorem SameBut.trans {s' s'' : PagedFile} (h : SameBut s s') (h' : SameBut s' s'') : SameBut s s'' :=
  ⟨h'.file.trans h.file, h'.pageSize.trans h.pageSize, h'.reads.trans h.reads⟩

theorem Sound.read_page (h : s.Sound) {page : Nat} (pageOffset : Nat) {n : Nat} {buffer : Bytes} (hpage : s.cache page = some buffer)
    (hn : pageOffset + n ≤ s.pageSize) (hin : page * s.pageSize + pageOffset + n ≤ s.file.size) :
    s.file.read (page * s.pageSize + pageOffset) n = some ((buffer.drop pageOffset).take n) := by
  have hlength := (h.inside page buffer hpage).2
  refine File.read_eq_some.mpr ⟨hin, ?_⟩
  apply List.ext_getElem?
  intro j
  rw [List.getElem?_take, List.getElem?_drop, List.getElem?_map]
  by_cases hj : j < n
  · rw [if_pos hj, List.getElem?_range hj, h.bytes page buffer hpage _ (by omega) (by omega), ← Nat.add_assoc]
    rfl
  · rw [if_neg hj, List.getElem?_eq_none (by simpa using hj)]
    rfl

theorem readLoop_zero (fuel pageNumber pageOffset : Nat) :
    readLoop memory fuel s pageNumber pageOffset 0 = some ([], s) := by
  cases fuel <;> rfl

theorem next_page {pageSize pageNumber pageOffset remaining : Nat} (hoffset : pageOffset < pageSize)
    (hmore : pageSize - pageOffset < remaining) (hdword : pageNumber * pageSize + pageOffset + remaining ≤ 2 ^ 32) :
    dword (pageNumber + 1) = pageNumber + 1 ∧
      (pageNumber + 1) * pageSize = pageNumber * pageSize + pageOffset + (pageSize - pageOffset) := by
  have hmul : (pageNumber + 1) * pageSize = pageNumber * pageSize + pageSize := Nat.succ_mul _ _
  have hle : pageNumber + 1 ≤ (pageNumber + 1) * pageSize := Nat.le_mul_of_pos_right _ (by omega)
  exact ⟨Nat.mod_eq_of_lt (by omega), by omega⟩

theorem Sound.readLoop (h : s.Sound) (fuel pageNumber pageOffset remaining : Nat) (hoffset : pageOffset < s.pageSize)
    (hin : pageNumber * s.pageSize + pageOffset + remaining ≤ s.file.size)
    (hdword : pageNumber * s.pageSize + pageOffset + remaining ≤ 2 ^ 32) (hfuel : remaining ≤ fuel) :
    ∃ bytes s', readLoop memory fuel s pageNumber pageOffset remaining = some (bytes, s') ∧
      s.file.read (pageNumber * s.pageSize + pageOffset) remaining = some bytes ∧ s'.Sound ∧ SameBut s s' := by
  induction fuel generalizing s pageNumber pageOffset remaining with
  | zero =>
    obtain rfl : remaining = 0 := by omega
    exact ⟨[], s, rfl, File.read_eq_some.mpr ⟨by omega, rfl⟩, h, ⟨rfl, rfl, rfl⟩⟩
  | succ fuel ih =>
    by_cases hzero : remaining = 0
    · subst hzero
      exact ⟨[], s, rfl, File.read_eq_some.mpr ⟨by omega, rfl⟩, h, ⟨rfl, rfl, rfl⟩⟩
    obtain ⟨buffer, s₁, hget, hsound, hsame, hcache⟩ :=
      h.getPage memory pageNumber (by omega) (by omega)
    unfold PagedFile.readLoop
    rw [if_neg hzero, hget]
    simp only [Option.bind_eq_bind, Option.bind_some]
    rw [← hsame.pageSize] at hin hdword hoffset ⊢
    rw [← hsame.file] at hin ⊢
    by_cases hmore : s₁.pageSize - pageOffset < remaining
    · obtain ⟨hnext, hstart⟩ := next_page hoffset hmore hdword
      have hmin : min remaining (s₁.pageSize - pageOffset) = s₁.pageSize - pageOffset := by omega
      obtain ⟨rest, s₂, hrest, hread, hsound', hsame'⟩ := ih hsound (pageNumber + 1) 0
        (remaining - (s₁.pageSize - pageOffset)) (by omega) (by omega) (by omega) (by omega)
      rw [hmin, hnext, hrest]
      refine ⟨_, s₂, rfl, ?_, hsound', hsame.trans hsame'⟩
      have hfirst := hsound.read_page pageOffset (n := s₁.pageSize - pageOffset) hcache (by omega)
        (by omega)
      rw [Nat.add_zero, hstart] at hread
      rw [show remaining = (s₁.pageSize - pageOffset) + (remaining - (s₁.pageSize - pageOffset)) by omega]
      exact File.read_append hfirst hread
    · have hmin : min remaining (s₁.pageSize - pageOffset) = remaining := by omega
      rw [hmin, Nat.sub_self, readLoop_zero]
      refine ⟨_, s₁, rfl, ?_, hsound, hsame⟩
      rw [List.append_nil]
      exact hsound.read_page pageOffset hcache (by omega) (by omega)

theorem Sound.read (h : s.Sound) {offset n : Nat} (hin : offset + n ≤ s.file.size) (hdword : offset + n ≤ 2 ^ 32) :
    ∃ bytes s', s.read memory offset n = some (bytes, s') ∧ s.file.read offset n = some bytes ∧ s'.Sound ∧
      SameBut s s' := by
  have hoffset : offset / s.pageSize * s.pageSize + offset % s.pageSize = offset := Nat.div_add_mod' ..
  have := h.readLoop memory n (offset / s.pageSize) (offset % s.pageSize) n
    (Nat.mod_lt offset h.pageSize) (by omega) (by omega) (Nat.le_refl n)
  rwa [hoffset] at this

/-! ## Writing -/

theorem page_inside {pageSize page size : Nat} (hpages : pageSize ∣ size) (hin : page * pageSize < size) :
    page * pageSize + pageSize ≤ size := by
  obtain ⟨k, rfl⟩ := hpages
  rw [Nat.mul_comm pageSize k] at hin ⊢
  rw [← Nat.succ_mul]
  exact Nat.mul_le_mul_right _ (Nat.lt_of_mul_lt_mul_right hin)

/-- The page with the bytes in it, and on the file. -/
def withPage (s : PagedFile) (page : Nat) (pageBuffer : Bytes) : PagedFile :=
  { s with
    cache := Function.update s.cache page (some pageBuffer)
    file := writeAt s.file (page * s.pageSize) pageBuffer }

theorem flushPage_update {page : Nat} {pageBuffer : Bytes} (hdword : page * s.pageSize < 2 ^ 32) :
    { s with cache := Function.update s.cache page (some pageBuffer) }.flushPage page = s.withPage page pageBuffer := by
  have hoffset : dword (page * s.pageSize) = page * s.pageSize := Nat.mod_eq_of_lt hdword
  simp [flushPage, withPage, hoffset]

theorem Sound.withPage (h : s.Sound) {page : Nat} (pageOffset : Nat) {buffer : Bytes} (bytes : Bytes)
    (hcache : s.cache page = some buffer) (hpages : s.pageSize ∣ s.file.size)
    (hn : pageOffset + bytes.length ≤ s.pageSize) :
    ∃ file, s.file.write (page * s.pageSize + pageOffset) bytes = some file ∧
      file.Same (s.withPage page (poke buffer pageOffset bytes)).file ∧
      (s.withPage page (poke buffer pageOffset bytes)).Sound := by
  obtain ⟨hin, hlength⟩ := h.inside page buffer hcache
  have hpage := page_inside hpages hin
  have hpoke : (poke buffer pageOffset bytes).length = s.pageSize := by
    rw [length_poke (by omega), hlength]
  have hsize : (s.withPage page (poke buffer pageOffset bytes)).file.size = s.file.size := by
    unfold PagedFile.withPage writeAt
    simp only [hpoke]
    omega
  have hbyte : ∀ i < s.file.size, (s.withPage page (poke buffer pageOffset bytes)).file.byte i =
      if page * s.pageSize + pageOffset ≤ i ∧ i < page * s.pageSize + pageOffset + bytes.length then
        bytes.getD (i - (page * s.pageSize + pageOffset)) 0
      else s.file.byte i := by
    intro i hi
    unfold PagedFile.withPage writeAt
    simp only [hpoke, hi, if_true, List.getD_eq_getElem?_getD, getElem?_poke (hlength ▸ hn)]
    by_cases hinside : page * s.pageSize ≤ i ∧ i < page * s.pageSize + s.pageSize
    · have hbuffer := h.bytes page buffer hcache (i - page * s.pageSize) (by omega) (by omega)
      rw [if_pos hinside, hbuffer, Nat.add_sub_cancel' hinside.1, Nat.sub_sub]
      grind
    · rw [if_neg hinside, if_neg (by omega)]
  refine ⟨_, if_pos (by omega), ⟨hsize.symm, fun i hi => (hbyte i hi).symm⟩, ?_⟩
  have hother {p j : Nat} (hp : p ≠ page) (hj : j < s.pageSize) (hsize : p * s.pageSize + j < s.file.size) :
      (s.withPage page (poke buffer pageOffset bytes)).file.byte (p * s.pageSize + j) =
        s.file.byte (p * s.pageSize + j) := by
    rw [hbyte _ hsize, if_neg]
    obtain hlt | hlt := Nat.lt_or_gt_of_ne hp
    · have := Nat.mul_le_mul_right s.pageSize (Nat.succ_le_of_lt hlt)
      rw [Nat.succ_mul] at this
      omega
    · have := Nat.mul_le_mul_right s.pageSize (Nat.succ_le_of_lt hlt)
      rw [Nat.succ_mul] at this
      omega
  refine ⟨h.pageSize, h.room, fun p => ?_, h.distinct, fun p b hp => ?_, fun p b hp j hj hj' => ?_⟩
  · have hlisted := h.listed p
    change (Function.update s.cache page _ p).isSome ↔ p ∈ s.currentCachePagesList
    by_cases heq : p = page
    · subst heq
      simpa [hcache] using hlisted
    · simpa [Function.update_apply, heq] using hlisted
  · change Function.update s.cache page _ p = some b at hp
    rw [hsize]
    by_cases heq : p = page
    · subst heq
      rw [Function.update_self] at hp
      obtain rfl := Option.some.inj hp
      exact ⟨hin, hpoke⟩
    · rw [Function.update_of_ne heq] at hp
      exact h.inside p b hp
  · change Function.update s.cache page _ p = some b at hp
    rw [hsize] at hj'
    by_cases heq : p = page
    · subst heq
      rw [Function.update_self] at hp
      obtain rfl := Option.some.inj hp
      have hlt : j < (poke buffer pageOffset bytes).length := hpoke ▸ hj
      change _ = some (ite (_ ∧ _) _ _)
      rw [if_pos ⟨Nat.le_add_right _ _, Nat.add_lt_add_left hlt _⟩, List.getD_eq_getElem?_getD]
      change _ = some (_[p * s.pageSize + j - p * s.pageSize]?.getD 0)
      rw [Nat.add_sub_cancel_left, List.getElem?_eq_getElem hlt]
      rfl
    · rw [Function.update_of_ne heq] at hp
      exact (h.bytes p b hp j hj hj').trans (congrArg some (hother heq hj hj').symm)

theorem writeLoop_nil (fuel pageNumber pageOffset : Nat) :
    writeLoop memory fuel s pageNumber pageOffset [] = some s := by
  cases fuel <;> rfl

theorem Sound.writeLoop (h : s.Sound) (fuel pageNumber pageOffset : Nat) (bytes : Bytes)
    (hoffset : pageOffset < s.pageSize) (hpages : s.pageSize ∣ s.file.size)
    (hin : pageNumber * s.pageSize + pageOffset + bytes.length ≤ s.file.size)
    (hdword : pageNumber * s.pageSize + pageOffset + bytes.length ≤ 2 ^ 32) (hfuel : bytes.length ≤ fuel) :
    ∃ s' file, writeLoop memory fuel s pageNumber pageOffset bytes = some s' ∧
      s.file.write (pageNumber * s.pageSize + pageOffset) bytes = some file ∧ file.Same s'.file ∧ s'.Sound ∧
      s'.pageSize = s.pageSize ∧ s'.reads = s.reads := by
  induction fuel generalizing s pageNumber pageOffset bytes with
  | zero =>
    obtain rfl := List.length_eq_zero_iff.mp (Nat.le_zero.mp hfuel)
    exact ⟨s, s.file, rfl, File.write_nil hin, .refl _, h, rfl, rfl⟩
  | succ fuel ih =>
    by_cases hnil : bytes = []
    · subst hnil
      exact ⟨s, s.file, rfl, File.write_nil hin, .refl _, h, rfl, rfl⟩
    have hpos : 0 < bytes.length := List.length_pos_of_ne_nil hnil
    obtain ⟨buffer, s₁, hget, hsound, hsame, hcache⟩ :=
      h.getPage memory pageNumber (by omega) (by omega)
    unfold PagedFile.writeLoop
    rw [if_neg hnil, hget]
    simp only [Option.bind_eq_bind, Option.bind_some]
    rw [← hsame.pageSize] at hin hdword hoffset hpages ⊢
    rw [← hsame.file] at hin hpages ⊢
    rw [flushPage_update (by omega)]
    obtain ⟨file, hwrite, hfile, hsound'⟩ := hsound.withPage pageOffset
      (bytes.take (min bytes.length (s₁.pageSize - pageOffset))) hcache hpages
      (by rw [List.length_take]; omega)
    by_cases hmore : s₁.pageSize - pageOffset < bytes.length
    · obtain ⟨hnext, hstart⟩ := next_page hoffset hmore hdword
      have hmin : min bytes.length (s₁.pageSize - pageOffset) = s₁.pageSize - pageOffset := by omega
      rw [hmin] at hwrite hfile hsound' ⊢
      have hlength : (bytes.take (s₁.pageSize - pageOffset)).length = s₁.pageSize - pageOffset := by
        rw [List.length_take]
        omega
      have hsize := hfile.size.symm.trans (File.size_of_write hwrite)
      have hdrop : (bytes.drop (s₁.pageSize - pageOffset)).length = bytes.length - (s₁.pageSize - pageOffset) :=
        List.length_drop
      obtain ⟨s', file₂, hrest, hwrite₂, hfile₂, hfinal, hpageSize, hreads⟩ := ih hsound'
        (pageNumber + 1) 0 (bytes.drop (s₁.pageSize - pageOffset))
        hsound.pageSize (hsize.symm ▸ hpages)
        (by change (pageNumber + 1) * s₁.pageSize + 0 + _ ≤ _; omega)
        (by change (pageNumber + 1) * s₁.pageSize + 0 + _ ≤ _; omega) (by omega)
      rw [hnext, hrest]
      change File.write _ ((pageNumber + 1) * s₁.pageSize + 0) _ = _ at hwrite₂
      rw [Nat.add_zero, hstart] at hwrite₂
      obtain ⟨file₃, hwrite₃, hfile₃⟩ := hfile.symm.write hwrite₂
      refine ⟨s', file₃, rfl, ?_, hfile₃.symm.trans hfile₂, hfinal, hpageSize, hreads.trans hsame.reads⟩
      have hparts := File.write_append hwrite (hlength.symm ▸ hwrite₃)
      rwa [hlength, List.take_append_drop] at hparts
    · have hmin : min bytes.length (s₁.pageSize - pageOffset) = bytes.length := by omega
      rw [hmin, List.take_length] at hwrite hfile hsound'
      rw [hmin, List.take_length, List.drop_length, writeLoop_nil]
      exact ⟨_, file, rfl, hwrite, hfile, hsound', rfl, hsame.reads⟩

theorem Sound.write (h : s.Sound) {offset : Nat} {bytes : Bytes} (hpages : s.pageSize ∣ s.file.size)
    (hin : offset + bytes.length ≤ s.file.size) (hdword : offset + bytes.length ≤ 2 ^ 32) :
    ∃ s' file, s.write memory offset bytes = some s' ∧ s.file.write offset bytes = some file ∧ file.Same s'.file ∧
      s'.Sound ∧ s'.pageSize = s.pageSize ∧ s'.reads = s.reads := by
  have hoffset : offset / s.pageSize * s.pageSize + offset % s.pageSize = offset := Nat.div_add_mod' ..
  have := h.writeLoop memory bytes.length (offset / s.pageSize) (offset % s.pageSize) bytes
    (Nat.mod_lt offset h.pageSize) hpages (by omega) (by omega) (Nat.le_refl _)
  rwa [hoffset] at this

/-! ## Growth and the page size -/

theorem Sound.growFile (h : s.Sound) (pages : Nat) (hpages : s.pageSize ∣ s.file.size) (hsize : s.file.size < 2 ^ 32)
    (hgrow : pages * s.pageSize < 2 ^ 32) :
    (s.file.grow (pages * s.pageSize) uninitializedByte).Same (s.growFile pages).file ∧ (s.growFile pages).Sound := by
  have hstart : s.getFileSize = s.file.size := Nat.mod_eq_of_lt hsize
  have hbytes : dword (pages * s.pageSize) = pages * s.pageSize := Nat.mod_eq_of_lt hgrow
  have hfile : (s.growFile pages).file =
      writeAt s.file s.file.size (List.replicate (pages * s.pageSize) uninitializedByte) := by
    unfold PagedFile.growFile
    rw [hstart, hbytes]
  have hold : ∀ i < s.file.size, (s.growFile pages).file.byte i = s.file.byte i := by
    intro i hi
    rw [hfile]
    unfold writeAt
    simp only [hi, if_true]
    exact if_neg (by omega)
  have hle : s.file.size ≤ (s.growFile pages).file.size := by
    rw [hfile]
    exact Nat.le_max_left ..
  refine ⟨⟨?_, fun i hi => ?_⟩, h.pageSize, h.room, h.listed, h.distinct, fun p b hp => ?_, fun p b hp j hj _ => ?_⟩
  · rw [hfile]
    simp [File.grow, writeAt]
  · change i < s.file.size + pages * s.pageSize at hi
    by_cases hlt : i < s.file.size
    · rw [hold i hlt]
      simp [File.grow, hlt]
    · rw [hfile]
      have hin : s.file.size ≤ i ∧ i < s.file.size + pages * s.pageSize := ⟨by omega, hi⟩
      have hget : i - s.file.size < pages * s.pageSize := by omega
      simp [File.grow, writeAt, hlt, hin, hget, List.getD_eq_getElem?_getD]
  · exact ⟨(h.inside p b hp).1.trans_le hle, (h.inside p b hp).2⟩
  · have hpage := page_inside hpages (h.inside p b hp).1
    change j < s.pageSize at hj
    change b[j]? = some ((s.growFile pages).file.byte (p * s.pageSize + j))
    rw [hold _ (by omega)]
    exact h.bytes p b hp j hj (by omega)

theorem sound_setPageSize (s : PagedFile) {pageSize : Nat} (hpos : 0 < pageSize)
    (hle : pageSize ≤ cacheInMegabytes * 1024 * 1024) : (s.setPageSize pageSize).Sound := by
  refine ⟨hpos, Nat.div_pos hle hpos, ?_, ?_, ?_, ?_⟩
  all_goals simp [setPageSize]

end PagedFile

/-! ## Any sequence of calls -/

inductive PageAction where
  | read (offset size : UInt32)
  | write (offset : UInt32) (bytes : Bytes)
  | growFile (pages : UInt32)
  | setPageSize (pageSize : UInt32)
  deriving DecidableEq

def PagedFile.step (memory : Memory) (s : PagedFile) : PageAction → Option PagedFile
  | .read offset size =>
    (s.read memory offset.toNat size.toNat).map fun (bytes, s) => { s with reads := s.reads ++ [bytes] }
  | .write offset bytes => s.write memory offset.toNat bytes
  | .growFile pages => some (s.growFile pages.toNat)
  | .setPageSize pageSize => some (s.setPageSize pageSize.toNat)

/-- A file of which nothing is cached. -/
structure FlatFile where
  file : File
  pageSize : Nat := 4096
  reads : List Bytes := []

namespace FlatFile

def step (f : FlatFile) : PageAction → Option FlatFile
  | .read offset size =>
    (f.file.read offset.toNat size.toNat).map fun bytes => { f with reads := f.reads ++ [bytes] }
  | .write offset bytes => (f.file.write offset.toNat bytes).map fun file => { f with file := file }
  | .growFile pages => some { f with file := f.file.grow (pages.toNat * f.pageSize) uninitializedByte }
  | .setPageSize pageSize => some { f with pageSize := pageSize.toNat }

/-- An access lies inside the file, which has whole pages when it is written and grows. -/
def Allowed (f : FlatFile) : PageAction → Prop
  | .read offset size => offset.toNat + size.toNat ≤ f.file.size
  | .write offset bytes => offset.toNat + bytes.length ≤ f.file.size ∧ f.pageSize ∣ f.file.size
  | .growFile _ => f.pageSize ∣ f.file.size
  | .setPageSize pageSize => 0 < pageSize.toNat ∧ pageSize.toNat ≤ cacheInMegabytes * 1024 * 1024

/-- The offsets and sizes are `DWORD`s, and so is the end of an access, unless it is 2^32. -/
def InDword (f : FlatFile) : PageAction → Prop
  | .read offset size => offset.toNat + size.toNat ≤ 2 ^ 32
  | .write offset bytes => offset.toNat + bytes.length ≤ 2 ^ 32
  | .growFile pages => f.file.size < 2 ^ 32 ∧ pages.toNat * f.pageSize < 2 ^ 32
  | .setPageSize _ => True

instance (f : FlatFile) : ∀ a, Decidable (f.Allowed a)
  | .read _ _ => inferInstanceAs (Decidable (_ ≤ _))
  | .write _ _ => inferInstanceAs (Decidable (_ ∧ _))
  | .growFile _ => inferInstanceAs (Decidable (_ ∣ _))
  | .setPageSize _ => inferInstanceAs (Decidable (_ ∧ _))

instance (f : FlatFile) : ∀ a, Decidable (f.InDword a)
  | .read _ _ => inferInstanceAs (Decidable (_ ≤ _))
  | .write _ _ => inferInstanceAs (Decidable (_ ≤ _))
  | .growFile _ => inferInstanceAs (Decidable (_ ∧ _))
  | .setPageSize _ => isTrue trivial

end FlatFile

/-- Both read the same bytes, and the file under the cache is the array. -/
def Refines (memory : Memory) (file : File) (as : List PageAction) : Prop :=
  ∃ s f, run (PagedFile.step memory) { file := file } as = some s ∧
    run FlatFile.step { file := file } as = some f ∧ f.file.Same s.file ∧ s.reads = f.reads

structure Behind (f : FlatFile) (s : PagedFile) : Prop where
  sound : s.Sound
  file : f.file.Same s.file
  pageSize : s.pageSize = f.pageSize
  reads : s.reads = f.reads

theorem Behind.step (memory : Memory) {f : FlatFile} {s : PagedFile} (h : Behind f s) {a : PageAction}
    (ha : f.Allowed a ∧ f.InDword a) :
    ∃ s' f', s.step memory a = some s' ∧ f.step a = some f' ∧ Behind f' s' := by
  unfold PagedFile.step FlatFile.step
  cases a with
  | read offset size =>
    obtain ⟨hin, hdword⟩ := ha
    change _ ≤ f.file.size at hin
    obtain ⟨bytes, s', hread, hbytes, hsound, hsame⟩ :=
      h.sound.read memory (by rw [← h.file.size]; exact hin) hdword
    refine ⟨{ s' with reads := s'.reads ++ [bytes] }, { f with reads := f.reads ++ [bytes] }, by simp [hread], ?_, ?_⟩
    · change (f.file.read offset.toNat size.toNat).map _ = _
      rw [h.file.read, hbytes]
      rfl
    · refine ⟨⟨hsound.pageSize, hsound.room, hsound.listed, hsound.distinct, hsound.inside, hsound.bytes⟩, ?_, ?_, ?_⟩
      · exact hsame.file ▸ h.file
      · exact hsame.pageSize.trans h.pageSize
      · exact congrArg (· ++ [bytes]) (hsame.reads.trans h.reads)
  | write offset bytes =>
    obtain ⟨⟨hin, hpages⟩, hdword⟩ := ha
    obtain ⟨s', file, hwrite, hfile, hsame, hsound, hpageSize, hreads⟩ := h.sound.write memory
      (by rw [h.pageSize, ← h.file.size]; exact hpages) (by rw [← h.file.size]; exact hin) hdword
    obtain ⟨file', hfile', hsame'⟩ := h.file.symm.write hfile
    refine ⟨s', { f with file := file' }, hwrite, ?_, hsound, hsame'.symm.trans hsame, hpageSize.trans h.pageSize,
      hreads.trans h.reads⟩
    change (f.file.write offset.toNat bytes).map _ = _
    rw [hfile']
    rfl
  | growFile pages =>
    obtain ⟨hpages, hsize, hgrow⟩ := ha
    obtain ⟨hsame, hsound⟩ := h.sound.growFile pages.toNat
      (by rw [h.pageSize, ← h.file.size]; exact hpages) (by rw [← h.file.size]; exact hsize)
      (by rw [h.pageSize]; exact hgrow)
    refine ⟨_, _, rfl, rfl, hsound, ?_, h.pageSize, h.reads⟩
    rw [h.pageSize] at hsame
    exact (h.file.grow _ _).trans hsame
  | setPageSize pageSize =>
    obtain ⟨⟨hpos, hle⟩, -⟩ := ha
    exact ⟨_, _, rfl, rfl, PagedFile.sound_setPageSize s hpos hle, h.file, rfl, h.reads⟩

theorem behind_open (file : File) : Behind { file := file } { file := file } :=
  ⟨PagedFile.sound_setPageSize { file := file } (show 0 < 4096 by decide) (by decide), .refl file, rfl, rfl⟩

theorem Behind.run (memory : Memory) {f : FlatFile} {s : PagedFile} (h : Behind f s) {as : List PageAction}
    (has : Meets FlatFile.step (fun f a => f.Allowed a ∧ f.InDword a) f as) :
    ∃ s' f', run (PagedFile.step memory) s as = some s' ∧ run FlatFile.step f as = some f' ∧ Behind f' s' := by
  induction as generalizing f s with
  | nil => exact ⟨s, f, rfl, rfl, h⟩
  | cons a as ih =>
    obtain ⟨s₁, f₁, hs, hf, h₁⟩ := h.step memory has.1
    obtain ⟨s', f', hs', hf', h'⟩ := ih h₁ (has.2 f₁ hf)
    exact ⟨s', f', run_cons.mpr ⟨s₁, hs, hs'⟩, run_cons.mpr ⟨f₁, hf, hf'⟩, h'⟩

/-- Whatever is evicted, and whatever is in new buffers, the cache is not seen. -/
theorem pagedFile_refines (memory : Memory) (file : File) {as : List PageAction}
    (has : Meets FlatFile.step (fun f a => f.Allowed a ∧ f.InDword a) { file := file } as) :
    Refines memory file as := by
  obtain ⟨s, f, hs, hf, h⟩ := (behind_open file).run memory has
  exact ⟨s, f, hs, hf, h.file, h.reads⟩

/-- Pages of one byte: growth, a write over the evicted ones, and another page size. -/
theorem pagedFile_refines_small_pages : Refines (fun _ _ => 205) .empty
    [.setPageSize 3, .growFile 4, .write 2 [1, 2, 3, 4, 5], .setPageSize 1, .growFile 2, .write 6 [6], .read 1 13] :=
  pagedFile_refines (fun _ _ => 205) .empty (by decide +kernel)

/-- The size of a file of 2^32 bytes is 0 as a `DWORD`, and so it is not the end that grows. -/
theorem full_file_does_not_grow :
    ∃ file as, Meets FlatFile.step FlatFile.Allowed { file := file } as ∧ ∀ memory, ¬ Refines memory file as := by
  refine ⟨⟨2 ^ 32, fun _ => 0⟩, [.growFile 1], by decide +kernel, fun memory => ?_⟩
  rintro ⟨s, f, hs, hf, hsame, -⟩
  obtain rfl := Option.some.inj hs
  obtain rfl := Option.some.inj hf
  exact absurd hsame.size (by decide +kernel)

/-! ## The file of the database -/

/-- The space of the database on a cache with its page size. -/
structure Backed (s : Space) (paged : PagedFile) : Prop where
  sound : paged.Sound
  file : s.file.Same paged.file
  whole : pageSize ∣ s.file.size
  pageSize : paged.pageSize = Logdb.pageSize

variable (memory : Memory) {s s' : Space} {paged : PagedFile}

theorem Backed.read (h : Backed s paged) (hsize : s.file.size ≤ 2 ^ 32) {offset n : Nat} {bytes : Bytes}
    (hread : s.file.read offset n = some bytes) :
    ∃ paged', paged.read memory offset n = some (bytes, paged') ∧ Backed s paged' := by
  have hin := (File.read_eq_some.mp hread).1
  obtain ⟨bytes', paged', hread', hbytes, hsound, hsame⟩ :=
    h.sound.read memory (by rw [← h.file.size]; exact hin) (hin.trans hsize)
  obtain rfl : bytes = bytes' := Option.some.inj (hread.symm.trans ((h.file.read offset n).trans hbytes))
  exact ⟨paged', hread', hsound, hsame.file ▸ h.file, h.whole, hsame.pageSize.trans h.pageSize⟩

theorem Backed.write (h : Backed s paged) (hsize : s.file.size ≤ 2 ^ 32) {offset : Nat} {bytes : Bytes}
    (hwrite : s.write offset bytes = some s') :
    ∃ paged', paged.write memory offset bytes = some paged' ∧ Backed s' paged' := by
  obtain ⟨file, hfile, rfl⟩ := Option.map_eq_some_iff.mp hwrite
  obtain ⟨file', hfile', hsame⟩ := h.file.write hfile
  have hin : offset + bytes.length ≤ s.file.size := by
    by_contra hout
    simp [File.write, hout] at hfile
  obtain ⟨paged', file'', hpaged, hfile'', hsame', hsound, hpageSize, -⟩ := h.sound.write memory
    (by rw [h.pageSize, ← h.file.size]; exact h.whole) (by rw [← h.file.size]; exact hin) (hin.trans hsize)
  obtain rfl : file' = file'' := Option.some.inj (hfile'.symm.trans hfile'')
  refine ⟨paged', hpaged, hsound, hsame.trans hsame', ?_, hpageSize.trans h.pageSize⟩
  change Logdb.pageSize ∣ file.size
  rw [File.size_of_write hfile]
  exact h.whole

theorem Backed.growFile (h : Backed s paged) (hsize : s.file.size < 2 ^ 32) {pages : Nat}
    (hgrow : pages * Logdb.pageSize < 2 ^ 32) : Backed (s.growFile pages) (paged.growFile pages) := by
  obtain ⟨hsame, hsound⟩ := h.sound.growFile pages (by rw [h.pageSize, ← h.file.size]; exact h.whole)
    (by rw [← h.file.size]; exact hsize) (by rw [h.pageSize]; exact hgrow)
  rw [h.pageSize] at hsame
  exact ⟨hsound, (h.file.grow _ _).trans hsame, Nat.dvd_add h.whole (Nat.dvd_mul_left ..), h.pageSize⟩

end Tiodb.Logdb
