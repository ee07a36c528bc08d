import Tiodb.Lib.Pieces
import Tiodb.Server.TransactionLog

/-!
# The file of the log, read line by line

`LogMessage` writes one line for a data command, with the bytes of its strings as they
are; the loop of `tiologreplay.cpp` cuts the file at every line end.
-/

namespace Tiodb

open Lib

/-- A data command that is logged, with the time and the handle of its line. -/
structure Logged where
  time : LocalTime
  handle : UInt32
  cmd : DataCommand
  deriving DecidableEq, Repr

namespace Logged

variable (doubles : DoubleText)

def line (l : Logged) : Bytes := LogLine.data doubles l.time l.handle l.cmd

def file (ls : List Logged) : Bytes := ls.flatMap fun l => l.line doubles ++ [10]

/-- A line that is a carriage return is skipped. `none` is an exception, or a read past the end. -/
def readEntries (file : Bytes) : Option (List LogEntry) :=
  ((TioLogParser.lines file).filter (· ≠ [13])).mapM (LogEntry.ofLine doubles)

def entry (l : Logged) : LogEntry := ⟨l.cmd.code.logName, Int32.ofNat l.handle.toNat, l.cmd.key, l.cmd.value⟩

/-- A string that is no longer than a limit, without a line end. -/
def Within (limit : Nat) : TioData → Prop
  | .string s => 10 ∉ s ∧ s.length < limit
  | _ => True

/-- Whatever is behind a line end of the metadata are lines that the reader skips. -/
def Skipped : TioData → Prop
  | .string s => ∀ piece ∈ (s.splitOn 10).tail, piece = [13]
  | _ => True

instance (limit : Nat) : DecidablePred (Within limit)
  | .string s => inferInstanceAs (Decidable (10 ∉ s ∧ s.length < limit))
  | .none | .int _ | .double _ => isTrue trivial

instance : DecidablePred Skipped
  | .string s => inferInstanceAs (Decidable (∀ piece ∈ (s.splitOn 10).tail, piece = [13]))
  | .none | .int _ | .double _ => isTrue trivial

/-- The line can be read: its numbers are each an `int`, and so is the one after the key's size. -/
structure Readable (l : Logged) : Prop where
  handle : l.handle.toNat < 2 ^ 31
  key : Within (2 ^ 31 - 1) l.cmd.key
  value : Within (2 ^ 31) l.cmd.value
  metadata : Skipped l.cmd.metadata

/-- No key and no value with a fraction. -/
def Whole (l : Logged) : Prop := (∀ bits, l.cmd.key ≠ .double bits) ∧ ∀ bits, l.cmd.value ≠ .double bits

/-! ## The pieces of a line -/

def firstPiece (l : Logged) : Bytes := (l.line doubles).takeWhile (· ≠ 10)

def laterPieces (l : Logged) : List Bytes := ((l.line doubles).splitOn 10).tail.filter (· ≠ [13])

variable {doubles} {l : Logged} {ls : List Logged}

theorem lines_file (ls : List Logged) :
    TioLogParser.lines (file doubles ls) = ls.flatMap fun l => (l.line doubles).splitOn 10 := by
  have hsplit : (file doubles ls).splitOn 10 = (ls.flatMap fun l => (l.line doubles).splitOn 10) ++ [[]] := by
    induction ls with
    | nil => rfl
    | cons l ls ih =>
      have hfile : file doubles (l :: ls) = l.line doubles ++ 10 :: file doubles ls := by simp [file]
      rw [hfile, List.splitOn_append_cons_self, ih, List.flatMap_cons, List.append_assoc]
  rw [TioLogParser.lines, hsplit, List.getLast?_concat, if_pos rfl, List.dropLast_concat]

theorem line_eq (l : Logged) :
    l.line doubles = LogLine.fields doubles l.time.text l.cmd.code.logName l.handle.toNat l.cmd.key l.cmd.value ++
      LogLine.serializeTioData doubles l.cmd.metadata := LogLine.data_eq doubles _ _ _

theorem comma_mem_firstPiece (doubles : DoubleText) (l : Logged) : 44 ∈ l.firstPiece doubles := by
  have htime := LogLine.time_not_mem (c := 10) (by decide) (by decide) l.time
  have hline : ∃ rest, l.line doubles = l.time.text ++ 44 :: rest := ⟨_, by
    rw [line_eq, LogLine.fields]
    simp only [List.append_assoc, List.cons_append]
    rfl⟩
  obtain ⟨rest, hrest⟩ := hline
  rw [firstPiece, hrest, List.takeWhile_append_of_pos fun c hc => by
    simpa using fun h : c = 10 => htime (h ▸ hc)]
  simp

theorem filter_lines (ls : List Logged) :
    (TioLogParser.lines (file doubles ls)).filter (· ≠ [13]) =
      ls.flatMap fun l => l.firstPiece doubles :: l.laterPieces doubles := by
  rw [lines_file, List.filter_flatMap]
  refine List.flatMap_congr fun l _ => ?_
  have hfirst : l.firstPiece doubles ≠ [13] := fun h => by
    have hcomma := comma_mem_firstPiece doubles l
    rw [h] at hcomma
    simp at hcomma
  rw [splitOn_eq_cons, List.filter_cons_of_pos (by simpa [firstPiece] using hfirst)]
  rfl

theorem not_mem_before_comma {x y : Bytes} (h : l.laterPieces doubles = []) (hline : l.line doubles = x ++ y)
    (hy : 44 ∈ y) : 10 ∉ x := by
  intro hx
  obtain ⟨piece, hpiece, hcomma⟩ := exists_mem_later_piece (show (44 : UInt8) ≠ 10 by decide) hx hy
  have hskipped := List.filter_eq_nil_iff.mp h piece (by rwa [hline])
  obtain rfl : piece = [13] := by simpa using hskipped
  simp at hcomma

theorem comma_mem_serialize (d : TioData) : 44 ∈ LogLine.serializeTioData doubles d := by
  simp [LogLine.serializeTioData_eq]

theorem key_no_newline (h : l.laterPieces doubles = []) : 10 ∉ LogLine.serializeTioData doubles l.cmd.key := by
  have hline : l.line doubles = (l.time.text ++ 44 :: l.cmd.code.logName ++ 44 :: digits l.handle.toNat ++
      LogLine.serializeTioData doubles l.cmd.key) ++ (LogLine.serializeTioData doubles l.cmd.value ++
        LogLine.serializeTioData doubles l.cmd.metadata) := by
    rw [line_eq, LogLine.fields, List.append_assoc]
  have hcomma : 44 ∈ LogLine.serializeTioData doubles l.cmd.value ++ LogLine.serializeTioData doubles l.cmd.metadata :=
    List.mem_append_left _ (comma_mem_serialize _)
  exact fun hmem => not_mem_before_comma h hline hcomma (List.mem_append_right _ hmem)

theorem fields_no_newline (h : l.laterPieces doubles = []) :
    10 ∉ LogLine.fields doubles l.time.text l.cmd.code.logName l.handle.toNat l.cmd.key l.cmd.value :=
  not_mem_before_comma h (line_eq l) (comma_mem_serialize _)

theorem within_of_body {d : TioData} {limit : Nat} (hline : 10 ∉ LogLine.serializeTioData doubles d)
    (hlength : (LogLine.body doubles d).length < limit) : Within limit d := by
  match d with
  | .none => trivial
  | .int _ => trivial
  | .double _ => trivial
  | .string s =>
    refine ⟨fun hmem => hline ?_, hlength⟩
    simp [LogLine.serializeTioData, hmem]

theorem serialize_no_newline (doubles : DoubleText) {d : TioData} {limit : Nat} (hd : ∀ bits, d ≠ .double bits)
    (h : Within limit d) :
    10 ∉ LogLine.serializeTioData doubles d := by
  match d with
  | .none => exact LogLine.line_end_not_mem_serialize doubles trivial
  | .int _ => exact LogLine.line_end_not_mem_serialize doubles trivial
  | .double bits => exact absurd rfl (hd bits)
  | .string s => exact LogLine.line_end_not_mem_serialize doubles h.1

theorem length_body_lt {d : TioData} {limit : Nat} (hd : ∀ bits, d ≠ .double bits) (hlimit : 2 ^ 31 - 1 ≤ limit)
    (h : Within limit d) : (LogLine.body doubles d).length < limit := by
  match d with
  | .none => exact lt_of_lt_of_le (Nat.zero_lt_succ _) hlimit
  | .int i => exact lt_of_lt_of_le (LogLine.length_intDigits i) hlimit
  | .double bits => exact absurd rfl (hd bits)
  | .string s => exact h.2

/-! ## The metadata -/

theorem metadata_pieces (hdoubles : ∀ bits, 10 ∉ doubles.text bits) (d : TioData) :
    (((LogLine.serializeTioData doubles d).splitOn 10).tail.filter (· ≠ [13]) = [] ↔ Skipped d) ∧
      3 ≤ ((LogLine.serializeTioData doubles d).takeWhile (· ≠ 10)).length := by
  have hlength := LogLine.length_serialize doubles d
  -- without a line end there is one piece
  have hwhole (h : 10 ∉ LogLine.serializeTioData doubles d) :
      ((LogLine.serializeTioData doubles d).splitOn 10).tail.filter (· ≠ [13]) = [] ∧
        3 ≤ ((LogLine.serializeTioData doubles d).takeWhile (· ≠ 10)).length := by
    have htake : (LogLine.serializeTioData doubles d).takeWhile (· ≠ 10) = LogLine.serializeTioData doubles d :=
      List.takeWhile_eq_self_iff.mpr fun c hc => by simpa using fun h10 : c = 10 => h (h10 ▸ hc)
    rw [List.splitOn_eq_singleton h, htake]
    exact ⟨rfl, hlength⟩
  cases d with
  | none =>
    obtain ⟨hnone, hlong⟩ := hwhole (LogLine.line_end_not_mem_serialize doubles trivial)
    exact ⟨iff_of_true hnone trivial, hlong⟩
  | int i =>
    obtain ⟨hnone, hlong⟩ := hwhole (LogLine.line_end_not_mem_serialize doubles trivial)
    exact ⟨iff_of_true hnone trivial, hlong⟩
  | double bits =>
    have hline : 10 ∉ LogLine.serializeTioData doubles (.double bits) := by
      simp [LogLine.serializeTioData, ascii, LogLine.line_end_not_mem_digits, hdoubles bits]
    obtain ⟨hnone, hlong⟩ := hwhole hline
    exact ⟨iff_of_true hnone trivial, hlong⟩
  | string s =>
    have hhead : 10 ∉ ascii ",s" ++ digits s.length ++ ascii "," := by
      simp [ascii, LogLine.line_end_not_mem_digits]
    rw [LogLine.serializeTioData, tail_splitOn_append hhead, List.filter_eq_nil_iff]
    constructor
    · simp [Skipped]
    · rw [List.takeWhile_append_of_pos fun c hc => by simpa using fun h : c = 10 => hhead (h ▸ hc)]
      simp [ascii]
      omega

/-! ## A line that is read -/

/-- A line gives its one entry exactly if it can be read. -/
theorem pieces_iff (hdoubles : ∀ bits, 10 ∉ doubles.text bits) (hwhole : l.Whole) :
    l.laterPieces doubles = [] ∧ LogEntry.ofLine doubles (l.firstPiece doubles) = some l.entry ↔ l.Readable := by
  obtain ⟨hskipped, hlong⟩ := metadata_pieces hdoubles l.cmd.metadata
  have htime : 44 ∉ l.time.text := LogLine.time_not_mem (by decide) (by decide) l.time
  have hname := (LogLine.logName_not_mem l.cmd.code).1
  -- where the fields are on one line, the rest is about the metadata
  have hfields (h : 10 ∉ LogLine.fields doubles l.time.text l.cmd.code.logName l.handle.toNat l.cmd.key l.cmd.value) :
      (l.laterPieces doubles = [] ↔ Skipped l.cmd.metadata) ∧ ∃ rest, LogEntry.ofLine doubles (l.firstPiece doubles) =
        LogEntry.parse doubles
          (LogLine.fields doubles l.time.text l.cmd.code.logName l.handle.toNat l.cmd.key l.cmd.value ++ rest) := by
    refine ⟨?_, ?_⟩
    · rw [laterPieces, line_eq, tail_splitOn_append h, hskipped]
    · rw [LogEntry.ofLine, firstPiece, line_eq, List.takeWhile_append_of_pos fun c hc => by
        simpa using fun h10 : c = 10 => h (h10 ▸ hc)]
      unfold LogEntry.trim
      split_ifs
      · rw [List.length_append, Nat.add_sub_assoc hlong, List.take_length_add_append]
        exact ⟨_, rfl⟩
      · exact ⟨_, rfl⟩
  constructor
  · rintro ⟨hlater, hentry⟩
    have hline := fields_no_newline hlater
    obtain ⟨hmetadata, rest, hparse⟩ := hfields hline
    rw [hparse] at hentry
    obtain ⟨hhandle, hkey, hvalue⟩ := LogLine.parse_fields_fits doubles htime hname hwhole.1 hentry
    rw [LogLine.fields, List.mem_append, not_or] at hline
    exact ⟨hhandle, within_of_body (key_no_newline hlater) hkey, within_of_body hline.2 hvalue, hmetadata.mp hlater⟩
  · rintro ⟨hhandle, hkey, hvalue, hmetadata⟩
    have hline : 10 ∉ LogLine.fields doubles l.time.text l.cmd.code.logName l.handle.toNat l.cmd.key l.cmd.value := by
      have htimeLine : 10 ∉ l.time.text := LogLine.time_not_mem (by decide) (by decide) l.time
      have hnameLine := (LogLine.logName_not_mem l.cmd.code).2
      have hdigits := LogLine.line_end_not_mem_digits l.handle.toNat
      have hk := serialize_no_newline doubles hwhole.1 hkey
      have hv := serialize_no_newline doubles hwhole.2 hvalue
      simp_all [LogLine.fields]
    obtain ⟨hlater, rest, hparse⟩ := hfields hline
    refine ⟨hlater.mpr hmetadata, hparse.trans ?_⟩
    exact LogLine.parse_fields doubles htime hname hhandle ⟨hwhole.1, length_body_lt hwhole.1 (le_refl _) hkey⟩
      ⟨hwhole.2, length_body_lt hwhole.2 (by omega) hvalue⟩ rest

/-- The file gives each command back exactly if every line can be read. -/
theorem readEntries_iff (hdoubles : ∀ bits, 10 ∉ doubles.text bits) {ls : List Logged} (hwhole : ∀ l ∈ ls, l.Whole) :
    readEntries doubles (file doubles ls) = some (ls.map entry) ↔ ∀ l ∈ ls, l.Readable := by
  rw [readEntries, filter_lines, mapM_flatMap_cons]
  exact forall₂_congr fun l hl => pieces_iff hdoubles (hwhole l hl)

/-- Commas, and a text that looks like an absent datum, are no harm. -/
theorem readEntries_commas :
    let commas := Logged.mk ⟨2024, 1, 31, 12, 0, 0, 5⟩ 3 ⟨.set, .string (ascii ",n,"), .string (ascii "a,,b,n,"), .none⟩
    let push := Logged.mk ⟨2024, 1, 31, 12, 0, 0, 6⟩ 4 ⟨.pushBack, .none, .int (-5), .string (ascii ",n,")⟩
    readEntries ⟨fun _ => [], fun _ => none⟩ (file ⟨fun _ => [], fun _ => none⟩ [commas, push]) =
      some ([commas, push].map entry) := by
  intro commas push
  refine (readEntries_iff (by simp) ?_).mpr ?_
  · simp [commas, push, Whole]
  · simp only [List.forall_mem_cons, List.not_mem_nil, false_imp_iff, implies_true, and_true]
    exact ⟨⟨by decide, by decide, by decide, trivial⟩, ⟨by decide, trivial, trivial, by decide +kernel⟩⟩

/-- The value `a\nb` makes a line that has less than its size, and one that is no entry. -/
theorem newline_cuts_the_value :
    let l := Logged.mk ⟨2024, 1, 31, 12, 0, 0, 5⟩ 3 ⟨.set, .string (ascii "k"), .string (ascii "a\nb"), .none⟩
    (TioLogParser.lines (file ⟨fun _ => [], fun _ => none⟩ [l])).length = 2 ∧
      readEntries ⟨fun _ => [], fun _ => none⟩ (file ⟨fun _ => [], fun _ => none⟩ [l]) ≠ some [l.entry] := by
  decide +kernel

end Logged

end Tiodb
