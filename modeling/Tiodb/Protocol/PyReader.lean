import Mathlib.Data.List.DropRight
import Tiodb.Lib.Calling
import Tiodb.Lib.Utf8
import Tiodb.Protocol.Answer
import Tiodb.Storage.Slices

/-!
# What the Python client receives

`__ReceiveLine`, `__ReceiveData` and `ReceiveDataAnswer` of `tioclient.py`, without a
timeout. The lines and the data come out of the receive buffer, which `recv` fills with
whatever chunks there are. Each chunk is decoded alone, and a size, which the server
counts in bytes, is counted in characters. A `str` is its UTF-8 here.
-/

namespace Tiodb

open Lib

namespace Text

inductive PyData where
  | none
  | int (i : Int)
  | decimal (d : Rat)
  | str (s : Bytes)
  deriving DecidableEq

/-- The tuple that `ReceiveDataAnswer` makes of its dictionary. -/
structure PyFields where
  key : PyData := .none
  value : PyData := .none
  metadata : PyData := .none
  deriving DecidableEq

def PyFields.set (f : PyFields) (name : Bytes) (data : PyData) : PyFields :=
  if name = ascii "key" then { f with key := data }
  else if name = ascii "value" then { f with value := data }
  else if name = ascii "metadata" then { f with metadata := data }
  else f

/-- `int(s)`, of the digits that the server writes. -/
def pyInt (b : Bytes) : Option Int :=
  let (negative, ds) := takeSign ((b.dropWhile isSpace).rdropWhile isSpace)
  (decimal ds).map fun n => if negative then -n else n

/-- `toDecimal` is `Decimal(s)`. -/
def pyValue (toDecimal : Bytes → Option Rat) (type dataBuffer : Bytes) : Option PyData :=
  if type = ascii "int" then (pyInt dataBuffer).map .int
  else if type = ascii "double" then (toDecimal dataBuffer).map .decimal
  else if type = ascii "string" then some (.str dataBuffer)
  else none

/-- The value that a datum is in Python. A number with a fraction is read from its text there. -/
def PyData.of : TioData → PyData
  | .int i => .int i.toInt
  | .string s => .str s
  | _ => .none

theorem strip_digits (n : Nat) : (digits n).rdropWhile isSpace = digits n := by
  rw [List.rdropWhile_eq_self_iff]
  intro hne hspace
  have hdigit := isDigit_of_mem_digits ((digits n).getLast_mem hne)
  rw [isDigit_of_isSpace hspace] at hdigit
  cases hdigit

theorem pyInt_digits (n : Nat) : pyInt (digits n) = some (n : Int) := by
  unfold pyInt
  rw [dropWhile_digits, strip_digits, takeSign_digits]
  simp [decimal_digits]

theorem pyInt_intDigits (i : Int32) : pyInt (intDigits i.toInt) = some i.toInt := by
  by_cases hneg : i.toInt < 0
  · have hv : -(i.toInt.natAbs : Int) = i.toInt := by omega
    have hstrip : (45 :: digits i.toInt.natAbs).rdropWhile isSpace = 45 :: digits i.toInt.natAbs := by
      rw [List.rdropWhile_eq_self_iff]
      intro hne hspace
      rw [List.getLast_cons (digits_ne_nil _)] at hspace
      have hdigit := isDigit_of_mem_digits ((digits i.toInt.natAbs).getLast_mem (digits_ne_nil _))
      rw [isDigit_of_isSpace hspace] at hdigit
      cases hdigit
    unfold pyInt
    rw [intDigits, if_pos hneg, dropWhile_isSpace (.inr rfl), hstrip, takeSign]
    simpa [decimal_digits] using hv
  · rw [intDigits, if_neg hneg, pyInt_digits]
    exact congrArg some (by omega)

theorem pySlice_take {α : Type} (l : List α) (n : Nat) : pySlice l 0 (some n) = l.take n := by
  have hneg : ¬(n : Int) < 0 := by omega
  simp [pySlice, pyBound, hneg]

theorem pySlice_drop {α : Type} (l : List α) (n : Nat) : pySlice l n none = l.drop n := by
  have hneg : ¬(n : Int) < 0 := by omega
  simp only [pySlice, pyBound, hneg, if_false, Int.toNat_natCast, Option.map_none, Option.getD_none]
  rw [List.take_of_length_le (by simp)]
  rcases le_total n l.length with h | h
  · rw [min_eq_left h]
  · rw [min_eq_right h, List.drop_length, List.drop_of_length_le h]

theorem pySlice_lineEnd (text : Bytes) : pySlice (text ++ lineEnd) 0 (some (-2)) = text := by
  have hlast : pyBound (-2) (text ++ lineEnd).length = text.length := by
    simp [pyBound, lineEnd]
  unfold pySlice
  rw [Option.map_some, hlast]
  simp [pyBound]

theorem splitLine_eq_some_append {text line rest : Bytes} (h : splitLine text = some (line, rest)) (more : Bytes) :
    splitLine (text ++ more) = some (line, rest ++ more) := by
  induction text generalizing line with
  | nil => cases h
  | cons c text ih =>
    by_cases hend : c = 13 ∧ ∃ tail, text = 10 :: tail
    · obtain ⟨rfl, tail, rfl⟩ := hend
      obtain ⟨rfl, rfl⟩ := Prod.mk.inj (Option.some.inj h)
      rfl
    · have hstep (t : Bytes) (ht : ¬ (c = 13 ∧ ∃ tail, t = 10 :: tail)) :
          splitLine (c :: t) = (splitLine t).map fun p => (c :: p.1, p.2) := by
        rw [splitLine]
        rintro tail rfl rfl
        exact ht ⟨rfl, tail, rfl⟩
      rw [hstep text hend] at h
      obtain ⟨⟨line', rest'⟩, hrest, heq⟩ := Option.map_eq_some_iff.mp h
      obtain ⟨rfl, rfl⟩ := Prod.mk.inj heq
      have hmore : ¬ (c = 13 ∧ ∃ tail, text ++ more = 10 :: tail) := by
        rintro ⟨rfl, tail, htail⟩
        cases text with
        | nil => cases hrest
        | cons d text =>
          obtain ⟨rfl, -⟩ := List.cons.inj htail
          exact hend ⟨rfl, text, rfl⟩
      rw [List.cons_append, hstep _ hmore, ih hrest]
      rfl

end Text

namespace Python

open Text

/-! ## The receive buffer -/

/-- `s[start:stop]` of a `str`. -/
def strSlice (s : Bytes) (start : Int) (stop : Option Int) : Bytes := (pySlice (characters s) start stop).flatten

inductive StreamCall where
  | receiveLine
  | receiveData (size : Int)

abbrev StreamCall.Answer (_ : StreamCall) : Type := Bytes

/-- The text in the buffer, and the chunks that `recv` will give. -/
structure Wire where
  receiveBuffer : Bytes := []
  chunks : List Bytes
  deriving DecidableEq

def Wire.text (w : Wire) : Bytes := w.receiveBuffer ++ w.chunks.flatten

/-- `decode` -/
def decodeChunk (chunk : Bytes) : Option Bytes := if IsUtf8 chunk then some chunk else none

/-- `__ReceiveLine`. `none` is a wait that does not end, or an exception of `recv` or of `decode`. -/
def receiveLine : List Bytes → Bytes → Option (Bytes × Wire)
  | [], receiveBuffer => (splitLine receiveBuffer).map fun (ret, rest) => (ret, ⟨rest, []⟩)
  | chunk :: chunks, receiveBuffer =>
    match splitLine receiveBuffer with
    | some (ret, rest) => some (ret, ⟨rest, chunk :: chunks⟩)
    | none =>
      (decodeChunk chunk).bind fun received =>
        if receiveBuffer ++ received = [] then none else receiveLine chunks (receiveBuffer ++ received)

/-- `__ReceiveData` -/
def receiveData (size : Int) : List Bytes → Bytes → Option (Bytes × Wire)
  | [], receiveBuffer =>
    if (characters receiveBuffer).length < size then none
    else some (strSlice receiveBuffer 0 (some size), ⟨strSlice receiveBuffer size none, []⟩)
  | chunk :: chunks, receiveBuffer =>
    if (characters receiveBuffer).length < size then
      (decodeChunk chunk).bind fun received => receiveData size chunks (receiveBuffer ++ received)
    else some (strSlice receiveBuffer 0 (some size), ⟨strSlice receiveBuffer size none, chunk :: chunks⟩)

def wireServer : Responder StreamCall.Answer Wire
  | .receiveLine, w => receiveLine w.chunks w.receiveBuffer
  | .receiveData size, w => receiveData size w.chunks w.receiveBuffer

/-- All the text at once, with a byte for each character. -/
def textServer : Responder StreamCall.Answer Bytes
  | .receiveLine, text => splitLine text
  | .receiveData size, text =>
    if 0 ≤ size ∧ size ≤ text.length then some (pySlice text 0 (some size), pySlice text size none) else none

/-! ## Data -/

/-- `ofCommand` is the exception that `SendCommand` makes of another one. -/
inductive PyError where
  | exception (text : Bytes)
  | index
  | key
  | value
  | ofCommand (e : PyError) (buffer : Bytes)
  deriving DecidableEq

abbrev PyM := Calling StreamCall.Answer

section Receive

variable (doubles : UInt64 → Bytes) (toDecimal : Bytes → Option Rat)

/-- `ReceiveDataAnswer`, for the words that are left. -/
def receiveDataAnswer : List Bytes → PyFields → PyM (Except PyError PyFields)
  | [], fields => pure (.ok fields)
  | name :: type :: size :: params, fields =>
    match pyInt size with
    | none => pure (.error .value)
    | some size => do
      let received ← Calling.ask (StreamCall.receiveData (size + 2))
      match pyValue toDecimal type (strSlice received 0 (some (-2))) with
      | some value => receiveDataAnswer params (fields.set name value)
      | none =>
        if type = ascii "int" ∨ type = ascii "double" then pure (.error .value)
        else pure (.error (.exception (ascii "unsupported data type: " ++ type)))
  | _, _ => pure (.error .index)

/-- The data after the first three words of a line. -/
def receiveMessage : PyM (Except PyError PyFields) := do
  let line ← Calling.ask StreamCall.receiveLine
  receiveDataAnswer toDecimal ((line.splitOn 32).drop 3) {}

/-- What `ReceiveDataAnswer` returns on a message that comes in these chunks. -/
def pyDecode (chunks : List Bytes) : Option PyFields :=
  match (receiveMessage toDecimal).run wireServer ⟨[], chunks⟩ with
  | some (.ok fields, _) => some fields
  | _ => none

def datum (d : TioData) : PyData := (pyValue toDecimal (dataTypeAsString d) (dataText doubles d)).getD .none

/-- Python reads the text of the datum, which is ASCII: any text of a number with a fraction that `Decimal` takes. -/
def ReadsDatum (d : TioData) : Prop :=
  (∀ c ∈ dataText doubles d, c < 128) ∧ (pyValue toDecimal (dataTypeAsString d) (dataText doubles d)).isSome

instance (d : TioData) : Decidable (ReadsDatum doubles toDecimal d) := inferInstanceAs (Decidable (_ ∧ _ = true))

end Receive

variable {doubles : UInt64 → Bytes} {toDecimal : Bytes → Option Rat}

theorem strSlice_of_ascii {s : Bytes} (h : ∀ c ∈ s, c < 128) (start : Int) (stop : Option Int) :
    strSlice s start stop = pySlice s start stop := by
  have hflat (l : Bytes) : (l.map ([·])).flatten = l := List.flatMap_singleton' l
  unfold strSlice pySlice
  rw [characters_of_ascii h, List.length_map]
  dsimp only
  rw [← List.map_drop, ← List.map_take, hflat]

theorem run_receiveDataAnswer {fields : List (Bytes × TioData)}
    (h : ∀ field ∈ fields, ReadsDatum doubles toDecimal field.2) (f : PyFields) (rest : Bytes) :
    (receiveDataAnswer toDecimal (fields.flatMap (fieldWords doubles)) f).run textServer
        (fields.flatMap (fieldBytes doubles) ++ rest) =
      some (.ok (fields.foldl (fun f field => f.set field.1 (datum doubles toDecimal field.2)) f), rest) := by
  induction fields generalizing f with
  | nil => rfl
  | cons field fields ih =>
    obtain ⟨hascii, hsome⟩ := h field List.mem_cons_self
    obtain ⟨v, hv⟩ := Option.isSome_iff_exists.mp hsome
    have hdatum : datum doubles toDecimal field.2 = v := by rw [datum, hv]; rfl
    have hrest := ih (fun g hg => h g (List.mem_cons_of_mem _ hg)) (f.set field.1 v)
    have htext : (field :: fields).flatMap (fieldBytes doubles) ++ rest =
        (dataText doubles field.2 ++ lineEnd) ++ (fields.flatMap (fieldBytes doubles) ++ rest) := by
      rw [List.flatMap_cons, List.append_assoc]
      rfl
    have hsize : (dataText doubles field.2 ++ lineEnd).length = (dataText doubles field.2).length + 2 :=
      List.length_append
    have hserved : textServer (.receiveData ((dataText doubles field.2).length + 2 : Nat))
        ((dataText doubles field.2 ++ lineEnd) ++ (fields.flatMap (fieldBytes doubles) ++ rest)) =
          some (dataText doubles field.2 ++ lineEnd, fields.flatMap (fieldBytes doubles) ++ rest) := by
      rw [textServer, pySlice_take, pySlice_drop, if_pos ⟨by omega, by rw [List.length_append, hsize]; omega⟩, ← hsize,
        List.take_left, List.drop_left]
    rw [List.foldl_cons, hdatum, htext]
    change (receiveDataAnswer toDecimal (field.1 :: dataTypeAsString field.2 ::
      digits (dataText doubles field.2).length :: fields.flatMap (fieldWords doubles)) f).run _ _ = _
    rw [receiveDataAnswer, pyInt_digits]
    refine (Calling.run_bind_of ((Calling.run_ask _ _).trans hserved) _).trans ?_
    rw [strSlice_of_ascii (ascii_append_lineEnd hascii), pySlice_lineEnd, hv]
    exact hrest

theorem foldl_set_namedData (sends : TioData → Bool) (datum : TioData → PyData) (f : Fields) :
    ((namedData f.key f.value f.metadata).filter fun field => sends field.2).foldl
        (fun (p : PyFields) field => p.set field.1 (datum field.2)) {} =
      ⟨if sends f.key then datum f.key else .none, if sends f.value then datum f.value else .none,
        if sends f.metadata then datum f.metadata else .none⟩ := by
  cases hk : sends f.key <;> cases hv : sends f.value <;> cases hm : sends f.metadata <;>
    simp [namedData, List.filter, hk, hv, hm, PyFields.set, ascii]

/-! ## The chunks do not matter -/

/-- The text is in the buffer and in the chunks. -/
structure Wire.Brings (content : Bytes) (w : Wire) : Prop where
  text : w.text = content
  ascii : ∀ c ∈ content, c < 128
  filled : ∀ chunk ∈ w.chunks, chunk ≠ []

section Chunks

variable {chunks : List Bytes} {buffer rest : Bytes}

theorem decodeChunk_of_ascii {chunk : Bytes} (h : ∀ c ∈ chunk, c < 128) : decodeChunk chunk = some chunk :=
  if_pos (IsUtf8.of_ascii h)

theorem receiveLine_brings {line : Bytes} (hascii : ∀ c ∈ buffer ++ chunks.flatten, c < 128)
    (hfilled : ∀ chunk ∈ chunks, chunk ≠ []) (h : splitLine (buffer ++ chunks.flatten) = some (line, rest)) :
    ∃ w, receiveLine chunks buffer = some (line, w) ∧ w.text = rest ∧ ∀ chunk ∈ w.chunks, chunk ≠ [] := by
  induction chunks generalizing buffer with
  | nil =>
    rw [List.flatten_nil, List.append_nil] at h
    exact ⟨⟨rest, []⟩, by rw [receiveLine, h]; rfl, by simp [Wire.text], by simp⟩
  | cons chunk chunks ih =>
    have hchunk : ∀ c ∈ chunk, c < 128 := fun c hc => hascii c (by simp [hc])
    unfold receiveLine
    cases hbuffer : splitLine buffer with
    | some found =>
      obtain ⟨line', rest'⟩ := found
      rw [splitLine_eq_some_append hbuffer] at h
      obtain ⟨rfl, rfl⟩ := Prod.mk.inj (Option.some.inj h)
      exact ⟨⟨rest', chunk :: chunks⟩, rfl, rfl, hfilled⟩
    | none =>
      have hne : buffer ++ chunk ≠ [] := fun h => hfilled chunk (by simp) (List.append_eq_nil_iff.mp h).2
      dsimp only
      rw [decodeChunk_of_ascii hchunk, Option.bind_some, if_neg hne]
      rw [List.flatten_cons, ← List.append_assoc] at hascii h
      exact ih hascii (fun c hc => hfilled c (by simp [hc])) h

theorem receiveData_brings {size : Nat} (hascii : ∀ c ∈ buffer ++ chunks.flatten, c < 128)
    (hfilled : ∀ chunk ∈ chunks, chunk ≠ []) (h : size ≤ (buffer ++ chunks.flatten).length) :
    ∃ w, receiveData size chunks buffer = some ((buffer ++ chunks.flatten).take size, w) ∧
      w.text = (buffer ++ chunks.flatten).drop size ∧ ∀ chunk ∈ w.chunks, chunk ≠ [] := by
  induction chunks generalizing buffer with
  | nil =>
    rw [List.flatten_nil, List.append_nil] at h hascii ⊢
    unfold receiveData
    rw [characters_of_ascii hascii, List.length_map, if_neg (by omega), strSlice_of_ascii hascii,
      strSlice_of_ascii hascii, pySlice_take, pySlice_drop]
    exact ⟨_, rfl, by simp [Wire.text], by simp⟩
  | cons chunk chunks ih =>
    have hbuffer : ∀ c ∈ buffer, c < 128 := fun c hc => hascii c (by simp [hc])
    have hchunk : ∀ c ∈ chunk, c < 128 := fun c hc => hascii c (by simp [hc])
    unfold receiveData
    rw [characters_of_ascii hbuffer, List.length_map]
    by_cases hshort : (buffer.length : Int) < size
    · rw [if_pos hshort, decodeChunk_of_ascii hchunk, Option.bind_some]
      rw [List.flatten_cons, ← List.append_assoc] at hascii h ⊢
      exact ih hascii (fun c hc => hfilled c (by simp [hc])) h
    · have hle : size ≤ buffer.length := by omega
      rw [if_neg hshort, strSlice_of_ascii hbuffer, strSlice_of_ascii hbuffer, pySlice_take, pySlice_drop,
        List.take_append_of_le_length hle, List.drop_append_of_le_length hle]
      exact ⟨_, rfl, rfl, hfilled⟩

theorem mem_of_splitLine {text line : Bytes} (h : splitLine text = some (line, rest)) : ∀ c ∈ rest, c ∈ text := by
  fun_induction splitLine text generalizing line with
  | case1 tail =>
    obtain ⟨rfl, rfl⟩ := Prod.mk.inj (Option.some.inj h)
    exact fun c hc => List.mem_cons_of_mem _ (List.mem_cons_of_mem _ hc)
  | case2 c text _ ih =>
    obtain ⟨⟨line', rest'⟩, hrest, heq⟩ := Option.map_eq_some_iff.mp h
    obtain ⟨rfl, rfl⟩ := Prod.mk.inj heq
    exact fun d hd => List.mem_cons_of_mem _ (ih hrest d hd)
  | case3 => cases h

/-- Whatever the chunks are, ASCII is read as the text that they are cut from. -/
theorem brings_follows : Calling.Follows Wire.Brings textServer wireServer := by
  rintro c text ⟨buffer, chunks⟩ r rest ⟨rfl, hascii, hfilled⟩ h
  cases c with
  | receiveLine =>
    obtain ⟨w, hw, htext, hfilled'⟩ := receiveLine_brings hascii hfilled h
    exact ⟨w, hw, htext, fun c hc => hascii c (mem_of_splitLine h c hc), hfilled'⟩
  | receiveData size =>
    obtain ⟨⟨hnonneg, hle⟩, h⟩ := Option.ite_none_right_eq_some.mp h
    obtain ⟨size, rfl⟩ := Int.eq_ofNat_of_zero_le hnonneg
    rw [pySlice_take, pySlice_drop] at h
    obtain ⟨rfl, rfl⟩ := Prod.mk.inj (Option.some.inj h)
    obtain ⟨w, hw, htext, hfilled'⟩ := receiveData_brings hascii hfilled (by exact_mod_cast hle)
    exact ⟨w, hw, htext, fun c hc => hascii c (List.mem_of_mem_drop hc), hfilled'⟩

end Chunks

/-! ## What is read has as many characters -/

/-- What is taken from the chunks is decoded. -/
def Took (chunks chunks' : List Bytes) : Prop := ∃ used, chunks = used ++ chunks' ∧ ∀ chunk ∈ used, IsUtf8 chunk

theorem Took.refl (chunks : List Bytes) : Took chunks chunks := ⟨[], rfl, by simp⟩

theorem Took.cons {chunk : Bytes} {chunks chunks' : List Bytes} (h : IsUtf8 chunk) (htook : Took chunks chunks') :
    Took (chunk :: chunks) chunks' := by
  obtain ⟨used, rfl, hused⟩ := htook
  exact ⟨chunk :: used, rfl, List.forall_mem_cons.mpr ⟨h, hused⟩⟩

theorem Took.trans {chunks chunks' chunks'' : List Bytes} (h : Took chunks chunks') (h' : Took chunks' chunks'') :
    Took chunks chunks'' := by
  obtain ⟨used, rfl, hused⟩ := h
  obtain ⟨used', rfl, hused'⟩ := h'
  exact ⟨used ++ used', (List.append_assoc ..).symm, List.forall_mem_append.mpr ⟨hused, hused'⟩⟩

theorem decodeChunk_eq_some {chunk received : Bytes} (h : decodeChunk chunk = some received) :
    received = chunk ∧ IsUtf8 chunk := by
  obtain ⟨hutf8, heq⟩ := Option.ite_none_right_eq_some.mp h
  exact ⟨(Option.some.inj heq).symm, hutf8⟩

theorem starts_strSlice {s : Bytes} {size : Nat} (h : size ≤ (characters s).length) :
    starts (strSlice s size none) + size = starts s := by
  rw [strSlice, pySlice_drop, starts_flatten fun g hg => starts_of_mem_characters (List.mem_of_mem_drop hg),
    List.length_drop, Nat.sub_add_cancel h, length_characters]

theorem receiveLine_took {chunks : List Bytes} {buffer line : Bytes} {w : Wire}
    (h : receiveLine chunks buffer = some (line, w)) :
    splitLine (buffer ++ chunks.flatten) = some (line, w.text) ∧ Took chunks w.chunks := by
  induction chunks generalizing buffer with
  | nil =>
    obtain ⟨⟨line', rest⟩, hsplit, heq⟩ := Option.map_eq_some_iff.mp h
    obtain ⟨rfl, rfl⟩ := Prod.mk.inj heq
    simpa [Wire.text, hsplit] using Took.refl []
  | cons chunk chunks ih =>
    unfold receiveLine at h
    cases hbuffer : splitLine buffer with
    | some found =>
      rw [hbuffer] at h
      obtain ⟨rfl, rfl⟩ := Prod.mk.inj (Option.some.inj h)
      exact ⟨splitLine_eq_some_append hbuffer _, Took.refl _⟩
    | none =>
      rw [hbuffer] at h
      obtain ⟨received, hreceived, hrest⟩ := Option.bind_eq_some_iff.mp h
      obtain ⟨rfl, hutf8⟩ := decodeChunk_eq_some hreceived
      split_ifs at hrest
      obtain ⟨hsplit, htook⟩ := ih hrest
      rw [List.append_assoc, ← List.flatten_cons] at hsplit
      exact ⟨hsplit, htook.cons hutf8⟩

theorem receiveData_took {size : Nat} {chunks : List Bytes} {buffer data : Bytes} {w : Wire}
    (h : receiveData size chunks buffer = some (data, w)) :
    starts w.text + size = starts (buffer ++ chunks.flatten) ∧ Took chunks w.chunks := by
  have hslice (hlong : ¬ ((characters buffer).length : Int) < size) :
      starts (strSlice buffer size none) + size = starts buffer := starts_strSlice (by omega)
  induction chunks generalizing buffer with
  | nil =>
    unfold receiveData at h
    split_ifs at h with hshort
    obtain ⟨rfl, rfl⟩ := Prod.mk.inj (Option.some.inj h)
    refine ⟨?_, Took.refl _⟩
    simpa [Wire.text] using hslice hshort
  | cons chunk chunks ih =>
    unfold receiveData at h
    split_ifs at h with hshort
    · obtain ⟨received, hreceived, hrest⟩ := Option.bind_eq_some_iff.mp h
      obtain ⟨rfl, hutf8⟩ := decodeChunk_eq_some hreceived
      obtain ⟨hstarts, htook⟩ := ih hrest fun hlong => starts_strSlice (by omega)
      rw [List.append_assoc, ← List.flatten_cons] at hstarts
      exact ⟨hstarts, htook.cons hutf8⟩
    · obtain ⟨rfl, rfl⟩ := Prod.mk.inj (Option.some.inj h)
      refine ⟨?_, Took.refl _⟩
      change starts (strSlice buffer size none ++ (chunk :: chunks).flatten) + size = _
      rw [starts_append, starts_append, ← hslice hshort]
      omega

theorem receiveDataAnswer_took {fields : List (Bytes × TioData)} {f g : PyFields} {w w' : Wire}
    (h : (receiveDataAnswer toDecimal (fields.flatMap (fieldWords doubles)) f).run wireServer w = some (.ok g, w')) :
    starts w'.text + (fields.flatMap (fieldBytes doubles)).length = starts w.text ∧ Took w.chunks w'.chunks := by
  induction fields generalizing f w with
  | nil =>
    obtain ⟨-, rfl⟩ := Prod.mk.inj (Option.some.inj h)
    exact ⟨rfl, Took.refl _⟩
  | cons field fields ih =>
    change (receiveDataAnswer toDecimal (field.1 :: dataTypeAsString field.2 ::
      digits (dataText doubles field.2).length :: fields.flatMap (fieldWords doubles)) f).run wireServer w = _ at h
    rw [receiveDataAnswer, pyInt_digits] at h
    dsimp only at h
    rw [Calling.run_bind, Calling.run_ask] at h
    obtain ⟨⟨received, w₁⟩, hreceived, hrest⟩ := Option.bind_eq_some_iff.mp h
    obtain ⟨hstarts, htook⟩ := receiveData_took (show receiveData ((dataText doubles field.2).length + 2 : Nat)
      w.chunks w.receiveBuffer = some (received, w₁) from hreceived)
    dsimp only at hrest
    cases hvalue : pyValue toDecimal (dataTypeAsString field.2) (strSlice received 0 (some (-2))) with
    | none =>
      rw [hvalue] at hrest
      dsimp only at hrest
      split_ifs at hrest <;> cases hrest
    | some value =>
      rw [hvalue] at hrest
      obtain ⟨hmore, htook'⟩ := ih hrest
      refine ⟨?_, htook.trans htook'⟩
      have hlen : ((field :: fields).flatMap (fieldBytes doubles)).length =
          (dataText doubles field.2).length + 2 + (fields.flatMap (fieldBytes doubles)).length := by
        rw [List.flatMap_cons, List.length_append, fieldBytes, List.length_append]
        rfl
      change _ = starts (w.receiveBuffer ++ w.chunks.flatten)
      rw [hlen, ← hstarts, ← hmore]
      omega

/-- A message that is read is ASCII: each of its sizes is the number of the characters, and of the bytes. -/
theorem ascii_of_pyDecode {chunks : List Bytes} {line : Bytes} {fields : List (Bytes × TioData)} {f : PyFields}
    (hline : ∀ c ∈ line, c < 128) (htext : chunks.flatten = line ++ lineEnd ++ fields.flatMap (fieldBytes doubles))
    (hsplit : splitLine chunks.flatten = some (line, fields.flatMap (fieldBytes doubles)))
    (hwords : (line.splitOn 32).drop 3 = fields.flatMap (fieldWords doubles))
    (h : pyDecode toDecimal chunks = some f) : ∀ c ∈ chunks.flatten, c < 128 := by
  unfold pyDecode at h
  split at h
  · rename_i g w' hrun
    unfold receiveMessage at hrun
    rw [Calling.run_bind, Calling.run_ask] at hrun
    obtain ⟨⟨line', w⟩, hreceived, hrest⟩ := Option.bind_eq_some_iff.mp hrun
    obtain ⟨hsplit', htook⟩ := receiveLine_took (show receiveLine chunks [] = some (line', w) from hreceived)
    rw [List.nil_append, hsplit] at hsplit'
    obtain ⟨rfl, hpayload⟩ := Prod.mk.inj (Option.some.inj hsplit')
    dsimp only at hrest
    rw [hwords] at hrest
    obtain ⟨hstarts, htook'⟩ := receiveDataAnswer_took hrest
    rw [← hpayload] at hstarts
    have hmost := starts_le_length (fields.flatMap (fieldBytes doubles))
    -- every byte of the data begins a character, so nothing is left of them
    have hends : starts (line ++ lineEnd) = (line ++ lineEnd).length := by
      rw [starts, List.countP_eq_length]
      intro c hc
      rw [not_isContinuation_of_lt (ascii_append_lineEnd hline c hc)]
      rfl
    have hall : chunks.flatten.length ≤ starts chunks.flatten := by
      rw [htext, starts_append, List.length_append, hends]
      omega
    obtain ⟨used, hused, hutf8⟩ := htook.trans htook'
    have hnone : w'.chunks.flatten = [] := by
      have hzero : starts w'.chunks.flatten = 0 := by
        have hsum := starts_append w'.receiveBuffer w'.chunks.flatten
        rw [← Wire.text] at hsum
        omega
      rw [← List.length_eq_zero_iff]
      have hflat := congrArg List.flatten hused
      rw [List.flatten_append] at hflat
      rw [hflat, List.length_append, starts_append, hzero] at hall
      have := starts_le_length used.flatten
      omega
    have hwhole : IsUtf8 chunks.flatten := by
      rw [hused, List.flatten_append, hnone, List.append_nil]
      exact .flatten hutf8
    exact hwhole.ascii hall
  · cases h

theorem pyDecode_of_text {chunks : List Bytes} {f : PyFields} {rest : Bytes} (hfilled : ∀ chunk ∈ chunks, chunk ≠ [])
    (hascii : ∀ c ∈ chunks.flatten, c < 128)
    (h : (receiveMessage toDecimal).run textServer chunks.flatten = some (.ok f, rest)) :
    pyDecode toDecimal chunks = some f := by
  have hbrings : Wire.Brings chunks.flatten ⟨[], chunks⟩ := ⟨rfl, hascii, hfilled⟩
  obtain ⟨w, hrun, -⟩ := brings_follows.run hbrings h
  rw [pyDecode, hrun]

end Python

end Tiodb
