import Tiodb.Lib.Json
import Tiodb.Lib.Utf8
import Tiodb.Storage.Container

/-!
# The JSON of a container

`CreateContainerHttpResponse` of `TioTcpServer.cpp` for a client that takes JSON. The
text is put together from its parts, and the comma behind the last record is taken
off. Nothing is escaped.
-/

namespace Tiodb.HttpJson

open Lib Lib.Json

variable (doubles : UInt64 → Bytes)

/-- `AsString`. `doubles` is `to_string` of a `double`, which is not modelled. -/
def asString : TioData → Bytes
  | .int i => intDigits i.toInt
  | .double bits => doubles bits
  | .string s => cstr s
  | .none => []

/-- What is written for a record, with a comma behind it. -/
def recordJson (r : Record) : Bytes :=
  ascii "\x7b\"key\":\"" ++ asString doubles r.key ++ ascii "\",\"value\":\"" ++ asString doubles r.value ++
    ascii "\",\"metadata\":\"" ++ asString doubles r.metadata ++ ascii "\"\x7d,"

/-- What is written before the records. -/
def headJson (name type : Bytes) : Bytes :=
  ascii "\x7b\"_meta\":\x7b\"container_name\":\"" ++ name ++ ascii "\",\"container_type\":\"" ++ type ++
    ascii "\"\x7d,\"value\":["

/-- The resize takes off whatever is last. -/
def bodyJson (name type : Bytes) (records : List Record) : Bytes :=
  (headJson name type ++ records.flatMap (recordJson doubles)).dropLast ++ ascii "]\x7d"

/-- `CreateContainerHttpResponse` -/
def createContainerHttpResponse : Container.ContainerM Bytes := do
  let container ← get
  let resultSet ← Container.query 0 0 .none
  return bodyJson doubles container.getName container.getType resultSet

/-! ## What the text should say -/

/-- An int, a UTF-8 string or nothing. -/
def TextData : TioData → Prop
  | .double _ => False
  | .string s => IsUtf8 s
  | _ => True

def TextRecord (r : Record) : Prop := TextData r.key ∧ TextData r.value ∧ TextData r.metadata

/-- The object of a record. -/
def Decodes (v : Json) (r : Record) : Prop :=
  ∃ ms, v = .object ms ∧ ms.lookup (ascii "key") = some (.string (asString doubles r.key)) ∧
    ms.lookup (ascii "value") = some (.string (asString doubles r.value)) ∧
    ms.lookup (ascii "metadata") = some (.string (asString doubles r.metadata))

/-- A JSON object whose `value` is the array of the records. -/
def Faithful (body : Bytes) (records : List Record) : Prop :=
  IsUtf8 body ∧ ∃ ms vs, Document body (.object ms) ∧ ms.lookup (ascii "value") = some (.array vs) ∧
    List.Forall₂ (Decodes doubles) vs records

/-- A text that JSON can hold as it is. -/
def PlainText (b : Bytes) : Prop := IsUtf8 b ∧ ∀ c ∈ b, Plain c

/-- No text of the record has a byte that JSON escapes. -/
def PlainRecord (r : Record) : Prop :=
  (∀ c ∈ asString doubles r.key, Plain c) ∧ (∀ c ∈ asString doubles r.value, Plain c) ∧
    ∀ c ∈ asString doubles r.metadata, Plain c

instance (r : Record) : Decidable (PlainRecord doubles r) := inferInstanceAs (Decidable (_ ∧ _ ∧ _))

/-! ## The text by its parts -/

def objectJson (r : Record) : Bytes :=
  123 :: (quoted (ascii "key") ++ 58 :: (quoted (asString doubles r.key) ++
    44 :: (quoted (ascii "value") ++ 58 :: (quoted (asString doubles r.value) ++
      44 :: (quoted (ascii "metadata") ++ 58 :: (quoted (asString doubles r.metadata) ++ [125]))))))

def metaJson (name type : Bytes) : Bytes :=
  123 :: (quoted (ascii "container_name") ++ 58 :: (quoted name ++
    44 :: (quoted (ascii "container_type") ++ 58 :: (quoted type ++ [125]))))

/-- The objects, and the two brackets behind them. -/
def objectsJson : Record → List Record → Bytes
  | r, [] => objectJson doubles r ++ [93, 125]
  | r, r' :: rs => objectJson doubles r ++ 44 :: objectsJson r' rs

/-- The array has lost its first bracket when it is empty. -/
def arrayJson : List Record → Bytes
  | [] => [93, 125]
  | r :: rs => 91 :: objectsJson doubles r rs

theorem recordJson_eq (r : Record) : recordJson doubles r = objectJson doubles r ++ [44] := by
  simp [recordJson, objectJson, quoted, ascii]

theorem headJson_eq (name type : Bytes) :
    headJson name type = 123 :: (quoted (ascii "_meta") ++ 58 :: (metaJson name type ++
      44 :: (quoted (ascii "value") ++ [58, 91]))) := by
  simp [headJson, metaJson, quoted, ascii]

theorem flatMap_recordJson (r : Record) (rs : List Record) :
    ((r :: rs).flatMap (recordJson doubles)).dropLast ++ [93, 125] = objectsJson doubles r rs := by
  induction rs generalizing r with
  | nil => rw [List.flatMap_singleton, recordJson_eq, List.dropLast_concat, objectsJson]
  | cons r' rs ih =>
    have hne : (r' :: rs).flatMap (recordJson doubles) ≠ [] := by
      simp [List.flatMap_cons, recordJson_eq]
    rw [List.flatMap_cons, List.dropLast_append_of_ne_nil hne, List.append_assoc, ih, recordJson_eq,
      List.append_assoc, List.singleton_append, objectsJson]

theorem bodyJson_eq (name type : Bytes) (records : List Record) :
    bodyJson doubles name type records = 123 :: (quoted (ascii "_meta") ++ 58 :: (metaJson name type ++
      44 :: (quoted (ascii "value") ++ 58 :: arrayJson doubles records))) := by
  have hclose : ascii "]\x7d" = [93, 125] := rfl
  rw [bodyJson, headJson_eq, hclose]
  cases records with
  | nil =>
    rw [List.flatMap_nil, List.append_nil]
    simp [arrayJson, List.dropLast_append_of_ne_nil, List.dropLast_cons_of_ne_nil]
  | cons r rs =>
    have hne : (r :: rs).flatMap (recordJson doubles) ≠ [] := by
      simp [List.flatMap_cons, recordJson_eq]
    rw [List.dropLast_append_of_ne_nil hne, List.append_assoc, flatMap_recordJson]
    simp [arrayJson]

/-! ## Plain texts are read back -/

/-- The JSON value that a record stands for. -/
def objectOf (r : Record) : Json :=
  .object [(ascii "key", .string (asString doubles r.key)), (ascii "value", .string (asString doubles r.value)),
    (ascii "metadata", .string (asString doubles r.metadata))]

/-- The JSON value that the head stands for. -/
def metaOf (name type : Bytes) : Json :=
  .object [(ascii "container_name", .string name), (ascii "container_type", .string type)]

theorem readValue_objectJson (depth : Nat) {r : Record} (rest : Bytes) (h : PlainRecord doubles r) :
    readValue (depth + 5) (objectJson doubles r ++ rest) = some (objectOf doubles r, rest) := by
  obtain ⟨hkey, hvalue, hmetadata⟩ := h
  simp only [objectJson, List.cons_append, List.append_assoc]
  rw [readValue_object, readMembers_comma (readName_quoted _ (by simp [ascii, Plain])) (readValue_quoted _ _ hkey) rfl,
    readMembers_comma (readName_quoted _ (by simp [ascii, Plain])) (readValue_quoted _ _ hvalue) rfl,
    readMembers_brace (readName_quoted _ (by simp [ascii, Plain])) (readValue_quoted _ _ hmetadata) rfl]
  rfl

theorem readValue_metaJson (depth : Nat) {name type : Bytes} (rest : Bytes) (hname : ∀ c ∈ name, Plain c)
    (htype : ∀ c ∈ type, Plain c) :
    readValue (depth + 4) (metaJson name type ++ rest) = some (metaOf name type, rest) := by
  simp only [metaJson, List.cons_append, List.append_assoc]
  rw [readValue_object, readMembers_comma (readName_quoted _ (by simp [ascii, Plain])) (readValue_quoted _ _ hname) rfl,
    readMembers_brace (readName_quoted _ (by simp [ascii, Plain])) (readValue_quoted _ _ htype) rfl]
  rfl

theorem readElements_objectsJson {r : Record} {rs : List Record} (h : ∀ r' ∈ r :: rs, PlainRecord doubles r') :
    readElements (rs.length + 6) (objectsJson doubles r rs) = some ((r :: rs).map (objectOf doubles), [125]) := by
  induction rs generalizing r with
  | nil =>
    rw [objectsJson, readElements_bracket (readValue_objectJson doubles _ _ (h r (by simp))) rfl]
    rfl
  | cons r' rs ih =>
    obtain ⟨hr, hrs⟩ := List.forall_mem_cons.mp h
    have hread := ih hrs
    rw [objectsJson, List.length_cons,
      readElements_comma (readValue_objectJson doubles (rs.length + 1) _ hr) rfl, hread]
    rfl

/-! ## What is read back was plain -/

def textLength (r : Record) : Nat :=
  (asString doubles r.key).length + (asString doubles r.value).length + (asString doubles r.metadata).length

def textWeight (r : Record) : Nat :=
  escapedLength (asString doubles r.key) + escapedLength (asString doubles r.value) +
    escapedLength (asString doubles r.metadata)

theorem textLength_le_textWeight (r : Record) : textLength doubles r ≤ textWeight doubles r :=
  Nat.add_le_add (Nat.add_le_add (length_le_escapedLength _) (length_le_escapedLength _)) (length_le_escapedLength _)

theorem plainRecord_iff {r : Record} : PlainRecord doubles r ↔ textWeight doubles r ≤ textLength doubles r := by
  have hkey := length_le_escapedLength (asString doubles r.key)
  have hvalue := length_le_escapedLength (asString doubles r.value)
  have hmetadata := length_le_escapedLength (asString doubles r.metadata)
  simp only [PlainRecord, ← escapedLength_le_length_iff, textWeight, textLength]
  omega

theorem length_objectJson (r : Record) : (objectJson doubles r).length = 35 + textLength doubles r := by
  simp [objectJson, quoted, ascii, textLength]
  omega

theorem length_objectsJson (r : Record) (rs : List Record) :
    (objectsJson doubles r rs).length = ((r :: rs).map fun r => 36 + textLength doubles r).sum + 1 := by
  induction rs generalizing r with
  | nil =>
    simp [objectsJson, length_objectJson]
    omega
  | cons r' rs ih =>
    have hsum : ((r :: r' :: rs).map fun r => 36 + textLength doubles r).sum =
        36 + textLength doubles r + ((r' :: rs).map fun r => 36 + textLength doubles r).sum := List.sum_cons
    rw [objectsJson, List.length_append, List.length_cons, ih, length_objectJson, hsum]
    omega

/-- An object with the three members takes its texts with all that has to be escaped in them. -/
theorem le_weight_of_decodes {v : Json} {r : Record} (h : Decodes doubles v r) :
    35 + textWeight doubles r ≤ v.weight := by
  obtain ⟨ms, rfl, hkey, hvalue, hmetadata⟩ := h
  have hsub : [(ascii "key", Json.string (asString doubles r.key)), (ascii "value", .string (asString doubles r.value)),
      (ascii "metadata", .string (asString doubles r.metadata))] ⊆ ms := by
    simp [mem_of_lookup hkey, mem_of_lookup hvalue, mem_of_lookup hmetadata]
  have hnodup : [ascii "key", ascii "value", ascii "metadata"].Nodup := by decide
  have hle := membersWeight_le_of_subset (by exact hnodup) hsub
  have hnames : escapedLength (ascii "key") = 3 ∧ escapedLength (ascii "value") = 5 ∧
      escapedLength (ascii "metadata") = 8 := by decide
  simp only [membersWeight, weight, hnames] at hle
  simp only [weight, textWeight]
  omega

theorem le_elementsWeight_of_decodes {vs : List Json} {records : List Record}
    (h : List.Forall₂ (Decodes doubles) vs records) :
    (records.map fun r => 36 + textWeight doubles r).sum ≤ elementsWeight vs := by
  induction h with
  | nil => exact Nat.le_refl _
  | cons hr _ ih =>
    have := le_weight_of_decodes doubles hr
    rw [List.map_cons, List.sum_cons, elementsWeight]
    omega

theorem plain_of_readValue {n : Nat} {vs : List Json} {records : List Record} {rest : Bytes}
    (hread : readValue n (arrayJson doubles records) = some (.array vs, rest)) (hrest : 1 ≤ rest.length)
    (hvs : List.Forall₂ (Decodes doubles) vs records) :
    records ≠ [] ∧ ∀ r ∈ records, PlainRecord doubles r := by
  cases n with
  | zero => cases hread
  | succ n =>
    cases records with
    | nil => cases hread
    | cons r rs =>
      refine ⟨List.cons_ne_nil r rs, ?_⟩
      have harray : readElements n (objectsJson doubles r rs) = some (vs, rest) := by
        obtain ⟨b, hb⟩ : ∃ b, objectsJson doubles r rs = 123 :: b := by
          cases rs <;> exact ⟨_, rfl⟩
        rw [arrayJson, hb, readValue_array] at hread
        rw [hb]
        obtain ⟨⟨vs', rest'⟩, hvs, heq⟩ := Option.map_eq_some_iff.mp hread
        obtain ⟨hv, rfl⟩ := Prod.mk.inj heq
        rw [hvs, Json.array.inj hv]
      -- the texts take more than there is, when one of them is not plain
      by_contra hnot
      push Not at hnot
      obtain ⟨bad, hbad, hplain⟩ := hnot
      have hlt : ((r :: rs).map fun r => 36 + textLength doubles r).sum <
          ((r :: rs).map fun r => 36 + textWeight doubles r).sum := by
        refine List.sum_lt_sum _ _ (fun r _ => ?_) ⟨bad, hbad, ?_⟩
        · have := textLength_le_textWeight doubles r
          omega
        · rw [plainRecord_iff] at hplain
          omega
      have hweight := (read_weight n).2.1 _ _ _ harray
      have hneed := le_elementsWeight_of_decodes doubles hvs
      rw [length_objectsJson] at hweight
      omega

theorem readValue_arrayJson_of_faithful {name type : Bytes} (hname : ∀ c ∈ name, Plain c) (htype : ∀ c ∈ type, Plain c)
    {records : List Record} (h : Faithful doubles (bodyJson doubles name type records) records) :
    ∃ n vs rest, readValue n (arrayJson doubles records) = some (.array vs, rest) ∧ 1 ≤ rest.length ∧
      List.Forall₂ (Decodes doubles) vs records := by
  obtain ⟨-, ms, vs, ⟨depth, rest, hread, -⟩, hlookup, hvs⟩ := h
  rw [bodyJson_eq] at hread
  cases depth with
  | zero => cases hread
  | succ depth =>
    rw [readValue_object] at hread
    obtain ⟨⟨ms', rest'⟩, hms, heq⟩ := Option.map_eq_some_iff.mp hread
    obtain ⟨hobject, rfl⟩ := Prod.mk.inj heq
    obtain rfl := Json.object.inj hobject
    obtain ⟨n, v, b₁, c, b₂, hv, hc, hnext⟩ := readMembers_quoted (by simp [ascii, Plain]) hms
    obtain ⟨rfl, rfl⟩ := Prod.mk.inj (readValue_unique hv (readValue_metaJson 0 _ hname htype))
    obtain ⟨rfl, rfl⟩ := List.cons.inj hc
    rcases hnext with ⟨-, ms', hms', rfl⟩ | ⟨hbrace, -⟩
    · obtain ⟨n', v, b₁, c, b₂, hv', hc', hnext⟩ := readMembers_quoted (by simp [ascii, Plain]) hms'
      have hvalue : v = .array vs := by
        rcases hnext with ⟨-, ms'', -, rfl⟩ | ⟨-, rfl, -⟩
        · exact Option.some.inj hlookup
        · exact Option.some.inj hlookup
      have hlen := length_of_skipBlanks hc'
      exact ⟨n', vs, b₁, hvalue ▸ hv', by omega, hvs⟩
    · cases hbrace

/-! ## When the text says what it should -/

theorem isUtf8_asString {d : TioData} (h : TextData d) : IsUtf8 (asString doubles d) := by
  cases d with
  | none => exact ⟨[], rfl⟩
  | int i =>
    have hlt : (127 : UInt8) < 128 := by decide
    exact .of_ascii fun c hc => UInt8.lt_trans (plain_of_mem_intDigits hc).2 hlt
  | double bits => exact h.elim
  | string s => exact h.takeWhile_ne_zero

theorem isUtf8_quoted {s : Bytes} (h : IsUtf8 s) : IsUtf8 (quoted s) :=
  (h.cons (by decide)).append (.of_ascii (by simp))

theorem isUtf8_member {key text : Bytes} {c : UInt8} {rest : Bytes} (hkey : IsUtf8 key) (htext : IsUtf8 text)
    (hc : c < 128) (hrest : IsUtf8 rest) : IsUtf8 (quoted key ++ 58 :: (quoted text ++ c :: rest)) :=
  (isUtf8_quoted hkey).append (((isUtf8_quoted htext).append (hrest.cons hc)).cons (by decide))

theorem isUtf8_objectJson {r : Record} (h : TextRecord r) {rest : Bytes} (hrest : IsUtf8 rest) :
    IsUtf8 (objectJson doubles r ++ rest) := by
  obtain ⟨hkey, hvalue, hmetadata⟩ := h
  have hname : IsUtf8 (ascii "key") ∧ IsUtf8 (ascii "value") ∧ IsUtf8 (ascii "metadata") :=
    ⟨.of_ascii (by simp [ascii]), .of_ascii (by simp [ascii]), .of_ascii (by simp [ascii])⟩
  simp only [objectJson, List.cons_append, List.append_assoc, List.nil_append]
  have hlast := isUtf8_member hname.2.2 (isUtf8_asString doubles hmetadata) (c := 125) (by decide) hrest
  have hmiddle := isUtf8_member hname.2.1 (isUtf8_asString doubles hvalue) (c := 44) (by decide) hlast
  exact (isUtf8_member hname.1 (isUtf8_asString doubles hkey) (by decide) hmiddle).cons (by decide)

theorem isUtf8_metaJson {name type rest : Bytes} (hname : IsUtf8 name) (htype : IsUtf8 type) (hrest : IsUtf8 rest) :
    IsUtf8 (metaJson name type ++ rest) := by
  have hkey : IsUtf8 (ascii "container_name") ∧ IsUtf8 (ascii "container_type") :=
    ⟨.of_ascii (by simp [ascii]), .of_ascii (by simp [ascii])⟩
  simp only [metaJson, List.cons_append, List.append_assoc, List.nil_append]
  have hlast := isUtf8_member hkey.2 htype (c := 125) (by decide) hrest
  exact (isUtf8_member hkey.1 hname (by decide) hlast).cons (by decide)

theorem isUtf8_arrayJson {records : List Record} (h : ∀ r ∈ records, TextRecord r) :
    IsUtf8 (arrayJson doubles records) := by
  have hclose : IsUtf8 [93, 125] := .of_ascii (by simp)
  cases records with
  | nil => exact hclose
  | cons r rs =>
    refine .cons (by decide) ?_
    induction rs generalizing r with
    | nil => exact isUtf8_objectJson doubles (h r (by simp)) hclose
    | cons r' rs ih =>
      obtain ⟨hr, hrs⟩ := List.forall_mem_cons.mp h
      exact isUtf8_objectJson doubles hr ((ih r' hrs).cons (by decide))

theorem isUtf8_bodyJson {name type : Bytes} {records : List Record} (hname : IsUtf8 name) (htype : IsUtf8 type)
    (h : ∀ r ∈ records, TextRecord r) : IsUtf8 (bodyJson doubles name type records) := by
  have hvalue : IsUtf8 (quoted (ascii "value")) := isUtf8_quoted (.of_ascii (by simp [ascii]))
  have harray := hvalue.append ((isUtf8_arrayJson doubles h).cons (c := 58) (by decide))
  have hmeta := isUtf8_metaJson hname htype (harray.cons (c := 44) (by decide))
  have hkey : IsUtf8 (quoted (ascii "_meta")) := isUtf8_quoted (.of_ascii (by simp [ascii]))
  rw [bodyJson_eq]
  exact (hkey.append (hmeta.cons (by decide))).cons (by decide)

theorem decodes_objectOf (r : Record) : Decodes doubles (objectOf doubles r) r := ⟨_, rfl, rfl, rfl, rfl⟩

theorem document_bodyJson {name type : Bytes} (hname : ∀ c ∈ name, Plain c) (htype : ∀ c ∈ type, Plain c)
    {r : Record} {rs : List Record} (h : ∀ r' ∈ r :: rs, PlainRecord doubles r') :
    Document (bodyJson doubles name type (r :: rs))
      (.object [(ascii "_meta", metaOf name type), (ascii "value", .array ((r :: rs).map (objectOf doubles)))]) := by
  have harray : readValue (rs.length + 7) (arrayJson doubles (r :: rs)) =
      some (.array ((r :: rs).map (objectOf doubles)), [125]) := by
    obtain ⟨b, hb⟩ : ∃ b, objectsJson doubles r rs = 123 :: b := by
      cases rs <;> exact ⟨_, rfl⟩
    rw [arrayJson, hb, readValue_array, ← hb, readElements_objectsJson doubles h]
    rfl
  refine ⟨rs.length + 10, [], ?_, rfl⟩
  rw [bodyJson_eq, readValue_object,
    readMembers_comma (readName_quoted _ (by simp [ascii, Plain])) (readValue_metaJson (rs.length + 4) _ hname htype) rfl,
    readMembers_brace (readName_quoted _ (by simp [ascii, Plain])) harray rfl]
  rfl

theorem faithful_iff {name type : Bytes} {records : List Record} (hname : PlainText name) (htype : PlainText type)
    (htext : ∀ r ∈ records, TextRecord r) :
    Faithful doubles (bodyJson doubles name type records) records ↔
      records ≠ [] ∧ ∀ r ∈ records, PlainRecord doubles r := by
  constructor
  · intro h
    obtain ⟨n, vs, rest, hread, hrest, hvs⟩ := readValue_arrayJson_of_faithful doubles hname.2 htype.2 h
    exact plain_of_readValue doubles hread hrest hvs
  · rintro ⟨hne, hplain⟩
    refine ⟨isUtf8_bodyJson doubles hname.1 htype.1 htext, ?_⟩
    cases records with
    | nil => exact absurd rfl hne
    | cons r rs =>
      refine ⟨_, _, document_bodyJson doubles hname.2 htype.2 hplain, rfl, ?_⟩
      rw [List.forall₂_map_left_iff]
      exact List.forall₂_same.mpr fun r _ => decodes_objectOf doubles r

variable {doubles}

theorem run_createContainerHttpResponse {c : Container} {records : List Record}
    (h : (Container.query 0 0 .none).run c = .ok records c) :
    (createContainerHttpResponse doubles).run c = .ok (bodyJson doubles c.getName c.getType records) c := by
  unfold createContainerHttpResponse
  rw [Prog.run_get_bind, Prog.run_bind_ok _ _ h]
  rfl

/-- The name and the type are not escaped either, so they have to be plain in the first place. -/
theorem createContainerHttpResponse_faithful_iff {c : Container} {records : List Record}
    (hquery : (Container.query 0 0 .none).run c = .ok records c) (htext : ∀ r ∈ records, TextRecord r)
    (hname : PlainText c.getName) (htype : PlainText c.getType) :
    (∃ body, (createContainerHttpResponse doubles).run c = .ok body c ∧ Faithful doubles body records) ↔
      records ≠ [] ∧ ∀ r ∈ records, PlainRecord doubles r := by
  rw [← faithful_iff doubles hname htype htext, run_createContainerHttpResponse hquery]
  constructor
  · rintro ⟨body, hrun, h⟩
    rwa [(Outcome.ok.inj hrun).1]
  · intro h
    exact ⟨_, rfl, h⟩

def listOf (data : List ValueAndMetadata) : Container :=
  ⟨.list { ListStorage.new (ascii "messages") (ascii "volatile_list") with data := data }, ∅⟩

theorem plainText_listOf (data : List ValueAndMetadata) :
    PlainText (listOf data).getName ∧ PlainText (listOf data).getType := by
  have hname : ∀ c ∈ ascii "messages", c < 128 ∧ Plain c := by simp [ascii, Plain]
  have htype : ∀ c ∈ ascii "volatile_list", c < 128 ∧ Plain c := by simp [ascii, Plain]
  exact ⟨⟨.of_ascii fun c hc => (hname c hc).1, fun c hc => (hname c hc).2⟩,
    .of_ascii fun c hc => (htype c hc).1, fun c hc => (htype c hc).2⟩

theorem createContainerHttpResponse_faithful_hello :
    ∃ body, (createContainerHttpResponse fun _ => []).run (listOf [⟨.string (ascii "hello"), .none⟩]) =
      .ok body (listOf [⟨.string (ascii "hello"), .none⟩]) ∧
      Faithful (fun _ => []) body [⟨.int 0, .string (ascii "hello"), .none⟩] := by
  have htext : TextRecord ⟨.int 0, .string (ascii "hello"), .none⟩ :=
    ⟨trivial, .of_ascii (by simp [ascii] : ∀ c ∈ ascii "hello", c < 128), trivial⟩
  refine (createContainerHttpResponse_faithful_iff rfl (List.forall_mem_singleton.mpr htext)
    (plainText_listOf _).1 (plainText_listOf _).2).mpr (by decide +kernel)

/-- No record, and a record with a quote. -/
theorem createContainerHttpResponse_unfaithful :
    (¬ ∃ body, (createContainerHttpResponse fun _ => []).run (listOf []) = .ok body (listOf []) ∧
      Faithful (fun _ => []) body []) ∧
    ¬ ∃ body, (createContainerHttpResponse fun _ => []).run (listOf [⟨.string [34], .none⟩]) =
      .ok body (listOf [⟨.string [34], .none⟩]) ∧
      Faithful (fun _ => []) body [⟨.int 0, .string [34], .none⟩] := by
  have hfails {data : List ValueAndMetadata} {records : List Record}
      (hquery : (Container.query 0 0 .none).run (listOf data) = .ok records (listOf data))
      (htext : ∀ r ∈ records, TextRecord r) (hnot : ¬ (records ≠ [] ∧ ∀ r ∈ records, PlainRecord (fun _ => []) r)) :
      ¬ ∃ body, (createContainerHttpResponse fun _ => []).run (listOf data) = .ok body (listOf data) ∧
        Faithful (fun _ => []) body records := by
    rintro ⟨body, hrun, h⟩
    rw [run_createContainerHttpResponse hquery] at hrun
    obtain rfl := (Outcome.ok.inj hrun).1
    exact hnot ((faithful_iff _ (plainText_listOf data).1 (plainText_listOf data).2 htext).mp h)
  constructor
  · exact hfails rfl (by simp) (by simp)
  · have htext : TextRecord ⟨.int 0, .string [34], .none⟩ :=
      ⟨trivial, .of_ascii (by simp : ∀ c ∈ [34], c < (128 : UInt8)), trivial⟩
    exact hfails rfl (List.forall_mem_singleton.mpr htext) (by decide +kernel)

end Tiodb.HttpJson
