import Tiodb.Protocol.Text

/-!
# How far the fields of a command reach

`ExtractFieldSet` adds the sizes up, with two bytes for each line end, and the sum
wraps. `ExtractFieldsFromBuffer` knows no other bound: it reads each field behind the
one before it until a field has no value of its type in it.
-/

namespace Tiodb

namespace Text

variable (lex : LexicalCast)

/-- Some bytes of the field's size are a value of its type. -/
def Fillable (info : FieldInfo) : Prop :=
  info.size.toNat ≤ maxStringSize ∧
    ∃ str data, str.length = info.size.toNat ∧ setTioData lex info.type str = .ok data

/-- The bytes of the fields with their line ends. -/
def span (fields : List FieldInfo) : Nat := (fields.map fun info => info.size.toNat + 2).sum

/-- No field that is read ends behind the total: one that is neither empty nor too large, and that comes after fields
that are all fillable. -/
def EndsWithin (fields : List FieldInfo) (total : Nat) : Prop :=
  ∀ before info after, fields = before ++ info :: after → (∀ g ∈ before, Fillable lex g) → 0 < info.size.toNat →
    info.size.toNat ≤ maxStringSize → span before + info.size.toNat ≤ total

variable {lex} {info : FieldInfo} {fields : List FieldInfo} {total : Nat}

theorem endsWithin_cons :
    EndsWithin lex (info :: fields) total ↔
      (0 < info.size.toNat → info.size.toNat ≤ maxStringSize → info.size.toNat ≤ total) ∧
        (Fillable lex info → EndsWithin lex fields (total - (info.size.toNat + 2))) := by
  constructor
  · intro h
    refine ⟨fun hpos hmax => ?_, ?_⟩
    · simpa [span] using h [] info fields rfl (fun _ hg => nomatch hg) hpos hmax
    · rintro hinfo before g after rfl hbefore hpos hmax
      have hend := h (info :: before) g after rfl (List.forall_mem_cons.mpr ⟨hinfo, hbefore⟩) hpos hmax
      simp only [span, List.map_cons, List.sum_cons] at hend ⊢
      omega
  · rintro ⟨hfirst, hrest⟩ before g after heq hbefore hpos hmax
    cases before with
    | nil =>
      obtain ⟨rfl, -⟩ := List.cons.inj heq
      simpa [span] using hfirst hpos hmax
    | cons b before =>
      obtain ⟨rfl, rfl⟩ := List.cons.inj heq
      obtain ⟨hb, hbefore⟩ := List.forall_mem_cons.mp hbefore
      have hend := hrest hb before g after rfl hbefore hpos hmax
      simp only [span, List.map_cons, List.sum_cons] at hend ⊢
      omega

theorem reads_inside {buffer : Bytes} (h : EndsWithin lex fields total) (hlen : total ≤ buffer.length) (f : Fields) :
    extractFieldsFromBuffer lex fields buffer f ≠ none := by
  induction fields generalizing total buffer f with
  | nil => simp [extractFieldsFromBuffer]
  | cons info fields ih =>
    obtain ⟨hfirst, hrest⟩ := endsWithin_cons.mp h
    rw [extractFieldsFromBuffer]
    by_cases hmax : maxStringSize < info.size.toNat
    · simp [hmax]
    have hroom : ¬buffer.length < info.size.toNat := fun hshort => by
      have hend := hfirst (by omega) (by omega)
      omega
    rw [if_neg hmax, if_neg hroom]
    cases hd : setTioData lex info.type (buffer.take info.size.toNat) with
    | error e => simp
    | ok data =>
      have hfill : Fillable lex info := ⟨by omega, _, data, List.length_take_of_le (by omega), hd⟩
      exact ih (hrest hfill) (by rw [List.length_drop]; omega) _

theorem endsWithin_span (fields : List FieldInfo) : EndsWithin lex fields (span fields) := by
  rintro before info after rfl - - -
  simp only [span, List.map_append, List.map_cons, List.sum_append, List.sum_cons]
  omega

/-- A field that ends behind the total can be reached in a buffer of that length. -/
theorem exists_read_past (h : ¬EndsWithin lex fields total) (f : Fields) :
    ∃ buffer : Bytes, buffer.length = total ∧ extractFieldsFromBuffer lex fields buffer f = none := by
  induction fields generalizing total f with
  | nil =>
    refine absurd ?_ h
    rintro before info after heq
    simp at heq
  | cons info fields ih =>
    by_cases hfirst : 0 < info.size.toNat → info.size.toNat ≤ maxStringSize → info.size.toNat ≤ total
    · have hrest : ¬(Fillable lex info → EndsWithin lex fields (total - (info.size.toNat + 2))) := fun hr =>
        h (endsWithin_cons.mpr ⟨hfirst, hr⟩)
      obtain ⟨⟨hmax, str, data, hstr, hd⟩, hpast⟩ := Classical.not_imp.mp hrest
      obtain ⟨rest, hlen, hnone⟩ := ih hpast (f.set info.name data)
      have hsize : info.size.toNat ≤ total := by
        by_cases hpos : 0 < info.size.toNat
        · exact hfirst hpos hmax
        · omega
      -- the field, its line end as far as the buffer goes, and the rest
      let lineEnd : Bytes := List.replicate (min 2 (total - info.size.toNat)) 0
      have hlineEnd : lineEnd.length = min 2 (total - info.size.toNat) := List.length_replicate
      refine ⟨str ++ (lineEnd ++ rest), by simp only [List.length_append]; omega, ?_⟩
      have htake : (str ++ (lineEnd ++ rest)).take info.size.toNat = str := by
        rw [← hstr, List.take_left]
      have hdrop : (str ++ (lineEnd ++ rest)).drop (info.size.toNat + 2) = rest := by
        rw [← hstr, List.drop_length_add_append]
        by_cases htwo : lineEnd.length = 2
        · rw [← htwo, List.drop_left]
        · have hnil : rest = [] := List.length_eq_zero_iff.mp (by omega)
          rw [hnil, List.append_nil, List.drop_of_length_le (by omega)]
      rw [extractFieldsFromBuffer, if_neg (by omega), if_neg (by simp only [List.length_append]; omega), htake, hd]
      simp only [hdrop]
      exact hnone
    · obtain ⟨-, hrest⟩ := Classical.not_imp.mp hfirst
      obtain ⟨hmax, hlong⟩ := Classical.not_imp.mp hrest
      refine ⟨List.replicate total 0, List.length_replicate, ?_⟩
      rw [extractFieldsFromBuffer, if_neg (by omega), if_pos (by rw [List.length_replicate]; omega)]

/-- Every buffer of the total size or more is read inside exactly if no field that is read ends behind the total. With
sizes that do not add up to 2^64, none does. -/
theorem reads_inside_iff {params : List Bytes} {size : UInt64} (h : extractFields lex params = .ok (fields, size)) :
    ((∀ (buffer : Bytes) (f : Fields), size.toNat ≤ buffer.length →
        extractFieldsFromBuffer lex fields buffer f ≠ none) ↔ EndsWithin lex fields size.toNat) ∧
      (span fields < 2 ^ 64 → EndsWithin lex fields size.toNat) := by
  refine ⟨⟨fun hall => ?_, fun h buffer f hlen => reads_inside h hlen f⟩, fun hspan => ?_⟩
  · by_contra hnot
    obtain ⟨buffer, hlen, hnone⟩ := exists_read_past hnot {}
    exact hall buffer {} hlen.ge hnone
  · have htotal : size.toNat = span fields := (extractFields_total h).trans (Nat.mod_eq_of_lt hspan)
    rw [htotal]
    exact endsWithin_span fields

theorem reads_inside_key :
    extractFieldsFromBuffer .digits [⟨ascii "key", ascii "string", 3⟩] (ascii "abc" ++ [13, 10]) {} ≠ none := by
  have hfields : extractFields .digits [ascii "key", ascii "string", ascii "3"] =
      .ok ([⟨ascii "key", ascii "string", 3⟩], 5) := by decide +kernel
  exact (reads_inside_iff hfields).1.mpr ((reads_inside_iff hfields).2 (by decide)) _ {} (by decide)

/-- The sizes add up to 2^64, so no data is asked for, and the key is read from an empty buffer. -/
theorem key_read_past :
    ∃ fields, extractFields .digits [ascii "key", ascii "string", ascii "100", ascii "value", ascii "string",
        ascii "18446744073709551512"] = .ok (fields, 0) ∧
      extractFieldsFromBuffer .digits fields [] {} = none :=
  ⟨[⟨ascii "key", ascii "string", 100⟩, ⟨ascii "value", ascii "string", 18446744073709551512⟩], by decide +kernel,
    by decide +kernel⟩

end Text

end Tiodb
