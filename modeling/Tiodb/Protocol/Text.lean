import Mathlib.Algebra.GroupWithZero.Nat
import Tiodb.Data

/-!
# Text commands

`Command.cpp`, and the field sets of `TioTcpProtocol.h` and `TioTcpServer.cpp`: after
the handle, a data command has a name, a type and a size for each field, and the
fields follow the line.
-/

namespace Tiodb

/-- A command with its data buffer, which is empty until the data is read. -/
structure Command where
  command : Bytes
  params : List Bytes
  data : Bytes := []
  deriving DecidableEq, Repr

namespace Command

/-- `Parse`: a C string, split at every blank. -/
def parse (source : Bytes) : Command :=
  match (cstr source).splitOn 32 with
  | command :: params => { command, params }
  | [] => { command := [], params := [] }

/-- `IsHttp` -/
def isHttp (cmd : Command) : Bool := cmd.params.getLast? = some (ascii "HTTP/1.1")

end Command

/-- `FieldInfo` -/
structure FieldInfo where
  name : Bytes
  type : Bytes
  size : UInt64
  deriving DecidableEq, Repr

/-- The three data of a command or an event. -/
structure Fields where
  key : TioData := .none
  value : TioData := .none
  metadata : TioData := .none
  deriving DecidableEq, Repr

def Fields.set (f : Fields) (name : Bytes) (data : TioData) : Fields :=
  if name = ascii "key" then { f with key := data }
  else if name = ascii "value" then { f with value := data }
  else if name = ascii "metadata" then { f with metadata := data }
  else f

namespace Text

variable (lex : LexicalCast)

def isValidFieldName (name : Bytes) : Bool :=
  name = ascii "key" || name = ascii "value" || name = ascii "metadata"

/-- `ExtractFieldSet` of the header: the fields, and the bytes they take with their line ends. -/
def extractFields : List Bytes → Except Exc (List FieldInfo × UInt64)
  | [] => .ok ([], 0)
  | [name] =>
    if isValidFieldName name then .error (invalidArgument "invalid number of parameters")
    else .error (invalidArgument "invalid field name")
  | [name, _] =>
    if isValidFieldName name then .error (invalidArgument "invalid number of parameters")
    else .error (invalidArgument "invalid field name")
  | name :: type :: size :: params =>
    if isValidFieldName name then
      match lex.toSize size with
      | none => .error badLexicalCast
      | some n =>
        match extractFields params with
        | .error e => .error e
        | .ok (fields, total) => .ok (⟨name, type, n⟩ :: fields, n + 2 + total)
    else .error (invalidArgument "invalid field name")

/-- `SetTioData` -/
def setTioData (type str : Bytes) : Except Exc TioData :=
  if type = ascii "int" then
    match lex.toInt str with
    | some i => .ok (.int i)
    | none => .error badLexicalCast
  else if type = ascii "double" then
    match lex.toDouble str with
    | some bits => .ok (.double bits)
    | none => .error badLexicalCast
  else if type = ascii "string" then .ok (.string str)
  else .error (invalidArgument "invalid data type")

/-- `std::string::max_size()` -/
def maxStringSize : Nat := 2 ^ 63 - 1

/-- The loop of `ExtractFieldsFromBuffer`. A string that is too large is refused before it is read. `none` is a read
past the end of the buffer. -/
def extractFieldsFromBuffer : List FieldInfo → Bytes → Fields → Option (Except Exc Fields)
  | [], _, f => some (.ok f)
  | info :: fields, buffer, f =>
    if maxStringSize < info.size.toNat then some (.error ⟨.lengthError, ascii "basic_string::_M_create"⟩)
    else if buffer.length < info.size.toNat then none
    else
      match setTioData lex info.type (buffer.take info.size.toNat) with
      | .error e => some (.error e)
      | .ok data => extractFieldsFromBuffer fields (buffer.drop (info.size.toNat + 2)) (f.set info.name data)

/-- `ExtractFieldSet` asks for as many bytes of data, or gives the fields. -/
inductive Parsed where
  | needs (size : UInt64)
  | fields (f : Fields)
  deriving DecidableEq, Repr

/-- `ExtractFieldSet` with a buffer. -/
def extractFieldSet (params : List Bytes) (buffer : Bytes) : Option (Except Exc Parsed) :=
  match extractFields lex params with
  | .error e => some (.error e)
  | .ok (fields, fieldsTotalSize) =>
    if buffer.length < fieldsTotalSize.toNat then some (.ok (.needs fieldsTotalSize))
    else (extractFieldsFromBuffer lex fields buffer {}).map (Except.map Parsed.fields)

/-! ## What a command declares -/

variable {lex}

theorem extractFields_total {params : List Bytes} {fields : List FieldInfo} {total : UInt64}
    (h : extractFields lex params = .ok (fields, total)) :
    total.toNat = (fields.map fun f => f.size.toNat + 2).sum % 2 ^ 64 := by
  fun_induction extractFields lex params generalizing fields total with
  | case1 =>
    cases h
    rfl
  | case8 name type size params hname n hn fields' total' hrest ih =>
    cases h
    rw [List.map_cons, List.sum_cons, UInt64.toNat_add, UInt64.toNat_add, ih hrest]
    simp [Nat.add_mod]
  | _ => cases h

theorem extractFields_length {params : List Bytes} {fields : List FieldInfo} {total : UInt64}
    (h : extractFields lex params = .ok (fields, total)) : params.length = 3 * fields.length := by
  fun_induction extractFields lex params generalizing fields total with
  | case1 =>
    cases h
    rfl
  | case8 name type size params hname n hn fields' total' hrest ih =>
    cases h
    have := ih hrest
    simp only [List.length_cons]
    omega
  | _ => cases h

end Text

end Tiodb
