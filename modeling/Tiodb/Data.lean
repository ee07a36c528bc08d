import Mathlib.Algebra.Group.Int.Defs
import Mathlib.Algebra.Group.Nat.Defs
import Mathlib.Data.List.TakeWhile
import Tiodb.Lib.Prog

/-!
# Values, events and errors

`TioData` of `Container.h` and what the storages pass around. A `std::string` is
its bytes; `int` is 32 bits and wraps; a `double` is kept as its 64 bits.
-/

namespace Tiodb

open Lib

abbrev Bytes := List UInt8

instance : LawfulBEq Bytes := inferInstance

def ascii (s : String) : Bytes := s.toList.map fun c => UInt8.ofNat c.toNat

/-- What `c_str()`, or `AsSz()`, denotes: the bytes before the first NUL. -/
def cstr (b : Bytes) : Bytes := b.takeWhile (· ≠ 0)

theorem cstr_eq_self {b : Bytes} (h : 0 ∉ b) : cstr b = b := by
  rw [cstr, List.takeWhile_eq_self_iff]
  intro x hx
  simpa using fun h0 : x = 0 => h (h0 ▸ hx)

/-- `std::map<string, T>`, in the order of the bytes of the keys. -/
abbrev StringMap (β : Type) := Std.ExtTreeMap Bytes β

/-- `TioData` of the server, and `TIO_DATA` of the C client. A string has its own size. -/
inductive TioData where
  | none
  | int (i : Int32)
  | double (bits : UInt64)
  | string (s : Bytes)
  deriving DecidableEq, Repr

/-- `boost::lexical_cast` from text to each type the server casts to; `none` is `bad_lexical_cast`. -/
structure LexicalCast where
  toInt : Bytes → Option Int32
  toUnsigned : Bytes → Option UInt32
  toSize : Bytes → Option UInt64
  toDouble : Bytes → Option UInt64

def decimal (b : Bytes) : Option Nat :=
  if b = [] ∨ ∃ c ∈ b, c < 48 ∨ 57 < c then none
  else some (b.foldl (fun n c => 10 * n + (c.toNat - 48)) 0)

/-- The casts on decimal digits, without a sign and without a fraction. -/
def LexicalCast.digits : LexicalCast where
  toInt b := (decimal b).bind fun n => if n < 2 ^ 31 then some (Int32.ofNat n) else none
  toUnsigned b := (decimal b).bind fun n => if n < 2 ^ 32 then some (UInt32.ofNat n) else none
  toSize b := (decimal b).bind fun n => if n < 2 ^ 64 then some (UInt64.ofNat n) else none
  toDouble _ := none

/-- The `std::exception` classes that some handler tells apart. -/
inductive ExcKind where
  | invalidArgument
  | runtimeError
  | outOfRange
  | lengthError
  | badLexicalCast
  deriving DecidableEq, Repr

/-- What a `throw` of the server carries. -/
structure Exc where
  kind : ExcKind
  what : Bytes
  deriving DecidableEq, Repr

def invalidArgument (what : String) : Exc := ⟨.invalidArgument, ascii what⟩

def runtimeError (what : String) : Exc := ⟨.runtimeError, ascii what⟩

/-- The exception of `boost::lexical_cast`. -/
def badLexicalCast : Exc :=
  ⟨.badLexicalCast, ascii "bad lexical cast: source type value could not be interpreted as target"⟩

namespace TioData

def isNull : TioData → Bool
  | none => true
  | _ => false

/-- `AsInt` -/
def asInt : TioData → Except Exc Int32
  | int i => .ok i
  | _ => .error (runtimeError "wrong data type")

/-- `AsSz`: the string up to its first NUL. -/
def asSz : TioData → Except Exc Bytes
  | string s => .ok (cstr s)
  | _ => .error (runtimeError "wrong data type")

@[simp] theorem asInt_int (i : Int32) : (int i).asInt = .ok i := rfl

@[simp] theorem asSz_string (s : Bytes) : (string s).asSz = .ok (cstr s) := rfl

end TioData

/-- The code of an event. -/
inductive ContainerEventCode where
  | set
  | insert
  | delete
  | clear
  | pushBack
  | pushFront
  | snapshotEnd
  deriving DecidableEq, Repr

/-- The arguments of an `EventSink` call, less the storage id. -/
structure Event where
  code : ContainerEventCode
  k : TioData
  v : TioData
  m : TioData
  deriving DecidableEq, Repr

structure ValueAndMetadata where
  value : TioData
  metadata : TioData
  deriving DecidableEq, Repr

/-- What `GetRecord` and an item of a query give. -/
structure Record where
  key : TioData
  value : TioData
  metadata : TioData
  deriving DecidableEq, Repr

end Tiodb
