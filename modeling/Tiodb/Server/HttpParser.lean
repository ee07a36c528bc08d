import Mathlib.Data.List.Perm.Subperm
import Mathlib.Data.List.Infix
import Mathlib.Algebra.BigOperators.Group.List.Basic
import Tiodb.Data
import Tiodb.Lib.Spans
import Tiodb.Lib.Tables

/-!
# Requests over HTTP

`HttpParser.h`: the callbacks that `http_parser` runs while it is fed the bytes of a
request, and the message they put together. `OnReadHttpCommand` of
`TioTcpSession.cpp` feeds it what each read gave.
-/

namespace Tiodb

open Lib

/-- What `OnMessageComplete` tells apart of the methods that `http_parser` knows. -/
inductive HttpMethod where
  | get
  | post
  | delete
  | patch
  | other
  deriving DecidableEq, Repr

structure HttpMessage where
  method : Bytes := []
  url : Bytes := []
  headers : StringMap Bytes := ∅

inductive Callback where
  | onUrl
  | onHeaderField
  | onHeaderValue
  deriving DecidableEq, Repr

structure HttpParser where
  finished : Bool := false
  nextHeaderName : Bytes := []
  currentMessage : HttpMessage := {}

namespace HttpParser

def reset : HttpParser := {}

def setNextHeaderName (p : HttpParser) (str : Bytes) : HttpParser := { p with nextHeaderName := str }

def setUrl (p : HttpParser) (str : Bytes) : HttpParser :=
  { p with currentMessage := { p.currentMessage with url := str } }

def setNextHeaderValue (p : HttpParser) (str : Bytes) : HttpParser :=
  { p with currentMessage := { p.currentMessage with
      headers := p.currentMessage.headers.insert p.nextHeaderName str } }

def onData (p : HttpParser) : Callback × Bytes → HttpParser
  | (.onUrl, str) => p.setUrl str
  | (.onHeaderField, str) => p.setNextHeaderName str
  | (.onHeaderValue, str) => p.setNextHeaderValue str

def methodName : HttpMethod → Option Bytes
  | .get => some (ascii "GET")
  | .post => some (ascii "POST")
  | .delete => some (ascii "DELETE")
  | .patch => some (ascii "PATCH")
  | .other => none

def onMessageComplete (p : HttpParser) (method : HttpMethod) : HttpParser :=
  { p with
    finished := true
    currentMessage := { p.currentMessage with method := (methodName method).getD p.currentMessage.method } }

/-- A valid request as `http_parser` sees it: its bytes, in which the URL, the header names and the header values are
marked, and the method. A request ends with an empty line or with a body. -/
structure Request where
  method : HttpMethod
  spans : List (Span Callback UInt8)
  nonempty : spans ≠ []
  closed : Span.Closed spans

/-- The parser, and the bytes that `http_parser` has not seen. With the last of them the message is complete. -/
abbrev Feeding := HttpParser × List (Span Callback UInt8)

/-- `FeedBytes`, which asserts that the message is not complete. `http_parser` reports what each call has of a marked
span. Its code does so also in the call that begins with the byte behind the span, with no bytes: this is `again`. -/
def feedBytes (again : Bool) (method : HttpMethod) (s : Feeding) (len : Nat) : Option Feeding :=
  if s.1.finished then none
  else
    let fed := Span.cut again len s.2
    let p := (Span.reports fed.1).foldl onData s.1
    some (if fed.2.isEmpty then p.onMessageComplete method else p, fed.2)

/-- The message after calls of `FeedBytes` with so many bytes each. -/
def message (again : Bool) (r : Request) (calls : List Nat) : Option HttpMessage :=
  (calls.foldlM (feedBytes again r.method) (reset, r.spans)).map fun s => s.1.currentMessage

/-- The calls feed all the bytes of the request, and none of them nothing, which `http_parser` takes for the end. -/
structure Request.Split (r : Request) (calls : List Nat) : Prop where
  pos : ∀ n ∈ calls, 0 < n
  sum : calls.sum = Span.size r.spans

/-! ## The last report of each span -/

theorem onData_over (p : HttpParser) (k : Callback) (a b : Bytes) :
    (p.onData (k, a)).onData (k, b) = p.onData (k, b) := by
  cases k with
  | onUrl => rfl
  | onHeaderField => rfl
  | onHeaderValue => simp only [onData, setNextHeaderValue, insert_insert]

theorem finished_onData (p : HttpParser) (reports : List (Callback × Bytes)) :
    (reports.foldl onData p).finished = p.finished := by
  induction reports generalizing p with
  | nil => rfl
  | cons report reports ih =>
    rw [List.foldl_cons, ih]
    obtain ⟨k, str⟩ := report
    cases k <;> rfl

/-- The calls report what `http_parser` has to report, and the last completes the message. -/
theorem feedBytes_calls {again : Bool} {method : HttpMethod} {calls : List Nat} {p : HttpParser}
    {spans : List (Span Callback UInt8)} (hp : p.finished = false) (hne : spans ≠ []) (hclosed : Span.Closed spans)
    (hpos : ∀ n ∈ calls, 0 < n) (hsum : calls.sum = Span.size spans) :
    calls.foldlM (feedBytes again method) (p, spans) =
      some (((Span.feed again calls spans).foldl onData p).onMessageComplete method, []) := by
  induction calls generalizing p spans with
  | nil => exact absurd (hclosed.eq_nil hsum.symm) hne
  | cons n calls ih =>
    rw [List.sum_cons] at hsum
    have hsize := Span.size_cut again (show n ≤ Span.size spans by omega)
    have hclosed' := hclosed.cut again n
    rw [List.foldlM_cons, feedBytes, hp]
    simp only [Bool.false_eq_true, if_false, Option.bind_eq_bind, Option.bind_some]
    cases calls with
    | nil =>
      have hnil := hclosed'.eq_nil (by simp at hsum; omega)
      simp [hnil, Span.feed]
    | cons n' calls =>
      have hn' := hpos n' (by simp)
      have hne' : (Span.cut again n spans).2 ≠ [] := by
        intro hnil
        rw [hnil] at hsize
        simp [Span.size] at hsize hsum
        omega
      rw [List.isEmpty_eq_false_iff.mpr hne']
      simp only [Bool.false_eq_true, if_false]
      rw [ih ((finished_onData ..).trans hp) hne' hclosed' (fun m hm => hpos m (by simp [hm])) (by omega)]
      simp only [Span.feed, List.foldl_append]

theorem message_eq {again : Bool} {r : Request} {calls : List Nat} (hs : r.Split calls) :
    message again r calls =
      some (((Span.feed again calls r.spans).foldl onData reset).onMessageComplete r.method).currentMessage := by
  rw [message, feedBytes_calls rfl r.nonempty r.closed hs.pos hs.sum, Option.map_some]

/-! ## Requests with no header twice -/

/-- What is reported of a request with this URL and these headers. -/
def plain (url : Bytes) (headers : List (Bytes × Bytes)) : List (Callback × Bytes) :=
  (.onUrl, url) :: headers.flatMap fun h => [(.onHeaderField, h.1), (.onHeaderValue, h.2)]

def IsEnd (h' h : Bytes × Bytes) : Prop := h'.1 <:+ h.1 ∧ h'.2 <:+ h.2

theorem shortened_plain {kept : List (Callback × Bytes)} {url : Bytes} {headers : List (Bytes × Bytes)}
    (h : Span.Shortened kept (plain url headers)) :
    ∃ url' headers', kept = plain url' headers' ∧ List.Forall₂ IsEnd headers' headers := by
  have hheaders : ∀ (headers : List (Bytes × Bytes)) (kept : List (Callback × Bytes)),
      Span.Shortened kept (headers.flatMap fun h => [(.onHeaderField, h.1), (.onHeaderValue, h.2)]) →
      ∃ headers', kept = headers'.flatMap (fun h => [(.onHeaderField, h.1), (.onHeaderValue, h.2)]) ∧
        List.Forall₂ IsEnd headers' headers := by
    intro headers
    induction headers with
    | nil =>
      rintro kept ⟨⟩
      exact ⟨[], rfl, .nil⟩
    | cons header headers ih =>
      rintro kept (_ | @⟨⟨k, name⟩, _, _, _, ⟨rfl, hname⟩, _ | @⟨⟨k', value⟩, _, kept, _, ⟨rfl, hvalue⟩, hrest⟩⟩)
      obtain ⟨headers', rfl, hheaders'⟩ := ih kept hrest
      exact ⟨(name, value) :: headers', rfl, .cons ⟨hname, hvalue⟩ hheaders'⟩
  rcases h with _ | @⟨⟨k, url'⟩, _, kept, _, ⟨rfl, -⟩, hrest⟩
  obtain ⟨headers', rfl, hheaders'⟩ := hheaders headers kept hrest
  exact ⟨url', headers', rfl, hheaders'⟩

theorem foldl_plain (url : Bytes) (headers : List (Bytes × Bytes)) :
    ((plain url headers).foldl onData reset).currentMessage = ⟨[], url, (∅ : StringMap Bytes).insertMany headers⟩ := by
  have hheaders : ∀ (headers : List (Bytes × Bytes)) (p : HttpParser),
      ((headers.flatMap fun h => [(.onHeaderField, h.1), (.onHeaderValue, h.2)]).foldl onData p).currentMessage =
        { p.currentMessage with headers := p.currentMessage.headers.insertMany headers } := by
    intro headers
    induction headers with
    | nil => exact fun p => rfl
    | cons header headers ih =>
      intro p
      rw [List.flatMap_cons, List.foldl_append, ih, Std.ExtTreeMap.insertMany_cons]
      rfl
  exact hheaders headers _

/-- Where no name is there twice, ends of the headers only make the same map if they are the headers. -/
theorem headers_eq {headers' headers : List (Bytes × Bytes)} (h : List.Forall₂ IsEnd headers' headers)
    (hnodup : (headers.map Prod.fst).Nodup)
    (hmap : (∅ : StringMap Bytes).insertMany headers' = (∅ : StringMap Bytes).insertMany headers) :
    headers' = headers := by
  have hnames : headers'.map Prod.fst = headers.map Prod.fst := by
    have hsubset : headers.map Prod.fst ⊆ headers'.map Prod.fst := by
      intro name hname
      have hin : name ∈ (∅ : StringMap Bytes).insertMany headers := by simp [hname]
      rw [← hmap] at hin
      simpa using hin
    have hperm : (headers.map Prod.fst).Perm (headers'.map Prod.fst) :=
      (hnodup.subperm hsubset).perm_of_length_le (by simp [h.length_eq])
    refine Span.eq_of_ends ?_ (hperm.map List.length).sum_eq.symm
    exact List.forall₂_map_left_iff.mpr (List.forall₂_map_right_iff.mpr (h.imp fun _ _ he => he.1))
  have hvalues : ∀ name value value', (name, value) ∈ headers → (name, value') ∈ headers' → value' = value := by
    intro name value value' hvalue hvalue'
    have hget := getElem?_insertMany_of_mem (∅ : StringMap Bytes) hnodup hvalue
    rw [← hmap, getElem?_insertMany_of_mem (∅ : StringMap Bytes) (hnames ▸ hnodup) hvalue'] at hget
    exact Option.some.inj hget
  refine List.ext_getElem h.length_eq fun i hi' hi => ?_
  have hname : headers'[i].1 = headers[i].1 := by
    have hat := List.getElem_of_eq hnames (by simpa using hi')
    simpa using hat
  refine Prod.ext hname (hvalues headers[i].1 _ _ (List.getElem_mem hi) ?_)
  rw [← hname]
  exact List.getElem_mem hi'

/-! ## Two ways of splitting -/

/-- Two ways of splitting a valid request give the same message if neither cuts the URL, the name or the value of a
header. Against a way that cuts none, this is exactly when they do, for a request with no header twice. -/
theorem same_message_iff (again : Bool) (r : Request) {calls calls' : List Nat} (hs : r.Split calls)
    (hs' : r.Split calls') (h' : Span.Uncut again calls' r.spans) :
    (Span.Uncut again calls r.spans → ∃ m, message again r calls = some m ∧ message again r calls' = some m) ∧
    (∀ url headers, Span.reports r.spans = plain url headers → (headers.map Prod.fst).Nodup →
      message again r calls = message again r calls' → Span.Uncut again calls r.spans) := by
  obtain ⟨kept, hkept, hfold, heq⟩ := Span.feed_keeps again onData_over r.closed hs.sum
  obtain ⟨kept', -, hfold', heq'⟩ := Span.feed_keeps again onData_over r.closed hs'.sum
  rw [message_eq hs, message_eq hs', hfold, hfold', heq'.mpr h']
  constructor
  · intro h
    rw [heq.mpr h]
    exact ⟨_, rfl, rfl⟩
  · intro url headers hplain hnodup hmessage
    rw [hplain] at hkept heq hmessage
    obtain ⟨url', headers', rfl, hends⟩ := shortened_plain hkept
    have hsame := Option.some.inj hmessage
    simp only [onMessageComplete, foldl_plain, HttpMessage.mk.injEq] at hsame
    obtain ⟨-, rfl, hmap⟩ := hsame
    rw [headers_eq hends hnodup hmap] at heq
    exact heq.mp rfl

def hostRequest : Request where
  method := .get
  spans := [⟨none, ascii "GET "⟩, ⟨some .onUrl, ascii "/"⟩, ⟨none, ascii " HTTP/1.1\r\n"⟩,
    ⟨some .onHeaderField, ascii "Host"⟩, ⟨none, ascii ": "⟩, ⟨some .onHeaderValue, ascii "abcd"⟩,
    ⟨none, ascii "\r\n\r\n"⟩]
  nonempty := List.cons_ne_nil _ _
  closed := by simp [Span.Closed, ascii]

theorem hostRequest_split {calls : List Nat} (hpos : ∀ n ∈ calls, 0 < n) (hsum : calls.sum = 30) :
    hostRequest.Split calls := ⟨hpos, hsum.trans (by decide +kernel)⟩

theorem same_message_two_lines :
    ∃ m, message true hostRequest [16, 14] = some m ∧ message true hostRequest [30] = some m :=
  (same_message_iff true hostRequest (hostRequest_split (by simp) rfl) (hostRequest_split (by simp) rfl)
    (by decide +kernel)).1 (by decide +kernel)

/-- The request line, the line feed, and then the header in two calls. -/
theorem value_in_two_reads : hostRequest.Split [14, 2, 8, 6] ∧ hostRequest.Split [30] ∧
    ∀ again, message again hostRequest [14, 2, 8, 6] ≠ message again hostRequest [30] := by
  refine ⟨hostRequest_split (by simp) rfl, hostRequest_split (by simp) rfl, fun again h => ?_⟩
  have hvalue := congrArg (fun m => m.map fun m => m.headers[ascii "Host"]?) h
  revert hvalue
  cases again <;> decide +kernel

end HttpParser

end Tiodb
