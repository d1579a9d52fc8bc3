import Mathlib.Algebra.Group.Nat.Defs
import Nemo.Common.CString
import Nemo.Infra.SortedMap

/-!
# Methods, versions, header maps and requests

`String2HttpMethod` compares as many bytes as its argument has, so it takes every prefix of a name
for the name; the empty string is `DELETE`.
-/

namespace Nemo.Http

open Infra

/-! ## Methods and versions -/

/-- `HttpMethod`. -/
inductive HttpMethod
  | delete | get | head | post | put | connect | options | trace | copy | lock | mkcol | move
  | propfind | proppatch | search | unlock | bind | rebind | unbind | acl | report | mkactivity
  | checkout | merge | msearch | notify | subscribe | unsubscribe | patch | purge | mkcalendar
  | link | unlink | source
  | invalidMethod
  deriving DecidableEq, Repr

/-- `HTTP_METHOD_MAP`. -/
def httpMethodMap : List (HttpMethod × Bytes) := [
  (.delete, ascii "DELETE"), (.get, ascii "GET"), (.head, ascii "HEAD"), (.post, ascii "POST"),
  (.put, ascii "PUT"), (.connect, ascii "CONNECT"), (.options, ascii "OPTIONS"),
  (.trace, ascii "TRACE"), (.copy, ascii "COPY"), (.lock, ascii "LOCK"), (.mkcol, ascii "MKCOL"),
  (.move, ascii "MOVE"), (.propfind, ascii "PROPFIND"), (.proppatch, ascii "PROPPATCH"),
  (.search, ascii "SEARCH"), (.unlock, ascii "UNLOCK"), (.bind, ascii "BIND"),
  (.rebind, ascii "REBIND"), (.unbind, ascii "UNBIND"), (.acl, ascii "ACL"),
  (.report, ascii "REPORT"), (.mkactivity, ascii "MKACTIVITY"), (.checkout, ascii "CHECKOUT"),
  (.merge, ascii "MERGE"), (.msearch, ascii "M-SEARCH"), (.notify, ascii "NOTIFY"),
  (.subscribe, ascii "SUBSCRIBE"), (.unsubscribe, ascii "UNSUBSCRIBE"), (.patch, ascii "PATCH"),
  (.purge, ascii "PURGE"), (.mkcalendar, ascii "MKCALENDAR"), (.link, ascii "LINK"),
  (.unlink, ascii "UNLINK"), (.source, ascii "SOURCE")]

/-- `String2HttpMethod`. -/
def string2HttpMethod (method : Bytes) : HttpMethod :=
  match httpMethodMap.find? fun e => strncasecmp e.2 method method.length == .eq with
  | some e => e.1
  | none => .invalidMethod

example : string2HttpMethod (ascii "GET") = .get ∧ string2HttpMethod (ascii "T") = .trace ∧
    string2HttpMethod [] = .delete ∧ string2HttpMethod (ascii "ET") = .invalidMethod := by
  decide

/-- `HttpVersion`, without `HTTP20`, which nothing sets. -/
inductive HttpVersion
  | http10 | http11
  deriving DecidableEq, Repr

/-- The test of `OnRequestVersion` and `OnResponseVersion`. `length - 1` is a `size_t`. -/
def versionOf (text : Bytes) (length : Nat) : Option HttpVersion :=
  let n := if length = 0 then 2 ^ 64 - 1 else length - 1
  if strncmp text (ascii "HTTP/1.") n = .eq then
    let last := text.getD n 0
    if last = 49 then some .http11 else if last = 48 then some .http10 else none
  else none

/-! ## Header maps -/

/-- `CaseInsensitiveLess`. -/
def caseInsensitiveLess (lhs rhs : Bytes) : Bool := strcasecmp lhs rhs == .lt

theorem caseInsensitiveLess_trans (a b c : Bytes) (h : caseInsensitiveLess a b = true)
    (h' : caseInsensitiveLess b c = true) : caseInsensitiveLess a c = true := by
  simp only [caseInsensitiveLess, beq_iff_eq] at h h' ⊢
  exact compareBytes_lt_trans h h'

theorem caseInsensitiveLess_order : SortedMap.Order caseInsensitiveLess where
  irrefl a := by
    have heq : strcasecmp a a = .eq := compareBytes_eq_iff.mpr rfl
    simp [caseInsensitiveLess, heq]
  trans := caseInsensitiveLess_trans
  between a b c h := by
    simp only [caseInsensitiveLess, beq_iff_eq] at h ⊢
    exact compareBytes_lt_between _ h

/-- `MapType`. -/
abbrev HeaderMap := SortedMap caseInsensitiveLess Bytes

/-- `headers_[key] = val`. -/
def HeaderMap.setHeader (headers : HeaderMap) (key val : Bytes) : HeaderMap :=
  headers.set caseInsensitiveLess_trans key val

/-- `headers_` after a list of assignments. -/
def HeaderMap.setHeaders (headers : HeaderMap) (fields : List (Bytes × Bytes)) : HeaderMap :=
  fields.foldl (fun m f => m.setHeader f.1 f.2) headers

/-- The entry that a list of header lines makes for a name: its first spelling and its last value. -/
def headerOf (name : Bytes) (fields : List (Bytes × Bytes)) : Option (Bytes × Bytes) :=
  let named := fields.filter fun f => SortedMap.same caseInsensitiveLess f.1 name
  named.head?.bind fun f => named.getLast?.map fun f' => (f.1, f'.2)

/-- Header lines make the same map if they make the same of every name. -/
theorem setHeaders_eq_iff {fields fields' : List (Bytes × Bytes)} :
    HeaderMap.setHeaders .empty fields = HeaderMap.setHeaders .empty fields' ↔
      ∀ name, headerOf name fields = headerOf name fields' := by
  have hentry : ∀ name (fs : List (Bytes × Bytes)),
      (HeaderMap.setHeaders .empty fs).entry name = headerOf name fs :=
    fun name fs => SortedMap.entry_foldl_set caseInsensitiveLess_order name fs
  constructor
  · intro h name
    rw [← hentry, ← hentry, h]
  · intro h
    refine SortedMap.ext_entry caseInsensitiveLess_order fun name => ?_
    rw [hentry, hentry, h]

/-- `GetAs<size_t>`, with `0` for the default value. -/
def HeaderMap.getAsSize (lexicalCast : Bytes → Option (Fin (2 ^ 64))) (headers : HeaderMap)
    (key : Bytes) : Nat :=
  match headers.find key with
  | none => 0
  | some val =>
    match lexicalCast val with
    | some n => n
    | none => 0

/-! ## Requests -/

/-- `HttpRequest`, as far as the parser and `init` write it. -/
structure HttpRequest where
  method : HttpMethod := .get
  version : HttpVersion := .http11
  close : Bool := true
  path : Bytes := ascii "/"
  query : Bytes := []
  fragment : Bytes := []
  body : Bytes := []
  headers : HeaderMap := .empty

/-- `HttpRequest::init`. -/
def HttpRequest.init (request : HttpRequest) : HttpRequest :=
  let connection := (request.headers.find (ascii "connection")).getD []
  if connection.isEmpty then request
  else { request with close := strcasecmp connection (ascii "keep-alive") != .eq }

end Nemo.Http
