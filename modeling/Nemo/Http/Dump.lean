import Mathlib.Data.Nat.Digits.Defs
import Nemo.Http.Lines
import Nemo.Http.Session

/-!
# `HttpRequest::dump`

A request is printed by `dump` of `src/net/http/http.cc`, without a look at what the parser takes. The
texts of a URI are those of the grammar: bytes of a class, and percent-encoded bytes.
-/

namespace Nemo.Http

open Net

/-! ## Printing -/

/-- `HttpMethod2String` -/
def httpMethod2String (method : HttpMethod) : Bytes :=
  match httpMethodMap.find? fun e => e.1 == method with
  | some e => e.2
  | none => ascii "<unknown>"

/-- The value of the enumerator. -/
def HttpVersion.value : HttpVersion → Nat
  | .http10 => 0x10
  | .http11 => 0x11

/-- `operator<<` for unsigned numbers -/
def toDecimal (n : Nat) : Bytes :=
  if n = 0 then [48] else (Nat.digits 10 n).reverse.map fun d => UInt8.ofNat (48 + d)

/-- A header line. -/
def headerLine (name value : Bytes) : Bytes := name ++ ascii ": " ++ value ++ ascii "\r\n"

namespace HttpRequest

variable (r : HttpRequest)

/-- The test of `dump` for a header that it leaves out. -/
def isConnection (name : Bytes) : Bool :=
  strncasecmp name (ascii "connection") name.length == .eq

/-- The value that `dump` gives to `connection`. -/
def connection : Bytes := if r.close then ascii "close" else ascii "keep-alive"

/-- `dump`, for a request whose `webSocket_` is given -/
def dump (webSocket : Bool) : Bytes :=
  httpMethod2String r.method ++ ascii " " ++
  r.path ++
  (if r.query.isEmpty then [] else ascii "?") ++
  r.query ++
  (if r.fragment.isEmpty then [] else ascii "#") ++
  r.fragment ++
  ascii " HTTP/" ++
  toDecimal (r.version.value >>> 4) ++
  ascii "." ++
  toDecimal (r.version.value &&& 0x0F) ++
  ascii "\r\n" ++
  (if webSocket then [] else headerLine (ascii "connection") r.connection) ++
  (r.headers.entries.flatMap fun header =>
    if !webSocket && isConnection header.1 then [] else headerLine header.1 header.2) ++
  (if r.body.isEmpty then ascii "\r\n"
  else headerLine (ascii "content-length") (toDecimal r.body.length) ++ ascii "\r\n" ++ r.body)

/-- `toString`, with `webSocket_` false -/
def toString : Bytes := r.dump false

end HttpRequest

/-! ## The texts of the grammar -/

/-- Bytes of a class and percent-encoded bytes. -/
inductive Text (uriRelaxed : Bool) (c : Class) : Bytes → Prop
  | nil : Text uriRelaxed c []
  | char {b : UInt8} {rest : Bytes} (hb : c.contains uriRelaxed b = true)
      (h : Text uriRelaxed c rest) : Text uriRelaxed c (b :: rest)
  | pct {h l : UInt8} {rest : Bytes} (hh : xdigit.contains uriRelaxed h = true)
      (hl : xdigit.contains uriRelaxed l = true) (ht : Text uriRelaxed c rest) :
      Text uriRelaxed c (37 :: h :: l :: rest)

/-- `authority`, without the literals in brackets: `userinfo "@"`, a registered name, and `":" port`. -/
def IsAuthority (uriRelaxed : Bool) (text : Bytes) : Prop :=
  ∃ user host port, text = user ++ host ++ port ∧
    (user = [] ∨ ∃ t, Text uriRelaxed userinfo t ∧ user = t ++ [64]) ∧
    Text uriRelaxed regName host ∧
    (port = [] ∨ ∃ digits, (∀ b ∈ digits, digit.contains uriRelaxed b = true) ∧ port = 58 :: digits)

/-- Behind `//` there is an authority. -/
def HasAuthority (uriRelaxed : Bool) (path : Bytes) : Prop :=
  ∀ rest, path = 47 :: 47 :: rest →
    ∃ authority segments, rest = authority ++ segments ∧ IsAuthority uriRelaxed authority ∧
      (segments = [] ∨ segments.head? = some 47)

namespace HttpRequest

/-- What the round trip is about: members that are texts of the grammar, and headers that are tokens with
printable values. -/
structure Printable (uriRelaxed : Bool) (r : HttpRequest) : Prop where
  path : ∃ rest, r.path = 47 :: rest ∧ Text uriRelaxed pathChar rest
  query : Text uriRelaxed queryChar r.query
  fragment : Text uriRelaxed queryChar r.fragment
  name : ∀ header ∈ r.headers.entries,
    header.1 ≠ [] ∧ ∀ b ∈ header.1, tokenChar.contains uriRelaxed b = true
  reserved : ∀ header ∈ r.headers.entries, strcasecmp header.1 (ascii "connection") ≠ .eq ∧
    strcasecmp header.1 (ascii "content-length") ≠ .eq
  value : ∀ header ∈ r.headers.entries,
    (∀ b ∈ header.2, isControl b = false) ∧ header.2.head? ≠ some 32

/-- The headers, and those that `dump` adds. -/
def sentHeaders (r : HttpRequest) : HeaderMap :=
  let headers := r.headers.setHeader (ascii "connection") r.connection
  if r.body.isEmpty then headers
  else headers.setHeader (ascii "content-length") (toDecimal r.body.length)

/-- `recvRequest` returns the request that has been printed. -/
def RoundTrips (env : Env) (r : HttpRequest) : Prop :=
  ∃ rest, recvRequest env [r.toString] = .message { r with headers := r.sentHeaders } rest

/-- What the parser does not take: `M-SEARCH`, a path that begins with `//` and no authority, headers whose
name is a beginning of `connection`, and a body whose rest behind the first read no `int` counts. -/
structure Survives (env : Env) (r : HttpRequest) : Prop where
  method : r.method ≠ .msearch ∧ r.method ≠ .invalidMethod
  path : HasAuthority env.uriRelaxed r.path
  headers : ∀ header ∈ r.headers.entries, isConnection header.1 = false
  body : env.buffSize < r.toString.length → 0 < toInt32 (r.toString.length - env.buffSize : Nat)

/-- The head is within the buffer. -/
def HeadFits (env : Env) (r : HttpRequest) : Prop := r.toString.length - r.body.length ≤ env.buffSize

end HttpRequest

/-- `lexical_cast` of a number that was printed. -/
def CastsDecimals (env : Env) : Prop :=
  ∀ n : Fin (2 ^ 64), env.lexicalCast (toDecimal n) = some n

example : ({ path := ascii "/a", query := ascii "b", body := ascii "hi" } : HttpRequest).toString =
    ascii "GET /a?b HTTP/1.1\r\nconnection: close\r\ncontent-length: 2\r\n\r\nhi" := by
  decide +kernel

end Nemo.Http
