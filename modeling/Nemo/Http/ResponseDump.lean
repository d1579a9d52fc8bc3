import Nemo.Http.HttpConnection
import Nemo.Http.RoundTrip

/-!
# `HttpResponse::dump`

A response is printed by `dump` of `src/net/http/http.cc`: the status line, the headers, and at the end the
headers that `dump` adds.
-/

namespace Nemo.Http

open Net

/-! ## The status -/

/-- `HTTP_STATUS_MAP` -/
def httpStatusMap : List (HttpStatus × Bytes) := [
  (100, ascii "Continue"), (101, ascii "Switching Protocols"), (102, ascii "Processing"),
  (200, ascii "OK"), (201, ascii "Created"), (202, ascii "Accepted"),
  (203, ascii "Non-Authoritative Information"), (204, ascii "No Content"),
  (205, ascii "Reset Content"), (206, ascii "Partial Content"), (207, ascii "Multi-Status"),
  (208, ascii "Already Reported"), (226, ascii "IM Used"), (300, ascii "Multiple Choices"),
  (301, ascii "Moved Permanently"), (302, ascii "Found"), (303, ascii "See Other"),
  (304, ascii "Not Modified"), (305, ascii "Use Proxy"), (307, ascii "Temporary Redirect"),
  (308, ascii "Permanent Redirect"), (400, ascii "Bad Request"), (401, ascii "Unauthorized"),
  (402, ascii "Payment Required"), (403, ascii "Forbidden"), (404, ascii "Not Found"),
  (405, ascii "Method Not Allowed"), (406, ascii "Not Acceptable"),
  (407, ascii "Proxy Authentication Required"), (408, ascii "Request Timeout"),
  (409, ascii "Conflict"), (410, ascii "Gone"), (411, ascii "Length Required"),
  (412, ascii "Precondition Failed"), (413, ascii "Payload Too Large"),
  (414, ascii "URI Too Long"), (415, ascii "Unsupported Media Type"),
  (416, ascii "Range Not Satisfiable"), (417, ascii "Expectation Failed"),
  (421, ascii "Misdirected Request"), (422, ascii "Unprocessable Entity"), (423, ascii "Locked"),
  (424, ascii "Failed Dependency"), (426, ascii "Upgrade Required"),
  (428, ascii "Precondition Required"), (429, ascii "Too Many Requests"),
  (431, ascii "Request Header Fields Too Large"), (451, ascii "Unavailable For Legal Reasons"),
  (500, ascii "Internal Server Error"), (501, ascii "Not Implemented"), (502, ascii "Bad Gateway"),
  (503, ascii "Service Unavailable"), (504, ascii "Gateway Timeout"),
  (505, ascii "HTTP Version Not Supported"), (506, ascii "Variant Also Negotiates"),
  (507, ascii "Insufficient Storage"), (508, ascii "Loop Detected"), (510, ascii "Not Extended"),
  (511, ascii "Network Authentication Required")]

/-- `HttpStatus2String` -/
def httpStatus2String (status : HttpStatus) : Bytes :=
  match httpStatusMap.lookup status with
  | some msg => msg
  | none => ascii "<unknown>"

/-- `(uint32_t)status` -/
def HttpStatus.value (status : HttpStatus) : Nat := (status.toInt % 2 ^ 32).toNat

namespace HttpResponse

variable (r : HttpResponse)

/-! ## Printing -/

/-- The value that `dump` gives to `connection`. -/
def connection : Bytes := if r.close then ascii "close" else ascii "keep-alive"

/-- The reason that `dump` prints. -/
def printedReason : Bytes := if r.reason.isEmpty then httpStatus2String r.status else r.reason

def dump : Bytes :=
  ascii "HTTP/" ++
  toDecimal (r.version.value >>> 4) ++
  ascii "." ++
  toDecimal (r.version.value &&& 0x0F) ++
  ascii " " ++
  toDecimal (HttpStatus.value r.status) ++
  ascii " " ++
  r.printedReason ++
  ascii "\r\n" ++
  (r.headers.entries.flatMap fun header =>
    if !r.webSocket && strcasecmp header.1 (ascii "connection") == .eq then []
    else headerLine header.1 header.2) ++
  (r.cookies.flatMap fun cookie => headerLine (ascii "Set-Cookie") cookie) ++
  (if r.webSocket then [] else headerLine (ascii "connection") r.connection) ++
  (if r.body.isEmpty then ascii "\r\n"
  else headerLine (ascii "content-length") (toDecimal r.body.length) ++ ascii "\r\n" ++ r.body)

def toString : Bytes := r.dump

/-! ## The round trip -/

/-- A byte of a reason or a value. -/
def NotLineEnd (b : UInt8) : Prop := b ≠ 10 ∧ b ≠ 13

instance (b : UInt8) : Decidable (NotLineEnd b) := inferInstanceAs (Decidable (_ ∧ _))

/-- The headers with a meaning of their own. -/
def reservedNames : List Bytes :=
  [ascii "connection", ascii "content-length", ascii "transfer-encoding", ascii "set-cookie"]

/-- What the round trip is about. -/
structure Printable : Prop where
  webSocket : r.webSocket = false
  cookies : r.cookies = []
  reason : ∀ b ∈ r.reason, NotLineEnd b
  name : ∀ header ∈ r.headers.entries,
    header.1 ≠ [] ∧ ∀ b ∈ header.1, tokenChar.contains false b = true
  reserved : ∀ header ∈ r.headers.entries, ∀ name ∈ reservedNames, strcasecmp header.1 name ≠ .eq
  value : ∀ header ∈ r.headers.entries,
    (∀ b ∈ header.2, NotLineEnd b) ∧ ∀ b, header.2.head? = some b → isspace b = false

/-- The headers that `dump` adds. -/
def ownFields : List (Bytes × Bytes) :=
  (ascii "connection", r.connection) ::
    if r.body.isEmpty then [] else [(ascii "content-length", toDecimal r.body.length)]

/-- The response that is received: it does not say whether the connection is closed. -/
def received : HttpResponse where
  status := r.status
  version := r.version
  reason := r.printedReason
  headers := r.headers.setHeaders r.ownFields
  body := r.body

/-- `recvResponse` returns the response that has been printed. -/
def RoundTrips (env : Env) : Prop :=
  ∃ rest, Client.recvResponse env [r.toString] = .message r.received rest

/-- The head is within the buffer. -/
def HeadFits (env : Env) : Prop := r.toString.length - r.body.length ≤ env.buffSize

/-- What the first read leaves has a length that an `int` can hold. -/
def Counted (env : Env) : Prop :=
  env.buffSize < r.toString.length → 0 < toInt32 (r.toString.length - env.buffSize : Nat)

end HttpResponse

example : ({ status := 404, close := false, body := ascii "hi" } : HttpResponse).toString =
    ascii "HTTP/1.1 404 Not Found\r\nconnection: keep-alive\r\ncontent-length: 2\r\n\r\nhi" := by
  decide +kernel

end Nemo.Http
