import Nemo.Http.Http11Parser
import Nemo.Http.Message
import Nemo.Net.SocketStream

/-!
# `HttpRequestParser` and `HttpSession::recvRequest`

The callbacks of the parser fill the request. What is outside of the model is in `Env`: the conversion
of a header to a number, the size of the buffer, and the two members of `http_parser` that nothing
initialises.
-/

namespace Nemo.Http

open Net

/-- What the parsers and the sessions take from elsewhere. -/
structure Env where
  /-- `boost::lexical_cast<size_t>` of a header -/
  lexicalCast : Bytes → Option (Fin (2 ^ 64))
  /-- `http.request.buffer_size` -/
  buffSize : Nat
  buffSize_pos : 0 < buffSize
  /-- the source converts the size to `int` -/
  buffSize_le : buffSize ≤ intMax
  uriRelaxed : Bool
  queryStart : Nat

/-! ## Callbacks -/

/-- `HttpParserError`, as far as it is set. -/
inductive HttpParserError
  | ok | invalidMethod | invalidVersion
  deriving DecidableEq, Repr

/-- The request and the error of a parser, which the callbacks write. -/
abbrev Filling := HttpRequest × HttpParserError

def onRequestMethod (text : Bytes) : Filling → Filling
  | (request, error) =>
    match string2HttpMethod text with
    | .invalidMethod => (request, .invalidMethod)
    | method => ({ request with method := method }, error)

def onRequestVersion (text : Bytes) (length : Nat) : Filling → Filling
  | (request, error) =>
    match versionOf text length with
    | some version => ({ request with version := version }, error)
    | none => (request, .invalidVersion)

/-- `OnRequestHttpField`: a field whose name has length zero is left out. -/
def onRequestHttpField (field : Bytes) (flen : Nat) (value : Bytes) (vlen : Nat) :
    Filling → Option Filling
  | (request, error) =>
    if flen = 0 then some (request, error)
    else do
      let key ← stringArg field flen
      let val ← stringArg value vlen
      some ({ request with headers := request.headers.setHeader key val }, error)

/-- One callback. `none` if it throws. -/
def onReport : Report Element → Filling → Option Filling
  | .element .requestMethod text length, f => (stringArg text length).map (onRequestMethod · f)
  | .element .requestUri _ _, f => some f
  | .element .fragment text length, (request, error) =>
    (stringArg text length).map fun s => ({ request with fragment := s }, error)
  | .element .requestPath text length, (request, error) =>
    (stringArg text length).map fun s => ({ request with path := s }, error)
  | .element .queryString text length, (request, error) =>
    (stringArg text length).map fun s => ({ request with query := s }, error)
  | .element .httpVersion text length, f => some (onRequestVersion text length f)
  | .element .headerDone _ _, f => some f
  | .field name flen value vlen, f => onRequestHttpField name flen value vlen f

/-- The callbacks in their order. -/
def onReports (reports : List (Report Element)) (f : Filling) : Option Filling :=
  reports.foldlM (fun f r => onReport r f) f

/-! ## The parser -/

structure HttpRequestParser where
  parser : HttpParser
  request : HttpRequest
  error : HttpParserError

namespace HttpRequestParser

/-- The constructor. -/
def new (env : Env) : HttpRequestParser where
  parser := httpParserInit env.uriRelaxed env.queryStart
  request := {}
  error := .ok

/--
`execute`: the parser, the bytes that stay in `data`, and the number of bytes that were parsed. `none` if
an assertion fails or a callback throws.
-/
def execute (p : HttpRequestParser) (data : Bytes) : Option (HttpRequestParser × Bytes × Nat) := do
  let (parser, reports, offset) ← httpParserExecute p.parser data
  let (request, error) ← onReports reports (p.request, p.error)
  some (⟨parser, request, error⟩, data.drop offset, offset)

def hasError (p : HttpRequestParser) : Bool := p.error != .ok || p.parser.hasError

def isFinished (p : HttpRequestParser) : Int := httpParserFinish p.parser

def getContentLength (env : Env) (p : HttpRequestParser) : Nat :=
  p.request.headers.getAsSize env.lexicalCast (ascii "content-length")

end HttpRequestParser

/-! ## `recvRequest` -/

/-- What a receiving function comes to. -/
inductive Received (α : Type)
  /-- a message, and the bytes that have not been read -/
  | message (a : α) (rest : Stream)
  /-- `nullptr`; the connection is closed -/
  | null
  /-- an assertion has failed or an exception has left the function -/
  | fault

/--
The loop that reads the head: the parser, and the bytes that are held in `data`. Every round reads a
byte at least, which is what bounds the rounds.
-/
def recvHead (env : Env) : Nat → HttpRequestParser → Bytes → Stream →
    Received (HttpRequestParser × Bytes)
  | 0, _, _, _ => .null
  | fuel + 1, p, held, stream =>
    let (bytes, stream) := read (env.buffSize - held.length) stream
    if bytes.isEmpty then .null
    else
      let data := held ++ bytes
      match p.execute data with
      | none => .fault
      | some (p, held, nparse) =>
        if p.hasError then .null
        else
          let offset := data.length - nparse
          if (offset : Int) = toInt32 env.buffSize then .null
          else if p.isFinished ≠ 0 then .message (p, held) stream
          else recvHead env fuel p held stream

/-- The body: what is held of it, and what is still to be read. -/
def recvBody (bodyLen : Int) (held : Bytes) (stream : Stream) : Option (Bytes × Stream) :=
  let len := min (held.length : Int) bodyLen
  let bodyLen := bodyLen - held.length
  if bodyLen > 0 then
    let (bytes, stream) := readFixSize bodyLen.toNat stream
    bytes.map fun bytes => (held.take len.toNat ++ bytes, stream)
  else some (held.take len.toNat, stream)

/-- `HttpSession::recvRequest`. -/
def recvRequest (env : Env) (stream : Stream) : Received HttpRequest :=
  match recvHead env (stream.flatten.length + 1) (.new env) [] stream with
  | .null => .null
  | .fault => .fault
  | .message (p, held) stream =>
    let bodyLen := toInt64 (p.getContentLength env)
    if bodyLen > 0 then
      match recvBody bodyLen held stream with
      | none => .null
      | some (body, stream) => .message { p.request with body := body }.init stream
    else .message p.request.init stream

end Nemo.Http
