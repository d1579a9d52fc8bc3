import Nemo.Http.HttpClientParser
import Nemo.Http.Session

/-!
# `HttpResponseParser` and `HttpConnection::recvResponse`

The callbacks of the parser fill the response. A response comes with the length of its body, or in chunks:
then the parser is set back before every call, and reads the chunk lines one by one.
-/

namespace Nemo.Http

open Net

/-- `HttpStatus`, an enumeration of 16 bit numbers. -/
abbrev HttpStatus := Int16

structure HttpResponse where
  status : HttpStatus := 200
  version : HttpVersion := .http11
  close : Bool := true
  webSocket : Bool := false
  body : Bytes := []
  reason : Bytes := []
  headers : HeaderMap := .empty
  cookies : List Bytes := []

namespace Client

/-! ## Callbacks -/

/-- The response and the error of a parser, which the callbacks write. -/
abbrev Filling := HttpResponse × HttpParserError

/-- `atoi`. -/
def atoi (s : Bytes) : Int := toInt32 (strtol 10 s)

def onResponseStatus (text : Bytes) : Filling → Filling
  | (response, error) => ({ response with status := Int16.ofInt (atoi text) }, error)

def onResponseVersion (text : Bytes) (length : Nat) : Filling → Filling
  | (response, error) =>
    match versionOf text length with
    | some version => ({ response with version := version }, error)
    | none => (response, .invalidVersion)

/-- `OnResponseHttpField`: a field whose name has length zero is left out. -/
def onResponseHttpField (field : Bytes) (flen : Nat) (value : Bytes) (vlen : Nat) :
    Filling → Option Filling
  | (response, error) =>
    if flen = 0 then some (response, error)
    else do
      let key ← stringArg field flen
      let val ← stringArg value vlen
      some ({ response with headers := response.headers.setHeader key val }, error)

/-- One callback. `none` if it reads behind the buffer. -/
def onReport : Report Element → Filling → Option Filling
  | .element .reasonPhrase text length, (response, error) =>
    (stringArg text length).map fun s => ({ response with reason := s }, error)
  | .element .statusCode text _, f => some (onResponseStatus text f)
  | .element .chunkSize _ _, f => some f
  | .element .httpVersion text length, f => some (onResponseVersion text length f)
  | .element .headerDone _ _, f => some f
  | .element .lastChunk _ _, f => some f
  | .field name flen value vlen, f => onResponseHttpField name flen value vlen f

/-- The callbacks in their order. -/
def onReports (reports : List (Report Element)) (f : Filling) : Option Filling :=
  reports.foldlM (fun f r => onReport r f) f

/-! ## The parser -/

structure HttpResponseParser where
  parser : HttpClientParser := httpclientParserInit
  response : HttpResponse := {}
  error : HttpParserError := .ok

namespace HttpResponseParser

/--
`execute`: the parser, the bytes that stay in `data`, and the number of bytes that were parsed. `none` if
an assertion or a check fails, or a callback reads behind the buffer.
-/
def execute (p : HttpResponseParser) (data : Bytes) (chunck : Bool) :
    Option (HttpResponseParser × Bytes × Nat) := do
  let parser := if chunck then httpclientParserInit else p.parser
  let (parser, reports, offset) ← httpclientParserExecute parser data
  let (response, error) ← onReports reports (p.response, p.error)
  some (⟨parser, response, error⟩, data.drop offset, offset)

def hasError (p : HttpResponseParser) : Bool := p.error != .ok || p.parser.hasError

def isFinished (p : HttpResponseParser) : Int := httpclientParserFinish p.parser

def getContentLength (env : Env) (p : HttpResponseParser) : Nat :=
  p.response.headers.getAsSize env.lexicalCast (ascii "content-length")

end HttpResponseParser

/-! ## `recvResponse` -/

/-- The loop that reads the head: the parser, and the bytes that are held in `data`. -/
def recvHead (env : Env) : Nat → HttpResponseParser → Bytes → Stream →
    Received (HttpResponseParser × Bytes)
  | 0, _, _, _ => .null
  | fuel + 1, p, held, stream =>
    let (bytes, stream) := read (env.buffSize - held.length) stream
    if bytes.isEmpty then .null
    else
      let data := held ++ bytes
      match p.execute data false with
      | none => .fault
      | some (p, held, nparse) =>
        if p.hasError then .null
        else if data.length - nparse = env.buffSize then .null
        else if p.isFinished ≠ 0 then .message (p, held) stream
        else recvHead env fuel p held stream

/-- The loop that reads a chunk line. `begins` is the variable `begin`. -/
def recvChunkLine (env : Env) : Nat → Bool → HttpResponseParser → Bytes → Stream →
    Received (HttpResponseParser × Bytes)
  | 0, _, _, _, _ => .null
  | fuel + 1, begins, p, held, stream =>
    let (bytes, stream) :=
      if !begins || held.isEmpty then read (env.buffSize - held.length) stream else ([], stream)
    if (!begins || held.isEmpty) && bytes.isEmpty then .null
    else
      let data := held ++ bytes
      match p.execute data true with
      | none => .fault
      | some (p, held, nparse) =>
        if p.hasError then .null
        else if data.length - nparse = env.buffSize then .null
        else if p.isFinished ≠ 0 then .message (p, held) stream
        else recvChunkLine env fuel false p held stream

/-- The loop that reads what is left of a chunk. -/
def recvLeft (env : Env) : Nat → Int → Stream → Option Bytes × Stream
  | 0, _, stream => (none, stream)
  | fuel + 1, left, stream =>
    if left ≤ 0 then (some [], stream)
    else
      let (bytes, stream) := read (if left > env.buffSize then env.buffSize else left.toNat) stream
      if bytes.isEmpty then (none, stream)
      else
        let (more, stream) := recvLeft env fuel (left - bytes.length) stream
        (more.map (bytes ++ ·), stream)

/--
One chunk: the body with it, and the bytes that are held. The length of the chunk is an `int`. It is undefined to add
two to the largest ones; `append` throws for a negative length, and `resize` for a body that is shorter than the two
bytes it is to lose.
-/
def recvChunk (env : Env) (contentLen : Int) (body held : Bytes) (stream : Stream) :
    Received (Bytes × Bytes) :=
  if contentLen + 2 > intMax then .fault
  else if contentLen + 2 ≤ held.length then
    if contentLen < 0 then .fault
    else .message (body ++ held.take contentLen.toNat, held.drop (contentLen + 2).toNat) stream
  else
    match recvLeft env (stream.flatten.length + 1) (contentLen - held.length + 2) stream with
    | (none, _) => .null
    | (some bytes, stream) =>
      let body := body ++ held ++ bytes
      if body.length < 2 then .fault else .message (body.take (body.length - 2), []) stream

/-- The loop over the chunks. -/
def recvChunks (env : Env) : Nat → HttpResponseParser → Bytes → Bytes → Stream →
    Received (HttpResponseParser × Bytes)
  | 0, _, _, _, _ => .null
  | fuel + 1, p, body, held, stream =>
    match recvChunkLine env (stream.flatten.length + 2) true p held stream with
    | .null => .null
    | .fault => .fault
    | .message (p, held) stream =>
      match recvChunk env p.parser.contentLen body held stream with
      | .null => .null
      | .fault => .fault
      | .message (body, held) stream =>
        if p.parser.chunksDone then .message (p, body) stream
        else recvChunks env fuel p body held stream

/-- `setBody`, for a body that is not empty. -/
def setBody (response : HttpResponse) (body : Bytes) : HttpResponse :=
  if body.isEmpty then response else { response with body := body }

/-- `HttpConnection::recvResponse`. -/
def recvResponse (env : Env) (stream : Stream) : Received HttpResponse :=
  match recvHead env (stream.flatten.length + 1) {} [] stream with
  | .null => .null
  | .fault => .fault
  | .message (p, held) stream =>
    if p.parser.chunked then
      match recvChunks env (held.length + stream.flatten.length + 1) p [] held stream with
      | .null => .null
      | .fault => .fault
      | .message (p, body) stream => .message (setBody p.response body) stream
    else
      let bodyLen := toInt64 (p.getContentLength env)
      if bodyLen > 0 then
        match recvBody bodyLen held stream with
        | none => .null
        | some (body, stream) => .message (setBody p.response body) stream
      else .message p.response stream

end Client

end Nemo.Http
