import Nemo.Common.Strtol
import Nemo.Http.HttpClientMachine
import Nemo.Http.Offsets
import Nemo.Net.SocketStream

/-!
# `http_client_parser.rl`: the parser around the machine

`httpclient_parser_execute` runs the machine over one buffer. As in the parser of the requests, the
registers `mark`, `field_start` and `field_len` are set to zero at the beginning of every call, and
a call returns its callbacks as a list.
-/

namespace Nemo.Http.Client

open Infra Net

/-- The element callbacks. -/
inductive Element
  | reasonPhrase | statusCode | chunkSize | httpVersion | headerDone | lastChunk
  deriving DecidableEq, Repr

/-- `struct httpclient_parser`, without the callbacks and `status`, which nothing reads. -/
structure HttpClientParser extends Offsets where
  cs : Nat
  bodyStart : Nat := 0
  contentLen : Int := -1
  chunked : Bool := false
  chunksDone : Bool := false
  close : Bool := false
  nread : Nat := 0
  deriving DecidableEq, Repr

/-- `httpclient_parser_init`. -/
def httpclientParserInit : HttpClientParser where
  cs := httpclientParserStart

/-- The state of `httpclient_parser_execute`: the parser and the callbacks made so far. -/
abbrev Parsing := HttpClientParser × List (Report Element)

/-- `chunk_size`. -/
def chunkSize (buffer : Bytes) (fpc : Nat) (parser : HttpClientParser) : Parsing :=
  let contentLen := toInt32 (strtol 16 (buffer.drop parser.mark))
  ({ parser with chunked := true, contentLen, chunksDone := contentLen ≤ 0 },
    [element (if contentLen ≤ 0 then .lastChunk else .chunkSize) buffer parser.mark fpc])

/-- The code of the actions. -/
def act (buffer : Bytes) (a : Action) (fpc : Nat) : Parsing → Parsing
  | (parser, reports) =>
    match a with
    | .mark => ({ parser with mark := fpc }, reports)
    | .startField => ({ parser with fieldStart := fpc }, reports)
    | .writeField => ({ parser with fieldLen := len parser.fieldStart fpc }, reports)
    | .startValue => ({ parser with mark := fpc }, reports)
    | .writeContentLen =>
      ({ parser with contentLen := toInt32 (strtol 10 (buffer.drop parser.mark)) }, reports)
    | .writeConnectionClose => ({ parser with close := true }, reports)
    | .writeValue => (parser, reports ++ [parser.field buffer fpc])
    | .reasonPhrase => (parser, reports ++ [element .reasonPhrase buffer parser.mark fpc])
    | .statusCode => (parser, reports ++ [element .statusCode buffer parser.mark fpc])
    | .httpVersion => (parser, reports ++ [element .httpVersion buffer parser.mark fpc])
    | .chunkSize =>
      let (parser, report) := chunkSize buffer fpc parser
      (parser, reports ++ report)
    | .transChunked => ({ parser with chunked := true }, reports)
    | .done =>
      ({ parser with bodyStart := fpc + 1 },
        reports ++ [.element .headerDone (buffer.drop (fpc + 1)) (buffer.length - fpc - 1)])

/-- `httpclient_parser_has_error`. -/
def HttpClientParser.hasError (parser : HttpClientParser) : Bool := parser.cs == httpclientParserError

/-- `httpclient_parser_is_finished`. Of the final states it knows the first one only. -/
def HttpClientParser.isFinished (parser : HttpClientParser) : Bool :=
  parser.cs == httpclientParserFirstFinal

/-- `httpclient_parser_finish`. -/
def httpclientParserFinish (parser : HttpClientParser) : Int :=
  if parser.hasError then -1 else if parser.isFinished then 1 else 0

/-- The registers that `httpclient_parser_execute` resets. -/
def HttpClientParser.reset (parser : HttpClientParser) : HttpClientParser :=
  { parser with nread := 0, mark := 0, fieldLen := 0, fieldStart := 0 }

/--
`httpclient_parser_execute` with `off = 0`: the parser afterwards, the callbacks, and `nread`.
`none` when one of the assertions or checks at its end fails.
-/
def httpclientParserExecute (parser : HttpClientParser) (buffer : Bytes) :
    Option (HttpClientParser × List (Report Element) × Nat) :=
  let parser := parser.reset
  let exit := machine.exec (act buffer) parser.cs 0 buffer (parser, [])
  let cs := if exit.halt = .error then httpclientParserError else exit.state
  let parser := { exit.acc.1 with cs, nread := exit.acc.1.nread + exit.pos }
  if parser.nread ≤ buffer.length ∧ parser.bodyStart ≤ buffer.length ∧
      parser.mark < buffer.length ∧ parser.fieldLen ≤ buffer.length ∧
      parser.fieldStart < buffer.length then
    some (parser, exit.acc.2, parser.nread)
  else none

end Nemo.Http.Client
