import Nemo.Http.Http11Machine
import Nemo.Http.Offsets

/-!
# `http11_parser.rl`: the parser around the machine

`http_parser_execute` runs the machine over one buffer. The registers `mark`, `field_start`,
`field_len` and `query_start` are offsets into that buffer; all but the last are set to zero at the
beginning of every call.

The callbacks are called in order and do not touch the parser, so a call returns them as a list
of `Report`s. A pointer into the buffer is the part of the buffer that it points to.
-/

namespace Nemo.Http

open Infra

/-- The element callbacks. -/
inductive Element
  | requestMethod | requestUri | fragment | requestPath | queryString | httpVersion | headerDone
  deriving DecidableEq, Repr

/-- `struct http_parser`, without the callbacks. -/
structure HttpParser extends Offsets where
  cs : Nat
  bodyStart : Nat
  contentLen : Int
  nread : Nat
  queryStart : Nat
  xmlSent : Bool
  jsonSent : Bool
  uriRelaxed : Bool
  deriving DecidableEq, Repr

/-- `http_parser_init`. It does not set `uri_relaxed` and `query_start`. -/
def httpParserInit (uriRelaxed : Bool) (queryStart : Nat) : HttpParser where
  cs := httpParserStart
  bodyStart := 0
  contentLen := 0
  nread := 0
  mark := 0
  fieldStart := 0
  fieldLen := 0
  queryStart := queryStart
  xmlSent := false
  jsonSent := false
  uriRelaxed := uriRelaxed

/-- The state of `http_parser_execute`: the parser and the callbacks made so far. -/
abbrev Parsing := HttpParser × List (Report Element)

/-- The code of the actions. -/
def act (buffer : Bytes) (a : Action) (fpc : Nat) : Parsing → Parsing
  | (parser, reports) =>
    match a with
    | .mark => ({ parser with mark := fpc }, reports)
    | .startField => ({ parser with fieldStart := fpc }, reports)
    | .writeField => ({ parser with fieldLen := len parser.fieldStart fpc }, reports)
    | .startValue => ({ parser with mark := fpc }, reports)
    | .writeValue => (parser, reports ++ [parser.field buffer fpc])
    | .requestMethod => (parser, reports ++ [element .requestMethod buffer parser.mark fpc])
    | .requestUri => (parser, reports ++ [element .requestUri buffer parser.mark fpc])
    | .fragment => (parser, reports ++ [element .fragment buffer parser.mark fpc])
    | .startQuery => ({ parser with queryStart := fpc }, reports)
    | .queryString => (parser, reports ++ [element .queryString buffer parser.queryStart fpc])
    | .httpVersion => (parser, reports ++ [element .httpVersion buffer parser.mark fpc])
    | .requestPath => (parser, reports ++ [element .requestPath buffer parser.mark fpc])
    | .done =>
      if parser.xmlSent || parser.jsonSent then
        ({ parser with
            bodyStart := parser.mark
            contentLen := (fpc : Int) - parser.mark + 1 }, reports)
      else
        ({ parser with bodyStart := fpc + 1 },
          reports ++ [.element .headerDone (buffer.drop (fpc + 1)) (buffer.length - fpc - 1)])
    | .xml => ({ parser with xmlSent := true }, reports)
    | .json => ({ parser with jsonSent := true }, reports)

/-- `http_parser_has_error`. -/
def HttpParser.hasError (parser : HttpParser) : Bool := parser.cs == httpParserError

/-- `http_parser_is_finished`. -/
def HttpParser.isFinished (parser : HttpParser) : Bool := parser.cs ≥ httpParserFirstFinal

/-- `http_parser_finish`. -/
def httpParserFinish (parser : HttpParser) : Int :=
  if parser.hasError then -1 else if parser.isFinished then 1 else 0

/-- The registers that `http_parser_execute` resets. -/
def HttpParser.reset (parser : HttpParser) : HttpParser :=
  { parser with nread := 0, mark := 0, fieldLen := 0, fieldStart := 0 }

/--
`http_parser_execute` with `off = 0`: the parser afterwards, the callbacks, and `nread`.
`none` when one of the assertions at its end fails.
-/
def httpParserExecute (parser : HttpParser) (buffer : Bytes) :
    Option (HttpParser × List (Report Element) × Nat) :=
  if buffer.length = 0 then some (parser, [], 0)
  else
    let parser := parser.reset
    let exit := (machine parser.uriRelaxed).exec (act buffer) parser.cs 0 buffer (parser, [])
    let cs := if exit.halt = .error then httpParserError else exit.state
    let parser := exit.acc.1
    let parser := if parser.hasError then parser else { parser with cs := cs }
    let parser := { parser with nread := parser.nread + exit.pos }
    if parser.nread ≤ buffer.length ∧ parser.bodyStart ≤ buffer.length ∧
        parser.mark < buffer.length ∧ parser.fieldLen ≤ buffer.length ∧
        parser.fieldStart < buffer.length then
      some (parser, exit.acc.2, parser.nread)
    else none

end Nemo.Http
