import Nemo.Common.CString
import Nemo.Http.Dump
import Nemo.Net.UriMachine

/-!
# `Uri`

The members of a URI, how it is printed, and `Uri::Create`, which runs the machine of `uri.rl`. A mark that is `NULL`
is `none`; a text that would begin at it is not there, and the call fails.
-/

namespace Nemo.Net

open Infra Automaton Http

structure Uri where
  scheme : Bytes := []
  userInfo : Bytes := []
  host : Bytes := []
  port : UInt16 := 0
  path : Bytes := []
  query : Bytes := []
  fragment : Bytes := []
  deriving DecidableEq

namespace Uri

variable (uri : Uri)

def isDefaultPort : Bool :=
  if uri.port = 0 then true
  else if uri.scheme = ascii "http" ∨ uri.scheme = ascii "ws" then uri.port = 80
  else if uri.scheme = ascii "https" ∨ uri.scheme = ascii "wss" then uri.port = 443
  else false

def getPath : Bytes := if uri.path.isEmpty then ascii "/" else uri.path

def getPort : UInt16 :=
  if uri.port ≠ 0 then uri.port
  else if uri.scheme = ascii "http" ∨ uri.scheme = ascii "ws" then 80
  else if uri.scheme = ascii "https" ∨ uri.scheme = ascii "wss" then 443
  else uri.port

/-- `LexicalCast<String>(port_)` with its colon, for a port that is printed -/
def printedPort : Bytes := if uri.isDefaultPort then [] else 58 :: toDecimal uri.port.toNat

/-- What `dump` prints behind the authority. -/
def target : Bytes :=
  uri.getPath ++
  (if uri.query.isEmpty then [] else ascii "?") ++
  uri.query ++
  (if uri.fragment.isEmpty then [] else ascii "#") ++
  uri.fragment

def dump : Bytes :=
  uri.scheme ++
  ascii "://" ++
  uri.userInfo ++
  (if uri.userInfo.isEmpty then [] else ascii "@") ++
  uri.host ++
  uri.printedPort ++
  uri.target

def toString : Bytes := uri.dump

/-! ## `Create` -/

/-- The URI that is filled, and `mark`. -/
abbrev Creating := Uri × Option Nat

/--
One action at the position `fpc` of the text. `cast` is `LexicalCast<uint16_t>` of a C string, which throws on what is
no number. `none` if it throws, or if the mark is not there.
-/
def act (cast : Bytes → Option UInt16) (text : Bytes) (a : Action) (fpc : Nat) : Creating → Option Creating
  | (uri, mark) =>
    let piece := fun m => (text.drop m).take (fpc - m)
    match a with
    | .marku | .markh => some (uri, some fpc)
    | .saveScheme => mark.map fun m => ({ uri with scheme := piece m }, none)
    | .savePort => do
      let m ← mark
      if fpc = m then some (uri, none)
      else
        -- the C string goes on to the end of the text
        let port ← cast (cString (text.drop m))
        some ({ uri with port := port }, none)
    | .saveUserinfo =>
      match mark with
      | some m => some ({ uri with userInfo := piece m }, none)
      | none => some (uri, none)
    | .saveHost =>
      match mark with
      | some m => some ({ uri with host := piece m }, mark)
      | none => some (uri, mark)
    | .savePath => mark.map fun m => ({ uri with path := piece m }, none)
    | .saveQuery => mark.map fun m => ({ uri with query := piece m }, none)
    | .saveFragment => mark.map fun m => ({ uri with fragment := piece m }, none)

/-- What `Create` comes to. -/
inductive Created
  | uri (uri : Uri)
  /-- `nullptr` -/
  | null
  /-- an exception, or a text at a mark that is not there -/
  | fault
  deriving DecidableEq

/-- An action, if none before it has failed. -/
def step (cast : Bytes → Option UInt16) (text : Bytes) (a : Action) (fpc : Nat) (s : Option Creating) :
    Option Creating :=
  s.bind (act cast text a fpc)

/-- What the run comes to: the actions at the end of the text, and whether its state is final. -/
def finish (cast : Bytes → Option UInt16) (uriStr : Bytes) (e : Exit Nat (Option Creating)) : Created :=
  match e.halt, e.acc with
  | .error, some _ => .null
  | _, none => .fault
  | _, some s =>
    if e.state < uriParserFirstFinal then .null
    else
      match perform (step cast uriStr) (eofActions e.state) e.pos (some s) with
      | none => .fault
      | some (uri, _) => .uri uri

/-- `Uri::Create`. Behind the text there is a NUL. -/
def Create (cast : Bytes → Option UInt16) (uriStr : Bytes) : Created :=
  finish cast uriStr (machine.exec (step cast uriStr) uriParserStart 0 uriStr (some ({}, none)))

end Uri

end Nemo.Net
