import Nemo.Http.Table

/-!
# Log patterns

`LogFormatter::parse` of `src/log/log_formatter.cc`: the pattern is cut into plain text and
directives, and the directives are looked up in the table of format items. A formatter has an error
when a brace is not closed or a directive is not in the table.
-/

namespace Nemo.Log

open Http

/-- What a format item prints. -/
inductive FormatItem
  | message
  | level
  | elapse
  | name
  | threadId
  | newLine
  | dateTime (format : Bytes)
  | filename
  | line
  | tab
  | taskId
  | threadName
  | string (str : Bytes)
  deriving DecidableEq, Repr

/-- A piece of a pattern: `text` has type 0 in the source and `directive` has type 1. -/
inductive Piece
  | text (str : Bytes)
  | directive (str fmt : Bytes)
  deriving DecidableEq, Repr

/-- `isalpha` in the C locale. -/
def isalpha (c : UInt8) : Bool := alpha.contains false c

/-- How the scan of a directive has ended. -/
inductive Scanned
  /-- `fmtStatus` is 0; the bytes from `n` on are still to be read -/
  | directive (str fmt rest : Bytes)
  /-- `fmtStatus` is 1: the brace is not closed -/
  | unclosed
  deriving DecidableEq

/-- The scan behind an opening brace. `fmt` is what has been read since. -/
def scanBraces (str fmt : Bytes) : Bytes → Scanned
  | [] => .unclosed
  | c :: rest =>
    if c = 0x7d then .directive str fmt rest else scanBraces str (fmt ++ [c]) rest

/-- The scan behind a percent sign. `str` is what has been read since. -/
def scanDirective (str : Bytes) : Bytes → Scanned
  | [] => .directive str [] []
  | c :: rest =>
    if !isalpha c && c ≠ 0x7b && c ≠ 0x7d then .directive str [] (c :: rest)
    else if c = 0x7b then scanBraces str [] rest
    else scanDirective (str ++ [c]) rest

/--
The outer loop of `parse`, over the bytes from `i` on, with the pending text `nstr`. Every round
reads a byte, so the length of the pattern is enough `fuel`. Behind an unclosed brace the scan goes
on behind the percent sign, and `nstr` is kept.
-/
def pieces : Nat → Bytes → Bytes → List Piece × Bool
  | 0, nstr, _ | _, nstr, [] => (if nstr.isEmpty then [] else [.text nstr], false)
  | fuel + 1, nstr, c :: rest =>
    if c ≠ 0x25 then pieces fuel (nstr ++ [c]) rest
    else if rest.head? = some 0x25 then pieces fuel (nstr ++ [0x25]) rest
    else
      match scanDirective [] rest with
      | .directive str fmt rest =>
        let (vec, hasError) := pieces fuel [] rest
        ((if nstr.isEmpty then [] else [.text nstr]) ++ .directive str fmt :: vec, hasError)
      | .unclosed =>
        let (vec, _) := pieces fuel nstr rest
        (.text (ascii "<<pattern_error>>") :: vec, true)

/-- `DateTimeFormatItem`: an empty format stands for the default one. -/
def dateTimeFormatItem (format : Bytes) : FormatItem :=
  .dateTime (if format.isEmpty then ascii "%Y-%m-%d %H:%M:%S" else format)

/-- `sFormatItems`. -/
def sFormatItems (str fmt : Bytes) : Option FormatItem :=
  if str = ascii "m" then some .message
  else if str = ascii "p" then some .level
  else if str = ascii "r" then some .elapse
  else if str = ascii "c" then some .name
  else if str = ascii "t" then some .threadId
  else if str = ascii "n" then some .newLine
  else if str = ascii "d" then some (dateTimeFormatItem fmt)
  else if str = ascii "f" then some .filename
  else if str = ascii "l" then some .line
  else if str = ascii "T" then some .tab
  else if str = ascii "F" then some .taskId
  else if str = ascii "N" then some .threadName
  else none

/-- The item of a piece, and whether the piece is an error. -/
def Piece.item : Piece → FormatItem × Bool
  | .text str => (.string str, false)
  | .directive str fmt =>
    match sFormatItems str fmt with
    | none => (.string (ascii "<<unknow format: %" ++ str ++ ascii ">>"), true)
    | some item => (item, false)

/-- A formatter: the pattern, and what `parse` makes of it. -/
structure LogFormatter where
  pattern : Bytes
  items : List FormatItem
  hasError : Bool
  deriving DecidableEq

/-- The constructor, which calls `parse`. -/
def LogFormatter.parse (pattern : Bytes) : LogFormatter :=
  let (vec, unclosed) := pieces pattern.length [] pattern
  { pattern
    items := vec.map fun x => x.item.1
    hasError := unclosed || vec.any fun x => x.item.2 }

/-- The pattern of the constructor of `Logger`. -/
def defaultPattern : Bytes :=
  ascii "%d\x7b%Y-%m-%d %H:%M:%S\x7d%T%t%T%N%T%F%T[%p]%T[%c]%T%f:%l%T%m%n"

example : (LogFormatter.parse defaultPattern).hasError = false := by decide +kernel

example : (LogFormatter.parse (ascii "%x")).hasError = true := by decide +kernel

end Nemo.Log
