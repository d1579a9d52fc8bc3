import Nemo.Http.Http11Machine

/-!
# The automaton of `http_client_parser.rl`

The table of the machine `httpclient_parser`, as it stands in the generated `http_client_parser.rl.cc`:
124 states, of which 1 is the start and 120 to 123 are final.

Three header names have alternatives of their own in the grammar. A name is read along the letters of
them as long as it agrees with one, in lower or upper case, and in the state 21 from there on; so are the
values `close` and `chunked`.
-/

namespace Nemo.Http.Client

open Infra

/-- The actions of the machine. -/
inductive Action
  | mark | startField | writeField | startValue | writeContentLen | writeConnectionClose | writeValue
  | reasonPhrase | statusCode | httpVersion | chunkSize | transChunked | done
  deriving DecidableEq, Repr

/-! ## Byte classes -/

def letter (c : Char) : Class := is c.toUpper ++ is c
def any : Class := bytes 0 255
/-- What `space` has, but for the line ends. -/
def blank : Class := is ' ' ++ byte 9 ++ bytes 11 12
/-- `space`, but for the line feed. -/
def space : Class := is ' ' ++ byte 9 ++ bytes 11 13

/-! ## Rows -/

/-- The chunk line. -/
def chunkRows : Table Action := [
  (1, [on (is 'H') 8 [.mark], on xdigit 2 [.mark]]),
  (2, [stop (byte 10) 120 [.chunkSize, .done], on (byte 13) 3 [.chunkSize], on xdigit 2,
    on (is ';') 4 [.chunkSize]]),
  (3, [stop (byte 10) 120 [.done]]),
  (4, [on tokenChar 5 [.startField]]),
  (5, [stop (byte 10) 120 [.writeField, .startValue, .writeValue, .done],
    on (byte 13) 3 [.writeField, .startValue, .writeValue], on tokenChar 5,
    on (is ';') 4 [.writeField, .startValue, .writeValue], on (is '=') 6 [.writeField, .startValue]]),
  (6, [on tokenChar 7 [.startValue]]),
  (7, [stop (byte 10) 120 [.writeValue, .done], on (byte 13) 3 [.writeValue], on tokenChar 7,
    on (is ';') 4 [.writeValue]])]

/-- The status line. -/
def statusRows : Table Action := [
  (8, [on (is 'T') 9]),
  (9, [on (is 'T') 10]),
  (10, [on (is 'P') 11]),
  (11, [on (is '/') 12]),
  (12, [on digit 13]),
  (13, [on (is '.') 14, on digit 13]),
  (14, [on digit 15]),
  (15, [on (byte 32) 16 [.httpVersion], on digit 15]),
  (16, [on digit 17 [.mark]]),
  (17, [on (byte 32) 18 [.statusCode], on digit 17]),
  (18, [on (bytes 0 9 ++ bytes 11 255) 19 [.mark]]),
  (19, [on (byte 10) 20 [.reasonPhrase], on (byte 13) 24 [.reasonPhrase], on any 19])]

/-- A byte of a name: one of the letters that lead on, or any other. -/
def nameRows (acts : List Action) (letters : List (Char × Nat)) : List (Row Action) :=
  letters.map (fun (c, q) => on (letter c) q acts) ++ [on tokenChar 21 acts]

/-- The states in which a name is read: the letters that lead on, and where its colon leads. -/
def nameStates : List (Nat × List (Char × Nat) × Nat) := [
  (21, [], 22),
  (25, [('o', 26)], 22), (26, [('n', 27)], 22), (27, [('n', 28), ('t', 101)], 22),
  (28, [('e', 29)], 22), (29, [('c', 30)], 22), (30, [('t', 31)], 22), (31, [('i', 32)], 22),
  (32, [('o', 33)], 22), (33, [('n', 34)], 22), (34, [], 35),
  (44, [('r', 45)], 22), (45, [('a', 46)], 22), (46, [('n', 47)], 22), (47, [('s', 48)], 22),
  (48, [('f', 49)], 22), (49, [('e', 50)], 22), (50, [('r', 51)], 22), (51, [('-', 52)], 22),
  (52, [('e', 53)], 22), (53, [('n', 54)], 22), (54, [('c', 55)], 22), (55, [('o', 56)], 22),
  (56, [('d', 57)], 22), (57, [('i', 58)], 22), (58, [('n', 59)], 22), (59, [('g', 60)], 22),
  (60, [], 61),
  (73, [('h', 74), ('o', 26)], 22), (74, [('u', 75)], 22), (75, [('n', 76)], 22),
  (76, [('k', 77)], 22), (77, [('e', 78)], 22), (78, [('d', 79)], 22),
  (90, [('l', 91), ('o', 26)], 22), (91, [('o', 92)], 22), (92, [('s', 93)], 22),
  (93, [('e', 94)], 22),
  (101, [('e', 102)], 22), (102, [('n', 103)], 22), (103, [('t', 104)], 22), (104, [('-', 105)], 22),
  (105, [('l', 106)], 22), (106, [('e', 107)], 22), (107, [('n', 108)], 22), (108, [('g', 109)], 22),
  (109, [('t', 110)], 22), (110, [('h', 111)], 22), (111, [], 112)]

def nameTable : Table Action := nameStates.map fun (q, letters, colon) =>
  (q, nameRows [] letters ++ [on (is ':') colon [.writeField]])

/-- The line ends of a value, with the actions at its end. -/
def endRows (acts : List Action) (lf cr : Nat) : List (Row Action) :=
  [on (byte 10) lf acts, on (byte 13) cr acts]

/-- The starts of lines, and values. -/
def lineRows : Table Action := [
  (20, [stop (byte 10) 120 [.done], on (byte 13) 3] ++
    nameRows [.startField] [('c', 25), ('t', 44)]),
  (22, endRows [.startValue, .writeValue] 20 24 ++
    [on blank 22 [.startValue], on any 23 [.startValue]]),
  (23, endRows [.writeValue] 20 24 ++ [on any 23]),
  (24, [on (byte 10) 20]),
  (43, [stop (byte 10) 120 [.writeConnectionClose, .done], on (byte 13) 3 [.writeConnectionClose]] ++
    nameRows [.writeConnectionClose, .startField] [('c', 25), ('t', 44)])]

/-- `Connection`. -/
def connectionRows : Table Action := [
  (35, endRows [.startValue, .writeValue] 36 95 ++
    [on blank 35 [.startValue], on (letter 'c') 96 [.startValue], on any 23 [.startValue]]),
  (36, [stop (byte 10) 122 [.done], on (byte 13) 89, on blank 37] ++
    nameRows [.startField] [('c', 90), ('t', 44)]),
  (37, [on space 37, on (byte 10) 37, on (letter 'c') 38]),
  (38, [on (letter 'l') 39]),
  (39, [on (letter 'o') 40]),
  (40, [on (letter 's') 41]),
  (41, [on (letter 'e') 42]),
  (42, endRows [] 43 88),
  (88, [on (byte 10) 43]),
  (89, [stop (byte 10) 122 [.done], on space 37, on (letter 'c') 38]),
  (94, endRows [] 43 88 ++ nameRows [] [] ++ [on (is ':') 22 [.writeField]]),
  (95, [on (byte 10) 36, on space 37, on (letter 'c') 38]),
  (96, endRows [.writeValue] 20 24 ++ [on (letter 'l') 97, on any 23]),
  (97, endRows [.writeValue] 20 24 ++ [on (letter 'o') 98, on any 23]),
  (98, endRows [.writeValue] 20 24 ++ [on (letter 's') 99, on any 23]),
  (99, endRows [.writeValue] 20 24 ++ [on (letter 'e') 100, on any 23]),
  (100, endRows [.writeValue] 43 88 ++ [on any 23]),
  (122, [on space 37, on (byte 10) 37, on (letter 'c') 38])]

/-- `Transfer-Encoding`. -/
def transferRows : Table Action := [
  (61, endRows [.startValue, .writeValue] 62 80 ++
    [on blank 61 [.startValue], on (letter 'c') 81 [.startValue], on any 23 [.startValue]]),
  (62, [stop (byte 10) 121 [.done], on (byte 13) 72, on blank 63,
    on (letter 'c') 73 [.startValue, .startField]] ++ nameRows [.startField] [('t', 44)]),
  (63, [on space 63, on (byte 10) 63, on (letter 'c') 64 [.startValue]]),
  (64, [on (letter 'h') 65]),
  (65, [on (letter 'u') 66]),
  (66, [on (letter 'n') 67]),
  (67, [on (letter 'k') 68]),
  (68, [on (letter 'e') 69]),
  (69, [on (letter 'd') 70]),
  (70, [on (byte 10) 20 [.writeValue, .transChunked], on (byte 13) 71 [.writeValue]]),
  (71, [on (byte 10) 20 [.transChunked]]),
  (72, [stop (byte 10) 121 [.done], on space 63, on (letter 'c') 64 [.startValue]]),
  (79, [on (byte 10) 20 [.writeValue, .transChunked], on (byte 13) 71 [.writeValue]] ++
    nameRows [] [] ++ [on (is ':') 22 [.writeField]]),
  (80, [on (byte 10) 62, on space 63, on (letter 'c') 64 [.startValue]]),
  (81, endRows [.writeValue] 20 24 ++ [on (letter 'h') 82, on any 23]),
  (82, endRows [.writeValue] 20 24 ++ [on (letter 'u') 83, on any 23]),
  (83, endRows [.writeValue] 20 24 ++ [on (letter 'n') 84, on any 23]),
  (84, endRows [.writeValue] 20 24 ++ [on (letter 'k') 85, on any 23]),
  (85, endRows [.writeValue] 20 24 ++ [on (letter 'e') 86, on any 23]),
  (86, endRows [.writeValue] 20 24 ++ [on (letter 'd') 87, on any 23]),
  (87, [on (byte 10) 20 [.writeValue, .transChunked], on (byte 13) 71 [.writeValue], on any 23]),
  (121, [on space 63, on (byte 10) 63, on (letter 'c') 64 [.startValue]])]

/-- `Content-Length`. -/
def lengthRows : Table Action := [
  (112, endRows [.startValue, .writeValue] 113 118 ++
    [on blank 112 [.startValue], on digit 119 [.startValue], on any 23 [.startValue]]),
  (113, [stop (byte 10) 123 [.done], on (byte 13) 116, on blank 114,
    on digit 117 [.startValue, .startField]] ++ nameRows [.startField] [('c', 25), ('t', 44)]),
  (114, [on space 114, on (byte 10) 114, on digit 115 [.startValue]]),
  (115, endRows [.writeContentLen, .writeValue] 20 24 ++ [on digit 115]),
  (116, [stop (byte 10) 123 [.done], on space 114, on digit 115 [.startValue]]),
  (117, endRows [.writeContentLen, .writeValue] 20 24 ++ [on digit 117] ++ nameRows [] [] ++
    [on (is ':') 22 [.writeField]]),
  (118, [on (byte 10) 113, on space 114, on digit 115 [.startValue]]),
  (119, endRows [.writeContentLen, .writeValue] 20 24 ++ [on digit 119, on any 23]),
  (123, [on space 114, on (byte 10) 114, on digit 115 [.startValue]])]

def table : Table Action :=
  chunkRows ++ statusRows ++ nameTable ++ lineRows ++ connectionRows ++ transferRows ++ lengthRows ++
    [(120, [])]

/-- `httpclient_parser_start`. -/
def httpclientParserStart : Nat := 1

/-- `httpclient_parser_first_final`. -/
def httpclientParserFirstFinal : Nat := 120

/-- `httpclient_parser_error`. -/
def httpclientParserError : Nat := 0

/-- The machine `httpclient_parser`. -/
def machine : Automaton Nat Action UInt8 := table.machine false

end Nemo.Http.Client
