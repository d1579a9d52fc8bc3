import Nemo.Http.Table

/-!
# The automaton of `http11_parser.rl`

The table of the machine `http_parser`, row by row, as it stands in the generated
`http11_parser.rl.cc`: 349 states, of which 1 is the start and 348 and 349 are final.

The names of the byte classes are those of the grammar where it has one. Two classes of the
grammar are not what their names say, and the table shows it: `HTTP_CTL = (0 - 31) | 127` is the set
difference of the bytes 0 and 31, so that `token` and `content` exclude only the bytes 0 and 127 of
the control characters.
-/

namespace Nemo.Http

open Infra

/-! ## Byte classes -/

def methodChar : Class := digit ++ upper
def moreDelims : Class := relaxed '^' ++ relaxed '{' ++ relaxed '}'
def mark1 : Class := is '!' ++ is '$' ++ bytes 38 42 ++ is ',' ++ is ';' ++ is '=' ++ is '_' ++ is '~' ++ moreDelims
def schemeChar : Class := alpha ++ digit ++ is '+' ++ is '-' ++ is '.'
def regName : Class := mark1 ++ schemeChar
def userinfo : Class := regName ++ is ':'
def segmentNzNc : Class := regName ++ is '@'
def pchar : Class := userinfo ++ is '@' ++ bytes 128 255
def pathChar : Class := pchar ++ is '/'
def queryChar : Class := pathChar ++ is '?'
def tokenChar : Class :=
  is '!' ++ bytes 35 39 ++ is '*' ++ is '+' ++ is '-' ++ is '.' ++ digit ++ upper ++ bytes 94 122 ++ is '|' ++ is '~'
def xmlNameChar : Class := alpha ++ digit ++ is '-' ++ is '.'
def segmentNzNcStart : Class := mark1 ++ digit ++ is '+' ++ is '-' ++ is '.' ++ is '@'

/-! ## Rows -/

/-- The actions of the machine. -/
inductive Action
  | mark | startField | writeField | startValue | writeValue | requestMethod | requestUri
  | fragment | startQuery | queryString | httpVersion | requestPath | done | xml | json
  deriving DecidableEq, Repr

/-- Start, the method's first character, the start of the URI, and the version. -/
def startRows : Table Action := [
  (1, [on methodChar 2 [.mark], on (is '<') 194 [.mark], on (is '@') 198 [.mark]]),
  (2, [on (byte 32) 3 [.requestMethod], on methodChar 175]),
  (3, [on (byte 32) 4 [.mark, .requestPath, .requestUri], on segmentNzNcStart 19 [.mark],
    on (is '#') 20 [.mark, .requestPath, .requestUri], on (is '%') 24 [.mark],
    on (is '/') 33 [.mark], on (is '?') 29 [.mark, .requestPath], on alpha 173 [.mark]]),
  (4, [on (is 'H') 5 [.mark]]),
  (5, [on (is 'T') 6]),
  (6, [on (is 'T') 7]),
  (7, [on (is 'P') 8]),
  (8, [on (is '/') 9]),
  (9, [on (is '1') 10]),
  (10, [on (is '.') 11]),
  (11, [on (upTo '0' '1') 12]),
  (12, [on (byte 10) 13 [.httpVersion], on (byte 13) 17 [.httpVersion]])]

/-- The header lines. -/
def headerRows : Table Action := [
  (13, [on (bytes 1 8 ++ bytes 11 12 ++ bytes 14 31 ++ tokenChar) 14 [.startField],
    stop (byte 10) 348 [.startField, .done], on (byte 13) 18 [.startField]]),
  (14, [on (bytes 1 8 ++ bytes 10 31 ++ tokenChar) 14, on (is ':') 15 [.writeField]]),
  (15, [
    on (bytes 1 8 ++ bytes 11 12 ++ bytes 14 31 ++ bytes 33 126 ++ bytes 128 255) 16 [.startValue],
    on (byte 9 ++ byte 32) 15 [.startValue], on (byte 10) 13 [.startValue, .writeValue],
    on (byte 13) 17 [.startValue, .writeValue]]),
  (16, [on (bytes 1 9 ++ bytes 11 12 ++ bytes 14 126 ++ bytes 128 255) 16,
    on (byte 10) 13 [.writeValue], on (byte 13) 17 [.writeValue]]),
  (17, [on (byte 10) 13]),
  (18, [on (bytes 1 8 ++ bytes 11 31 ++ tokenChar) 14, stop (byte 10) 348 [.done],
    on (is ':') 15 [.writeField]])]

/-- Path, fragment and query. -/
def uriRows : Table Action := [
  (19, [on (byte 32) 4 [.requestPath, .requestUri], on segmentNzNc 19,
    on (is '#') 20 [.requestPath, .requestUri], on (is '%') 24, on (is '/') 26,
    on (is '?') 29 [.requestPath]]),
  (20, [on (byte 32) 4 [.mark, .fragment], on queryChar 21 [.mark], on (is '%') 22 [.mark]]),
  (21, [on (byte 32) 4 [.fragment], on queryChar 21, on (is '%') 22]),
  (22, [on xdigit 23]),
  (23, [on xdigit 21]),
  (24, [on xdigit 25]),
  (25, [on xdigit 19]),
  (26, [on (byte 32) 4 [.requestPath, .requestUri], on pathChar 26,
    on (is '#') 20 [.requestPath, .requestUri], on (is '%') 27, on (is '?') 29 [.requestPath]]),
  (27, [on xdigit 28]),
  (28, [on xdigit 26]),
  (29, [on (byte 32) 4 [.startQuery, .queryString, .requestUri], on queryChar 30 [.startQuery],
    on (is '#') 20 [.startQuery, .queryString, .requestUri], on (is '%') 31 [.startQuery]]),
  (30, [on (byte 32) 4 [.queryString, .requestUri], on queryChar 30,
    on (is '#') 20 [.queryString, .requestUri], on (is '%') 31]),
  (31, [on xdigit 32]),
  (32, [on xdigit 30]),
  (33, [on (byte 32) 4 [.requestPath, .requestUri], on pchar 26,
    on (is '#') 20 [.requestPath, .requestUri], on (is '%') 27, on (is '/') 34,
    on (is '?') 29 [.requestPath]]),
  (34, [on (byte 32) 4 [.requestPath, .requestUri], on regName 35,
    on (is '#') 20 [.requestPath, .requestUri], on (is '%') 36, on (is '/') 26, on (is ':') 38,
    on (is '?') 29 [.requestPath], on (is '@') 42, on (is '[') 47])]

/-- The authority: userinfo, registered name and port. -/
def authorityRows : Table Action := [
  (35, [on (byte 32) 4 [.requestPath, .requestUri], on regName 35,
    on (is '#') 20 [.requestPath, .requestUri], on (is '%') 36, on (is '/') 26, on (is ':') 38,
    on (is '?') 29 [.requestPath], on (is '@') 42]),
  (36, [on xdigit 37]),
  (37, [on xdigit 35]),
  (38, [on (byte 32) 4 [.requestPath, .requestUri],
    on (mark1 ++ alpha ++ is '+' ++ is '-' ++ is '.' ++ is ':') 39,
    on (is '#') 20 [.requestPath, .requestUri], on (is '%') 40, on (is '/') 26, on digit 38,
    on (is '?') 29 [.requestPath], on (is '@') 42]),
  (39, [on userinfo 39, on (is '%') 40, on (is '@') 42]),
  (40, [on xdigit 41]),
  (41, [on xdigit 39]),
  (42, [on (byte 32) 4 [.requestPath, .requestUri], on regName 43,
    on (is '#') 20 [.requestPath, .requestUri], on (is '%') 44, on (is '/') 26, on (is ':') 46,
    on (is '?') 29 [.requestPath], on (is '[') 47]),
  (43, [on (byte 32) 4 [.requestPath, .requestUri], on regName 43,
    on (is '#') 20 [.requestPath, .requestUri], on (is '%') 44, on (is '/') 26, on (is ':') 46,
    on (is '?') 29 [.requestPath]]),
  (44, [on xdigit 45]),
  (45, [on xdigit 43]),
  (46, [on (byte 32) 4 [.requestPath, .requestUri], on (is '#') 20 [.requestPath, .requestUri],
    on (is '/') 26, on digit 46, on (is '?') 29 [.requestPath]]),
  (47, [on (byte 6) 48, on xdigit 91, on (is ':') 167, on (is 'v') 169])]

/-- The literal hosts: `IPvFuture`, `IPv4address` and `IPv6address`; then the scheme. -/
def hostRows : Table Action := [
  (48, [on xdigit 49]),
  (49, [on xdigit 50, on (is ':') 53]),
  (50, [on xdigit 51, on (is ':') 53]),
  (51, [on xdigit 52, on (is ':') 53]),
  (52, [on (is ':') 53]),
  (53, [on (is '0' ++ upTo '3' '9') 54, on (is '1') 84, on (is '2') 87, on hexAlpha 90]),
  (54, [on (is '.') 55, on xdigit 77, on (is ':') 80]),
  (55, [on (is '0' ++ upTo '3' '9') 56, on (is '1') 72, on (is '2') 74]),
  (56, [on (is '.') 57]),
  (57, [on (is '0' ++ upTo '3' '9') 58, on (is '1') 67, on (is '2') 69]),
  (58, [on (is '.') 59]),
  (59, [on (is '0' ++ upTo '3' '9') 60, on (is '1') 62, on (is '2') 64]),
  (60, [on (is ']') 61]),
  (61, [on (byte 32) 4 [.requestPath, .requestUri], on (is '#') 20 [.requestPath, .requestUri],
    on (is '/') 26, on (is ':') 46, on (is '?') 29 [.requestPath]]),
  (62, [on digit 63, on (is ']') 61]),
  (63, [on digit 60, on (is ']') 61]),
  (64, [on (is '0') 65, on (is '5') 66, on (is ']') 61]),
  (65, [on digit 60]),
  (66, [on (is '0') 60]),
  (67, [on (is '.') 59, on digit 68]),
  (68, [on (is '.') 59, on digit 58]),
  (69, [on (is '.') 59, on (is '0') 70, on (is '5') 71]),
  (70, [on digit 58]),
  (71, [on (is '0') 58]),
  (72, [on (is '.') 57, on digit 73]),
  (73, [on (is '.') 57, on digit 56]),
  (74, [on (is '.') 57, on (is '0') 75, on (is '5') 76]),
  (75, [on digit 56]),
  (76, [on (is '0') 56]),
  (77, [on xdigit 78, on (is ':') 80]),
  (78, [on xdigit 79, on (is ':') 80]),
  (79, [on (is ':') 80]),
  (80, [on xdigit 81]),
  (81, [on xdigit 82, on (is ']') 61]),
  (82, [on xdigit 83, on (is ']') 61]),
  (83, [on xdigit 60, on (is ']') 61]),
  (84, [on (is '.') 55, on digit 85, on (is ':') 80, on hexAlpha 77]),
  (85, [on (is '.') 55, on digit 86, on (is ':') 80, on hexAlpha 78]),
  (86, [on (is '.') 55, on xdigit 79, on (is ':') 80]),
  (87, [on (is '.') 55, on (is '0') 88, on (upTo '1' '4' ++ upTo '6' '9' ++ hexAlpha) 77,
    on (is '5') 89, on (is ':') 80]),
  (88, [on digit 86, on (is ':') 80, on hexAlpha 78]),
  (89, [on (is '0') 86, on (upTo '1' '9' ++ hexAlpha) 78, on (is ':') 80]),
  (90, [on xdigit 77, on (is ':') 80]),
  (91, [on xdigit 92, on (is ':') 95]),
  (92, [on xdigit 93, on (is ':') 95]),
  (93, [on xdigit 94, on (is ':') 95]),
  (94, [on (is ':') 95]),
  (95, [on xdigit 96, on (is ':') 166]),
  (96, [on xdigit 97, on (is ':') 100]),
  (97, [on xdigit 98, on (is ':') 100]),
  (98, [on xdigit 99, on (is ':') 100]),
  (99, [on (is ':') 100]),
  (100, [on xdigit 101, on (is ':') 165]),
  (101, [on xdigit 102, on (is ':') 105]),
  (102, [on xdigit 103, on (is ':') 105]),
  (103, [on xdigit 104, on (is ':') 105]),
  (104, [on (is ':') 105]),
  (105, [on xdigit 106, on (is ':') 164]),
  (106, [on xdigit 107, on (is ':') 110]),
  (107, [on xdigit 108, on (is ':') 110]),
  (108, [on xdigit 109, on (is ':') 110]),
  (109, [on (is ':') 110]),
  (110, [on xdigit 111, on (is ':') 163]),
  (111, [on xdigit 112, on (is ':') 115]),
  (112, [on xdigit 113, on (is ':') 115]),
  (113, [on xdigit 114, on (is ':') 115]),
  (114, [on (is ':') 115]),
  (115, [on xdigit 116, on (is ':') 151]),
  (116, [on xdigit 117, on (is ':') 120]),
  (117, [on xdigit 118, on (is ':') 120]),
  (118, [on xdigit 119, on (is ':') 120]),
  (119, [on (is ':') 120]),
  (120, [on xdigit 121, on (is ':') 150]),
  (121, [on xdigit 122, on (is ':') 125]),
  (122, [on xdigit 123, on (is ':') 125]),
  (123, [on xdigit 124, on (is ':') 125]),
  (124, [on (is ':') 125]),
  (125, [on xdigit 121, on (is ':') 126]),
  (126, [on (bytes 2 3) 48, on (is '0' ++ upTo '3' '9') 127, on (is '1') 143, on (is '2') 146,
    on hexAlpha 149, on (is ']') 61]),
  (127, [on (is '.') 55, on xdigit 128, on (is ':') 131, on (is ']') 61]),
  (128, [on xdigit 129, on (is ':') 131, on (is ']') 61]),
  (129, [on xdigit 130, on (is ':') 131, on (is ']') 61]),
  (130, [on (is ':') 131, on (is ']') 61]),
  (131, [on (is '0' ++ upTo '3' '9') 132, on (is '1') 136, on (is '2') 139, on hexAlpha 142]),
  (132, [on (is '.') 55, on xdigit 133, on (is ':') 80, on (is ']') 61]),
  (133, [on xdigit 134, on (is ':') 80, on (is ']') 61]),
  (134, [on xdigit 135, on (is ':') 80, on (is ']') 61]),
  (135, [on (is ':') 80, on (is ']') 61]),
  (136, [on (is '.') 55, on digit 137, on (is ':') 80, on hexAlpha 133, on (is ']') 61]),
  (137, [on (is '.') 55, on digit 138, on (is ':') 80, on hexAlpha 134, on (is ']') 61]),
  (138, [on (is '.') 55, on xdigit 135, on (is ':') 80, on (is ']') 61]),
  (139, [on (is '.') 55, on (is '0') 140, on (upTo '1' '4' ++ upTo '6' '9' ++ hexAlpha) 133,
    on (is '5') 141, on (is ':') 80, on (is ']') 61]),
  (140, [on digit 138, on (is ':') 80, on hexAlpha 134, on (is ']') 61]),
  (141, [on (is '0') 138, on (upTo '1' '9' ++ hexAlpha) 134, on (is ':') 80, on (is ']') 61]),
  (142, [on xdigit 133, on (is ':') 80, on (is ']') 61]),
  (143, [on (is '.') 55, on digit 144, on (is ':') 131, on hexAlpha 128, on (is ']') 61]),
  (144, [on (is '.') 55, on digit 145, on (is ':') 131, on hexAlpha 129, on (is ']') 61]),
  (145, [on (is '.') 55, on xdigit 130, on (is ':') 131, on (is ']') 61]),
  (146, [on (is '.') 55, on (is '0') 147, on (upTo '1' '4' ++ upTo '6' '9' ++ hexAlpha) 128,
    on (is '5') 148, on (is ':') 131, on (is ']') 61]),
  (147, [on digit 145, on (is ':') 131, on hexAlpha 129, on (is ']') 61]),
  (148, [on (is '0') 145, on (upTo '1' '9' ++ hexAlpha) 129, on (is ':') 131, on (is ']') 61]),
  (149, [on xdigit 128, on (is ':') 131, on (is ']') 61]),
  (150, [on (bytes 2 3) 48, on (is '0' ++ upTo '3' '9') 127, on (is '1') 143, on (is '2') 146,
    on hexAlpha 149]),
  (151, [on (bytes 2 3) 48, on (is '0' ++ upTo '3' '9') 152, on (is '1') 156, on (is '2') 159,
    on hexAlpha 162]),
  (152, [on (is '.') 55, on xdigit 153, on (is ':') 131]),
  (153, [on xdigit 154, on (is ':') 131]),
  (154, [on xdigit 155, on (is ':') 131]),
  (155, [on (is ':') 131]),
  (156, [on (is '.') 55, on digit 157, on (is ':') 131, on hexAlpha 153]),
  (157, [on (is '.') 55, on digit 158, on (is ':') 131, on hexAlpha 154]),
  (158, [on (is '.') 55, on xdigit 155, on (is ':') 131]),
  (159, [on (is '.') 55, on (is '0') 160, on (upTo '1' '4' ++ upTo '6' '9' ++ hexAlpha) 153,
    on (is '5') 161, on (is ':') 131]),
  (160, [on digit 158, on (is ':') 131, on hexAlpha 154]),
  (161, [on (is '0') 158, on (upTo '1' '9' ++ hexAlpha) 154, on (is ':') 131]),
  (162, [on xdigit 153, on (is ':') 131]),
  (163, [on (bytes 2 3) 48, on xdigit 49]),
  (164, [on (bytes 2 3) 48]),
  (165, [on (byte 3) 48]),
  (166, [on (byte 4) 48]),
  (167, [on (is ':') 168]),
  (168, [on (bytes 2 5) 48, on (is '0' ++ upTo '3' '9') 127, on (is '1') 143, on (is '2') 146,
    on hexAlpha 149, on (is ']') 61]),
  (169, [on xdigit 170]),
  (170, [on (is '.') 171, on xdigit 170]),
  (171, [on userinfo 172]),
  (172, [on userinfo 172, on (is ']') 61]),
  (173, [on (byte 32) 4 [.requestPath, .requestUri], on (mark1 ++ is '@') 19,
    on (is '#') 20 [.requestPath, .requestUri], on (is '%') 24, on schemeChar 173,
    on (is '/') 26, on (is ':') 174, on (is '?') 29 [.requestPath]]),
  (174, [on (byte 32) 4 [.mark, .requestPath, .requestUri], on pchar 26 [.mark],
    on (is '#') 20 [.mark, .requestPath, .requestUri], on (is '%') 27 [.mark],
    on (is '/') 33 [.mark], on (is '?') 29 [.mark, .requestPath]])]

/-- The other characters of the method, at most twenty in all. -/
def methodRows : Table Action := [
  (175, [on (byte 32) 3 [.requestMethod], on methodChar 176]),
  (176, [on (byte 32) 3 [.requestMethod], on methodChar 177]),
  (177, [on (byte 32) 3 [.requestMethod], on methodChar 178]),
  (178, [on (byte 32) 3 [.requestMethod], on methodChar 179]),
  (179, [on (byte 32) 3 [.requestMethod], on methodChar 180]),
  (180, [on (byte 32) 3 [.requestMethod], on methodChar 181]),
  (181, [on (byte 32) 3 [.requestMethod], on methodChar 182]),
  (182, [on (byte 32) 3 [.requestMethod], on methodChar 183]),
  (183, [on (byte 32) 3 [.requestMethod], on methodChar 184]),
  (184, [on (byte 32) 3 [.requestMethod], on methodChar 185]),
  (185, [on (byte 32) 3 [.requestMethod], on methodChar 186]),
  (186, [on (byte 32) 3 [.requestMethod], on methodChar 187]),
  (187, [on (byte 32) 3 [.requestMethod], on methodChar 188]),
  (188, [on (byte 32) 3 [.requestMethod], on methodChar 189]),
  (189, [on (byte 32) 3 [.requestMethod], on methodChar 190]),
  (190, [on (byte 32) 3 [.requestMethod], on methodChar 191]),
  (191, [on (byte 32) 3 [.requestMethod], on methodChar 192]),
  (192, [on (byte 32) 3 [.requestMethod], on methodChar 193]),
  (193, [on (byte 32) 3 [.requestMethod]])]

/-- The requests of raw sockets, `SocketXML` and `SocketJSON`, and the final states. -/
def socketRows : Table Action := [
  (194, [on xmlNameChar 195]),
  (195, [on (bytes 9 13 ++ byte 32 ++ is '/' ++ is '>') 196 [.requestPath], on xmlNameChar 195]),
  (196, [on (bytes 0 61 ++ bytes 63 255) 196, on (is '>') 197]),
  (197, [stop (byte 0) 349 [.xml, .done], on (bytes 1 61 ++ bytes 63 255) 196, on (is '>') 197]),
  (198, [on (byte 32) 199 [.requestPath], on segmentNzNc 202, on (is '%') 203, on (is '/') 208]),
  (199, [on (is '{') 200 [.mark]]),
  (200, [on (bytes 0 124 ++ bytes 126 255) 200, on (is '}') 201]),
  (201, [stop (byte 0) 349 [.json, .done], on (bytes 1 124 ++ bytes 126 255) 200,
    on (is '}') 201]),
  (202, [on (byte 32) 199 [.requestPath], on segmentNzNc 202, on (is '%') 203, on (is '/') 205]),
  (203, [on xdigit 204]),
  (204, [on xdigit 202]),
  (205, [on (byte 32) 199 [.requestPath], on pathChar 205, on (is '%') 206]),
  (206, [on xdigit 207]),
  (207, [on xdigit 205]),
  (208, [on (byte 32) 199 [.requestPath], on pchar 205, on (is '%') 206, on (is '/') 209]),
  (209, [on (byte 32) 199 [.requestPath], on regName 210, on (is '%') 211, on (is '/') 205,
    on (is ':') 213, on (is '@') 217, on (is '[') 222]),
  (210, [on (byte 32) 199 [.requestPath], on regName 210, on (is '%') 211, on (is '/') 205,
    on (is ':') 213, on (is '@') 217]),
  (211, [on xdigit 212]),
  (212, [on xdigit 210]),
  (213, [on (byte 32) 199 [.requestPath],
    on (mark1 ++ alpha ++ is '+' ++ is '-' ++ is '.' ++ is ':') 214, on (is '%') 215,
    on (is '/') 205, on digit 213, on (is '@') 217]),
  (214, [on userinfo 214, on (is '%') 215, on (is '@') 217]),
  (215, [on xdigit 216]),
  (216, [on xdigit 214]),
  (217, [on (byte 32) 199 [.requestPath], on regName 218, on (is '%') 219, on (is '/') 205,
    on (is ':') 221, on (is '[') 222]),
  (218, [on (byte 32) 199 [.requestPath], on regName 218, on (is '%') 219, on (is '/') 205,
    on (is ':') 221]),
  (219, [on xdigit 220]),
  (220, [on xdigit 218]),
  (221, [on (byte 32) 199 [.requestPath], on (is '/') 205, on digit 221]),
  (222, [on (byte 6) 223, on xdigit 266, on (is ':') 342, on (is 'v') 344]),
  (223, [on xdigit 224]),
  (224, [on xdigit 225, on (is ':') 228]),
  (225, [on xdigit 226, on (is ':') 228]),
  (226, [on xdigit 227, on (is ':') 228]),
  (227, [on (is ':') 228]),
  (228, [on (is '0' ++ upTo '3' '9') 229, on (is '1') 259, on (is '2') 262, on hexAlpha 265]),
  (229, [on (is '.') 230, on xdigit 252, on (is ':') 255]),
  (230, [on (is '0' ++ upTo '3' '9') 231, on (is '1') 247, on (is '2') 249]),
  (231, [on (is '.') 232]),
  (232, [on (is '0' ++ upTo '3' '9') 233, on (is '1') 242, on (is '2') 244]),
  (233, [on (is '.') 234]),
  (234, [on (is '0' ++ upTo '3' '9') 235, on (is '1') 237, on (is '2') 239]),
  (235, [on (is ']') 236]),
  (236, [on (byte 32) 199 [.requestPath], on (is '/') 205, on (is ':') 221]),
  (237, [on digit 238, on (is ']') 236]),
  (238, [on digit 235, on (is ']') 236]),
  (239, [on (is '0') 240, on (is '5') 241, on (is ']') 236]),
  (240, [on digit 235]),
  (241, [on (is '0') 235]),
  (242, [on (is '.') 234, on digit 243]),
  (243, [on (is '.') 234, on digit 233]),
  (244, [on (is '.') 234, on (is '0') 245, on (is '5') 246]),
  (245, [on digit 233]),
  (246, [on (is '0') 233]),
  (247, [on (is '.') 232, on digit 248]),
  (248, [on (is '.') 232, on digit 231]),
  (249, [on (is '.') 232, on (is '0') 250, on (is '5') 251]),
  (250, [on digit 231]),
  (251, [on (is '0') 231]),
  (252, [on xdigit 253, on (is ':') 255]),
  (253, [on xdigit 254, on (is ':') 255]),
  (254, [on (is ':') 255]),
  (255, [on xdigit 256]),
  (256, [on xdigit 257, on (is ']') 236]),
  (257, [on xdigit 258, on (is ']') 236]),
  (258, [on xdigit 235, on (is ']') 236]),
  (259, [on (is '.') 230, on digit 260, on (is ':') 255, on hexAlpha 252]),
  (260, [on (is '.') 230, on digit 261, on (is ':') 255, on hexAlpha 253]),
  (261, [on (is '.') 230, on xdigit 254, on (is ':') 255]),
  (262, [on (is '.') 230, on (is '0') 263, on (upTo '1' '4' ++ upTo '6' '9' ++ hexAlpha) 252,
    on (is '5') 264, on (is ':') 255]),
  (263, [on digit 261, on (is ':') 255, on hexAlpha 253]),
  (264, [on (is '0') 261, on (upTo '1' '9' ++ hexAlpha) 253, on (is ':') 255]),
  (265, [on xdigit 252, on (is ':') 255]),
  (266, [on xdigit 267, on (is ':') 270]),
  (267, [on xdigit 268, on (is ':') 270]),
  (268, [on xdigit 269, on (is ':') 270]),
  (269, [on (is ':') 270]),
  (270, [on xdigit 271, on (is ':') 341]),
  (271, [on xdigit 272, on (is ':') 275]),
  (272, [on xdigit 273, on (is ':') 275]),
  (273, [on xdigit 274, on (is ':') 275]),
  (274, [on (is ':') 275]),
  (275, [on xdigit 276, on (is ':') 340]),
  (276, [on xdigit 277, on (is ':') 280]),
  (277, [on xdigit 278, on (is ':') 280]),
  (278, [on xdigit 279, on (is ':') 280]),
  (279, [on (is ':') 280]),
  (280, [on xdigit 281, on (is ':') 339]),
  (281, [on xdigit 282, on (is ':') 285]),
  (282, [on xdigit 283, on (is ':') 285]),
  (283, [on xdigit 284, on (is ':') 285]),
  (284, [on (is ':') 285]),
  (285, [on xdigit 286, on (is ':') 338]),
  (286, [on xdigit 287, on (is ':') 290]),
  (287, [on xdigit 288, on (is ':') 290]),
  (288, [on xdigit 289, on (is ':') 290]),
  (289, [on (is ':') 290]),
  (290, [on xdigit 291, on (is ':') 326]),
  (291, [on xdigit 292, on (is ':') 295]),
  (292, [on xdigit 293, on (is ':') 295]),
  (293, [on xdigit 294, on (is ':') 295]),
  (294, [on (is ':') 295]),
  (295, [on xdigit 296, on (is ':') 325]),
  (296, [on xdigit 297, on (is ':') 300]),
  (297, [on xdigit 298, on (is ':') 300]),
  (298, [on xdigit 299, on (is ':') 300]),
  (299, [on (is ':') 300]),
  (300, [on xdigit 296, on (is ':') 301]),
  (301, [on (bytes 2 3) 223, on (is '0' ++ upTo '3' '9') 302, on (is '1') 318, on (is '2') 321,
    on hexAlpha 324, on (is ']') 236]),
  (302, [on (is '.') 230, on xdigit 303, on (is ':') 306, on (is ']') 236]),
  (303, [on xdigit 304, on (is ':') 306, on (is ']') 236]),
  (304, [on xdigit 305, on (is ':') 306, on (is ']') 236]),
  (305, [on (is ':') 306, on (is ']') 236]),
  (306, [on (is '0' ++ upTo '3' '9') 307, on (is '1') 311, on (is '2') 314, on hexAlpha 317]),
  (307, [on (is '.') 230, on xdigit 308, on (is ':') 255, on (is ']') 236]),
  (308, [on xdigit 309, on (is ':') 255, on (is ']') 236]),
  (309, [on xdigit 310, on (is ':') 255, on (is ']') 236]),
  (310, [on (is ':') 255, on (is ']') 236]),
  (311, [on (is '.') 230, on digit 312, on (is ':') 255, on hexAlpha 308, on (is ']') 236]),
  (312, [on (is '.') 230, on digit 313, on (is ':') 255, on hexAlpha 309, on (is ']') 236]),
  (313, [on (is '.') 230, on xdigit 310, on (is ':') 255, on (is ']') 236]),
  (314, [on (is '.') 230, on (is '0') 315, on (upTo '1' '4' ++ upTo '6' '9' ++ hexAlpha) 308,
    on (is '5') 316, on (is ':') 255, on (is ']') 236]),
  (315, [on digit 313, on (is ':') 255, on hexAlpha 309, on (is ']') 236]),
  (316, [on (is '0') 313, on (upTo '1' '9' ++ hexAlpha) 309, on (is ':') 255, on (is ']') 236]),
  (317, [on xdigit 308, on (is ':') 255, on (is ']') 236]),
  (318, [on (is '.') 230, on digit 319, on (is ':') 306, on hexAlpha 303, on (is ']') 236]),
  (319, [on (is '.') 230, on digit 320, on (is ':') 306, on hexAlpha 304, on (is ']') 236]),
  (320, [on (is '.') 230, on xdigit 305, on (is ':') 306, on (is ']') 236]),
  (321, [on (is '.') 230, on (is '0') 322, on (upTo '1' '4' ++ upTo '6' '9' ++ hexAlpha) 303,
    on (is '5') 323, on (is ':') 306, on (is ']') 236]),
  (322, [on digit 320, on (is ':') 306, on hexAlpha 304, on (is ']') 236]),
  (323, [on (is '0') 320, on (upTo '1' '9' ++ hexAlpha) 304, on (is ':') 306, on (is ']') 236]),
  (324, [on xdigit 303, on (is ':') 306, on (is ']') 236]),
  (325, [on (bytes 2 3) 223, on (is '0' ++ upTo '3' '9') 302, on (is '1') 318, on (is '2') 321,
    on hexAlpha 324]),
  (326, [on (bytes 2 3) 223, on (is '0' ++ upTo '3' '9') 327, on (is '1') 331, on (is '2') 334,
    on hexAlpha 337]),
  (327, [on (is '.') 230, on xdigit 328, on (is ':') 306]),
  (328, [on xdigit 329, on (is ':') 306]),
  (329, [on xdigit 330, on (is ':') 306]),
  (330, [on (is ':') 306]),
  (331, [on (is '.') 230, on digit 332, on (is ':') 306, on hexAlpha 328]),
  (332, [on (is '.') 230, on digit 333, on (is ':') 306, on hexAlpha 329]),
  (333, [on (is '.') 230, on xdigit 330, on (is ':') 306]),
  (334, [on (is '.') 230, on (is '0') 335, on (upTo '1' '4' ++ upTo '6' '9' ++ hexAlpha) 328,
    on (is '5') 336, on (is ':') 306]),
  (335, [on digit 333, on (is ':') 306, on hexAlpha 329]),
  (336, [on (is '0') 333, on (upTo '1' '9' ++ hexAlpha) 329, on (is ':') 306]),
  (337, [on xdigit 328, on (is ':') 306]),
  (338, [on (bytes 2 3) 223, on xdigit 224]),
  (339, [on (bytes 2 3) 223]),
  (340, [on (byte 3) 223]),
  (341, [on (byte 4) 223]),
  (342, [on (is ':') 343]),
  (343, [on (bytes 2 5) 223, on (is '0' ++ upTo '3' '9') 302, on (is '1') 318, on (is '2') 321,
    on hexAlpha 324, on (is ']') 236]),
  (344, [on xdigit 345]),
  (345, [on (is '.') 346, on xdigit 345]),
  (346, [on userinfo 347]),
  (347, [on userinfo 347, on (is ']') 236]),
  (348, [on (bytes 1 8 ++ bytes 10 31 ++ tokenChar) 14, on (is ':') 15 [.writeField]]),
  (349, [])]

def table : Table Action :=
  startRows ++ headerRows ++ uriRows ++ authorityRows ++ hostRows ++ methodRows ++ socketRows

/-- `http_parser_start`. -/
def httpParserStart : Nat := 1

/-- `http_parser_first_final`. -/
def httpParserFirstFinal : Nat := 348

/-- `http_parser_error`. -/
def httpParserError : Nat := 0

/-- The machine `http_parser`. -/
def machine (uriRelaxed : Bool) : Automaton Nat Action UInt8 := table.machine uriRelaxed

theorem machine_of_table {P : Nat → Row Action → Bool}
    (h : table.all (fun e => e.2.all (P e.1)) = true) {uriRelaxed : Bool} {q : Nat} {b : UInt8}
    {arc : Arc Nat Action} (harc : machine uriRelaxed q b = some arc) :
    ∃ r, r.arc = arc ∧ r.on.contains uriRelaxed b = true ∧ P q r = true := by
  unfold machine at harc
  exact Table.machine_of_all h harc

end Nemo.Http
