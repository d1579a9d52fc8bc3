import Nemo.Http.Table

/-!
# The automaton of `uri.rl`

The table of the machine `uri_parser`, row by row, as it stands in the generated `uri.rl.cc`: 560 states,
of which 451 is the start and those from 451 on are final. `eofActions` are the actions that run
when the input ends in a final state.

The grammar makes every state for an authority twice, once for one that stands behind a scheme, whose
path is stored, and once for one that does not. `dec_octet` has `2 [0-4] digit`, where `2` is
the byte 2 and not the digit: the table reads the byte 2 in addresses.
-/

namespace Nemo.Net

open Infra Http

/-! ## Byte classes -/

def subDelims : Http.Class := is '!' ++ is '$' ++ upTo '&' ',' ++ is ';' ++ is '='
def unreserved : Http.Class := alpha ++ digit ++ is '-' ++ is '.' ++ is '_' ++ is '~'
def regChar : Http.Class := unreserved ++ subDelims
def userinfoChar : Http.Class := regChar ++ is ':'
def segmentNcChar : Http.Class := regChar ++ is '@' ++ bytes 128 255
def segmentChar : Http.Class := userinfoChar ++ is '@' ++ bytes 128 255
def queryByte : Http.Class := segmentChar ++ is '/' ++ is '?'
def schemeByte : Http.Class := alpha ++ digit ++ is '+' ++ is '-' ++ is '.'
def hostAlpha : Http.Class := alpha ++ subDelims ++ is '-' ++ is '_' ++ is '~'
def hostStart : Http.Class := hostAlpha ++ is '.'
def notScheme : Http.Class :=
  is '!' ++ is '$' ++ upTo '&' '*' ++ is ',' ++ is ';' ++ is '=' ++ is '@' ++ is '_' ++ is '~' ++
    bytes 128 255
def notLetter : Http.Class := notScheme ++ digit ++ is '+' ++ is '-' ++ is '.'

/-! ## Rows -/

namespace Uri

/-- The actions of the machine. -/
inductive Action
  | marku | markh | saveScheme | savePort | saveUserinfo | saveHost | savePath | saveQuery
  | saveFragment
  deriving DecidableEq, Repr

/-- Start, scheme, the path of a relative reference, and what follows the first colon. -/
def referenceRows : Table Action := [
  (3, [on xdigit 4]),
  (4, [on xdigit 452]),
  (5, [on xdigit 6]),
  (6, [on xdigit 455]),
  (451, [on notLetter 452, on (is '#') 453, on (is '%') 3, on (is '/') 458, on (is '?') 456,
    on alpha 508 [.marku]]),
  (452, [on segmentNcChar 452, on (is '#') 453, on (is '%') 3, on (is '/') 455, on (is '?') 456]),
  (455, [on (segmentChar ++ is '/') 455, on (is '#') 453, on (is '%') 5, on (is '?') 456]),
  (508, [on notScheme 452, on (is '#') 453, on (is '%') 3, on schemeByte 508, on (is '/') 455,
    on (is ':') 509 [.saveScheme], on (is '?') 456]),
  (509, [on segmentChar 455, on (is '#') 453, on (is '%') 5, on (is '/') 510, on (is '?') 456])]

/-- The path of a scheme with an authority, query and fragment. -/
def partRows : Table Action := [
  (1, [on xdigit 2]),
  (2, [on xdigit 454]),
  (7, [on xdigit 8]),
  (8, [on xdigit 457]),
  (243, [on xdigit 244]),
  (244, [on xdigit 513]),
  (453, [on queryByte 454 [.marku], on (is '%') 1 [.marku]]),
  (454, [on queryByte 454, on (is '%') 1]),
  (456, [on queryByte 457 [.marku], on (is '#') 453 [.marku, .saveQuery], on (is '%') 7 [.marku]]),
  (457, [on queryByte 457, on (is '#') 453 [.saveQuery], on (is '%') 7]),
  (513, [on (segmentChar ++ is '/') 513, on (is '#') 453 [.savePath], on (is '%') 243,
    on (is '?') 456 [.savePath]])]

/-- An authority behind a scheme: slashes, user information, registered names and ports. -/
def schemeAuthorityRows : Table Action := [
  (253, [on xdigit 254]),
  (254, [on xdigit 520]),
  (255, [on userinfoChar 255, on (is '%') 256, on (is '@') 522 [.saveUserinfo]]),
  (256, [on xdigit 257]),
  (257, [on xdigit 255]),
  (258, [on xdigit 259]),
  (259, [on xdigit 523]),
  (510, [on segmentChar 455, on (is '#') 453, on (is '%') 5, on (is '/') 511, on (is '?') 456]),
  (511, [on (byte 2) 229 [.markh], on hostStart 520 [.markh],
    on (is '#') 453 [.markh, .saveHost, .savePath], on (is '%') 253 [.markh],
    on (is '/') 513 [.markh, .saveHost], on (is '0') 543 [.markh], on (is '1') 557 [.markh],
    on (is '2') 559 [.markh], on (upTo '3' '9') 558 [.markh], on (is ':') 521 [.markh, .saveHost],
    on (is '?') 456 [.markh, .saveHost, .savePath], on (is '@') 522 [.markh, .saveUserinfo],
    on (is '[') 260 [.markh]]),
  (512, [on (is '#') 453 [.saveHost, .markh, .savePath], on (is '/') 513 [.saveHost, .markh],
    on (is ':') 514 [.saveHost], on (is '?') 456 [.saveHost, .markh, .savePath]]),
  (514, [on (is '#') 453 [.markh, .savePort, .savePath], on (is '/') 513 [.markh, .savePort],
    on digit 515 [.markh], on (is '?') 456 [.markh, .savePort, .savePath]]),
  (515, [on (is '#') 453 [.savePort, .markh, .savePath], on (is '/') 513 [.savePort, .markh],
    on digit 515, on (is '?') 456 [.savePort, .markh, .savePath]]),
  (520, [on regChar 520, on (is '#') 453 [.saveHost, .markh, .savePath], on (is '%') 253,
    on (is '/') 513 [.saveHost, .markh], on (is ':') 521 [.saveHost],
    on (is '?') 456 [.saveHost, .markh, .savePath], on (is '@') 522 [.saveUserinfo]]),
  (521, [on (hostStart ++ is ':') 255, on (is '#') 453 [.markh, .savePort, .savePath],
    on (is '%') 256, on (is '/') 513 [.markh, .savePort], on digit 542 [.markh],
    on (is '?') 456 [.markh, .savePort, .savePath], on (is '@') 522 [.saveUserinfo]]),
  (522, [on (byte 2) 229 [.markh], on hostStart 523 [.markh],
    on (is '#') 453 [.markh, .saveHost, .savePath], on (is '%') 258 [.markh],
    on (is '/') 513 [.markh, .saveHost], on (is '0') 524 [.markh], on (is '1') 538 [.markh],
    on (is '2') 540 [.markh], on (upTo '3' '9') 539 [.markh], on (is ':') 514 [.markh, .saveHost],
    on (is '?') 456 [.markh, .saveHost, .savePath], on (is '[') 260 [.markh]]),
  (523, [on regChar 523, on (is '#') 453 [.saveHost, .markh, .savePath], on (is '%') 258,
    on (is '/') 513 [.saveHost, .markh], on (is ':') 514 [.saveHost],
    on (is '?') 456 [.saveHost, .markh, .savePath]]),
  (524, [on (hostAlpha ++ digit) 523, on (is '#') 453 [.saveHost, .markh, .savePath],
    on (is '%') 258, on (is '.') 525, on (is '/') 513 [.saveHost, .markh],
    on (is ':') 514 [.saveHost], on (is '?') 456 [.saveHost, .markh, .savePath]]),
  (525, [on (byte 2) 233, on hostStart 523, on (is '#') 453 [.saveHost, .markh, .savePath],
    on (is '%') 258, on (is '/') 513 [.saveHost, .markh], on (is '0') 526, on (is '1') 534,
    on (is '2') 536, on (upTo '3' '9') 535, on (is ':') 514 [.saveHost],
    on (is '?') 456 [.saveHost, .markh, .savePath]]),
  (526, [on (hostAlpha ++ digit) 523, on (is '#') 453 [.saveHost, .markh, .savePath],
    on (is '%') 258, on (is '.') 527, on (is '/') 513 [.saveHost, .markh],
    on (is ':') 514 [.saveHost], on (is '?') 456 [.saveHost, .markh, .savePath]]),
  (527, [on (byte 2) 237, on hostStart 523, on (is '#') 453 [.saveHost, .markh, .savePath],
    on (is '%') 258, on (is '/') 513 [.saveHost, .markh], on (is '0') 528, on (is '1') 530,
    on (is '2') 532, on (upTo '3' '9') 531, on (is ':') 514 [.saveHost],
    on (is '?') 456 [.saveHost, .markh, .savePath]]),
  (528, [on (hostAlpha ++ digit) 523, on (is '#') 453 [.saveHost, .markh, .savePath],
    on (is '%') 258, on (is '.') 529, on (is '/') 513 [.saveHost, .markh],
    on (is ':') 514 [.saveHost], on (is '?') 456 [.saveHost, .markh, .savePath]]),
  (529, [on (byte 2) 241, on regChar 523, on (is '#') 453 [.saveHost, .markh, .savePath],
    on (is '%') 258, on (is '/') 513 [.saveHost, .markh], on (is ':') 514 [.saveHost],
    on (is '?') 456 [.saveHost, .markh, .savePath]]),
  (530, [on hostAlpha 523, on (is '#') 453 [.saveHost, .markh, .savePath], on (is '%') 258,
    on (is '.') 529, on (is '/') 513 [.saveHost, .markh], on digit 531,
    on (is ':') 514 [.saveHost], on (is '?') 456 [.saveHost, .markh, .savePath]]),
  (531, [on hostAlpha 523, on (is '#') 453 [.saveHost, .markh, .savePath], on (is '%') 258,
    on (is '.') 529, on (is '/') 513 [.saveHost, .markh], on digit 528,
    on (is ':') 514 [.saveHost], on (is '?') 456 [.saveHost, .markh, .savePath]]),
  (532, [on hostAlpha 523, on (is '#') 453 [.saveHost, .markh, .savePath], on (is '%') 258,
    on (is '.') 529, on (is '/') 513 [.saveHost, .markh], on (upTo '0' '4' ++ upTo '6' '9') 528,
    on (is '5') 533, on (is ':') 514 [.saveHost], on (is '?') 456 [.saveHost, .markh, .savePath]]),
  (533, [on (hostAlpha ++ upTo '6' '9') 523, on (is '#') 453 [.saveHost, .markh, .savePath],
    on (is '%') 258, on (is '.') 529, on (is '/') 513 [.saveHost, .markh], on (upTo '0' '5') 528,
    on (is ':') 514 [.saveHost], on (is '?') 456 [.saveHost, .markh, .savePath]]),
  (534, [on hostAlpha 523, on (is '#') 453 [.saveHost, .markh, .savePath], on (is '%') 258,
    on (is '.') 527, on (is '/') 513 [.saveHost, .markh], on digit 535,
    on (is ':') 514 [.saveHost], on (is '?') 456 [.saveHost, .markh, .savePath]]),
  (535, [on hostAlpha 523, on (is '#') 453 [.saveHost, .markh, .savePath], on (is '%') 258,
    on (is '.') 527, on (is '/') 513 [.saveHost, .markh], on digit 526,
    on (is ':') 514 [.saveHost], on (is '?') 456 [.saveHost, .markh, .savePath]]),
  (536, [on hostAlpha 523, on (is '#') 453 [.saveHost, .markh, .savePath], on (is '%') 258,
    on (is '.') 527, on (is '/') 513 [.saveHost, .markh], on (upTo '0' '4' ++ upTo '6' '9') 526,
    on (is '5') 537, on (is ':') 514 [.saveHost], on (is '?') 456 [.saveHost, .markh, .savePath]]),
  (537, [on (hostAlpha ++ upTo '6' '9') 523, on (is '#') 453 [.saveHost, .markh, .savePath],
    on (is '%') 258, on (is '.') 527, on (is '/') 513 [.saveHost, .markh], on (upTo '0' '5') 526,
    on (is ':') 514 [.saveHost], on (is '?') 456 [.saveHost, .markh, .savePath]]),
  (538, [on hostAlpha 523, on (is '#') 453 [.saveHost, .markh, .savePath], on (is '%') 258,
    on (is '.') 525, on (is '/') 513 [.saveHost, .markh], on digit 539,
    on (is ':') 514 [.saveHost], on (is '?') 456 [.saveHost, .markh, .savePath]]),
  (539, [on hostAlpha 523, on (is '#') 453 [.saveHost, .markh, .savePath], on (is '%') 258,
    on (is '.') 525, on (is '/') 513 [.saveHost, .markh], on digit 524,
    on (is ':') 514 [.saveHost], on (is '?') 456 [.saveHost, .markh, .savePath]]),
  (540, [on hostAlpha 523, on (is '#') 453 [.saveHost, .markh, .savePath], on (is '%') 258,
    on (is '.') 525, on (is '/') 513 [.saveHost, .markh], on (upTo '0' '4' ++ upTo '6' '9') 524,
    on (is '5') 541, on (is ':') 514 [.saveHost], on (is '?') 456 [.saveHost, .markh, .savePath]]),
  (541, [on (hostAlpha ++ upTo '6' '9') 523, on (is '#') 453 [.saveHost, .markh, .savePath],
    on (is '%') 258, on (is '.') 525, on (is '/') 513 [.saveHost, .markh], on (upTo '0' '5') 524,
    on (is ':') 514 [.saveHost], on (is '?') 456 [.saveHost, .markh, .savePath]]),
  (542, [on (hostStart ++ is ':') 255, on (is '#') 453 [.savePort, .markh, .savePath],
    on (is '%') 256, on (is '/') 513 [.savePort, .markh], on digit 542,
    on (is '?') 456 [.savePort, .markh, .savePath], on (is '@') 522 [.saveUserinfo]]),
  (543, [on (hostAlpha ++ digit) 520, on (is '#') 453 [.saveHost, .markh, .savePath],
    on (is '%') 253, on (is '.') 544, on (is '/') 513 [.saveHost, .markh],
    on (is ':') 521 [.saveHost], on (is '?') 456 [.saveHost, .markh, .savePath],
    on (is '@') 522 [.saveUserinfo]]),
  (544, [on (byte 2) 233, on hostStart 520, on (is '#') 453 [.saveHost, .markh, .savePath],
    on (is '%') 253, on (is '/') 513 [.saveHost, .markh], on (is '0') 545, on (is '1') 553,
    on (is '2') 555, on (upTo '3' '9') 554, on (is ':') 521 [.saveHost],
    on (is '?') 456 [.saveHost, .markh, .savePath], on (is '@') 522 [.saveUserinfo]]),
  (545, [on (hostAlpha ++ digit) 520, on (is '#') 453 [.saveHost, .markh, .savePath],
    on (is '%') 253, on (is '.') 546, on (is '/') 513 [.saveHost, .markh],
    on (is ':') 521 [.saveHost], on (is '?') 456 [.saveHost, .markh, .savePath],
    on (is '@') 522 [.saveUserinfo]]),
  (546, [on (byte 2) 237, on hostStart 520, on (is '#') 453 [.saveHost, .markh, .savePath],
    on (is '%') 253, on (is '/') 513 [.saveHost, .markh], on (is '0') 547, on (is '1') 549,
    on (is '2') 551, on (upTo '3' '9') 550, on (is ':') 521 [.saveHost],
    on (is '?') 456 [.saveHost, .markh, .savePath], on (is '@') 522 [.saveUserinfo]]),
  (547, [on (hostAlpha ++ digit) 520, on (is '#') 453 [.saveHost, .markh, .savePath],
    on (is '%') 253, on (is '.') 548, on (is '/') 513 [.saveHost, .markh],
    on (is ':') 521 [.saveHost], on (is '?') 456 [.saveHost, .markh, .savePath],
    on (is '@') 522 [.saveUserinfo]]),
  (548, [on (byte 2) 241, on regChar 520, on (is '#') 453 [.saveHost, .markh, .savePath],
    on (is '%') 253, on (is '/') 513 [.saveHost, .markh], on (is ':') 521 [.saveHost],
    on (is '?') 456 [.saveHost, .markh, .savePath], on (is '@') 522 [.saveUserinfo]]),
  (549, [on hostAlpha 520, on (is '#') 453 [.saveHost, .markh, .savePath], on (is '%') 253,
    on (is '.') 548, on (is '/') 513 [.saveHost, .markh], on digit 550,
    on (is ':') 521 [.saveHost], on (is '?') 456 [.saveHost, .markh, .savePath],
    on (is '@') 522 [.saveUserinfo]]),
  (550, [on hostAlpha 520, on (is '#') 453 [.saveHost, .markh, .savePath], on (is '%') 253,
    on (is '.') 548, on (is '/') 513 [.saveHost, .markh], on digit 547,
    on (is ':') 521 [.saveHost], on (is '?') 456 [.saveHost, .markh, .savePath],
    on (is '@') 522 [.saveUserinfo]]),
  (551, [on hostAlpha 520, on (is '#') 453 [.saveHost, .markh, .savePath], on (is '%') 253,
    on (is '.') 548, on (is '/') 513 [.saveHost, .markh], on (upTo '0' '4' ++ upTo '6' '9') 547,
    on (is '5') 552, on (is ':') 521 [.saveHost], on (is '?') 456 [.saveHost, .markh, .savePath],
    on (is '@') 522 [.saveUserinfo]]),
  (552, [on (hostAlpha ++ upTo '6' '9') 520, on (is '#') 453 [.saveHost, .markh, .savePath],
    on (is '%') 253, on (is '.') 548, on (is '/') 513 [.saveHost, .markh], on (upTo '0' '5') 547,
    on (is ':') 521 [.saveHost], on (is '?') 456 [.saveHost, .markh, .savePath],
    on (is '@') 522 [.saveUserinfo]]),
  (553, [on hostAlpha 520, on (is '#') 453 [.saveHost, .markh, .savePath], on (is '%') 253,
    on (is '.') 546, on (is '/') 513 [.saveHost, .markh], on digit 554,
    on (is ':') 521 [.saveHost], on (is '?') 456 [.saveHost, .markh, .savePath],
    on (is '@') 522 [.saveUserinfo]]),
  (554, [on hostAlpha 520, on (is '#') 453 [.saveHost, .markh, .savePath], on (is '%') 253,
    on (is '.') 546, on (is '/') 513 [.saveHost, .markh], on digit 545,
    on (is ':') 521 [.saveHost], on (is '?') 456 [.saveHost, .markh, .savePath],
    on (is '@') 522 [.saveUserinfo]]),
  (555, [on hostAlpha 520, on (is '#') 453 [.saveHost, .markh, .savePath], on (is '%') 253,
    on (is '.') 546, on (is '/') 513 [.saveHost, .markh], on (upTo '0' '4' ++ upTo '6' '9') 545,
    on (is '5') 556, on (is ':') 521 [.saveHost], on (is '?') 456 [.saveHost, .markh, .savePath],
    on (is '@') 522 [.saveUserinfo]]),
  (556, [on (hostAlpha ++ upTo '6' '9') 520, on (is '#') 453 [.saveHost, .markh, .savePath],
    on (is '%') 253, on (is '.') 546, on (is '/') 513 [.saveHost, .markh], on (upTo '0' '5') 545,
    on (is ':') 521 [.saveHost], on (is '?') 456 [.saveHost, .markh, .savePath],
    on (is '@') 522 [.saveUserinfo]]),
  (557, [on hostAlpha 520, on (is '#') 453 [.saveHost, .markh, .savePath], on (is '%') 253,
    on (is '.') 544, on (is '/') 513 [.saveHost, .markh], on digit 558,
    on (is ':') 521 [.saveHost], on (is '?') 456 [.saveHost, .markh, .savePath],
    on (is '@') 522 [.saveUserinfo]]),
  (558, [on hostAlpha 520, on (is '#') 453 [.saveHost, .markh, .savePath], on (is '%') 253,
    on (is '.') 544, on (is '/') 513 [.saveHost, .markh], on digit 543,
    on (is ':') 521 [.saveHost], on (is '?') 456 [.saveHost, .markh, .savePath],
    on (is '@') 522 [.saveUserinfo]]),
  (559, [on hostAlpha 520, on (is '#') 453 [.saveHost, .markh, .savePath], on (is '%') 253,
    on (is '.') 544, on (is '/') 513 [.saveHost, .markh], on (upTo '0' '4' ++ upTo '6' '9') 543,
    on (is '5') 560, on (is ':') 521 [.saveHost], on (is '?') 456 [.saveHost, .markh, .savePath],
    on (is '@') 522 [.saveUserinfo]]),
  (560, [on (hostAlpha ++ upTo '6' '9') 520, on (is '#') 453 [.saveHost, .markh, .savePath],
    on (is '%') 253, on (is '.') 544, on (is '/') 513 [.saveHost, .markh], on (upTo '0' '5') 543,
    on (is ':') 521 [.saveHost], on (is '?') 456 [.saveHost, .markh, .savePath],
    on (is '@') 522 [.saveUserinfo]])]

/-- An authority behind a scheme: addresses with an octet `2 [0-4] digit`, which begins with the byte 2. -/
def schemeAddressRows : Table Action := [
  (229, [on (upTo '0' '4') 230]),
  (230, [on digit 231]),
  (231, [on (is '.') 232]),
  (232, [on (byte 2) 233, on (is '0') 235, on (is '1') 249, on (is '2') 251,
    on (upTo '3' '9') 250]),
  (233, [on (upTo '0' '4') 234]),
  (234, [on digit 235]),
  (235, [on (is '.') 236]),
  (236, [on (byte 2) 237, on (is '0') 239, on (is '1') 245, on (is '2') 247,
    on (upTo '3' '9') 246]),
  (237, [on (upTo '0' '4') 238]),
  (238, [on digit 239]),
  (239, [on (is '.') 240]),
  (240, [on (byte 2) 241, on (is '0') 512, on (is '1') 516, on (is '2') 518,
    on (upTo '3' '9') 517]),
  (241, [on (upTo '0' '4') 242]),
  (242, [on digit 512]),
  (245, [on (is '.') 240, on digit 246]),
  (246, [on (is '.') 240, on digit 239]),
  (247, [on (is '.') 240, on (upTo '0' '4' ++ upTo '6' '9') 239, on (is '5') 248]),
  (248, [on (is '.') 240, on (upTo '0' '5') 239]),
  (249, [on (is '.') 236, on digit 250]),
  (250, [on (is '.') 236, on digit 235]),
  (251, [on (is '.') 236, on (upTo '0' '4' ++ upTo '6' '9') 235, on (is '5') 252]),
  (252, [on (is '.') 236, on (upTo '0' '5') 235]),
  (516, [on (is '#') 453 [.saveHost, .markh, .savePath], on (is '/') 513 [.saveHost, .markh],
    on digit 517, on (is ':') 514 [.saveHost], on (is '?') 456 [.saveHost, .markh, .savePath]]),
  (517, [on (is '#') 453 [.saveHost, .markh, .savePath], on (is '/') 513 [.saveHost, .markh],
    on digit 512, on (is ':') 514 [.saveHost], on (is '?') 456 [.saveHost, .markh, .savePath]]),
  (518, [on (is '#') 453 [.saveHost, .markh, .savePath], on (is '/') 513 [.saveHost, .markh],
    on (upTo '0' '4' ++ upTo '6' '9') 512, on (is '5') 519, on (is ':') 514 [.saveHost],
    on (is '?') 456 [.saveHost, .markh, .savePath]]),
  (519, [on (is '#') 453 [.saveHost, .markh, .savePath], on (is '/') 513 [.saveHost, .markh],
    on (upTo '0' '5') 512, on (is ':') 514 [.saveHost],
    on (is '?') 456 [.saveHost, .markh, .savePath]])]

/-- An authority behind a scheme: what stands in brackets. -/
def schemeLiteralRows : Table Action := [
  (260, [on xdigit 261, on (is ':') 368, on (is 'v') 447]),
  (261, [on xdigit 262, on (is ':') 265]),
  (262, [on xdigit 263, on (is ':') 265]),
  (263, [on xdigit 264, on (is ':') 265]),
  (264, [on (is ':') 265]),
  (265, [on xdigit 266, on (is ':') 363]),
  (266, [on xdigit 267, on (is ':') 270]),
  (267, [on xdigit 268, on (is ':') 270]),
  (268, [on xdigit 269, on (is ':') 270]),
  (269, [on (is ':') 270]),
  (270, [on xdigit 271, on (is ':') 358]),
  (271, [on xdigit 272, on (is ':') 275]),
  (272, [on xdigit 273, on (is ':') 275]),
  (273, [on xdigit 274, on (is ':') 275]),
  (274, [on (is ':') 275]),
  (275, [on xdigit 276, on (is ':') 353]),
  (276, [on xdigit 277, on (is ':') 280]),
  (277, [on xdigit 278, on (is ':') 280]),
  (278, [on xdigit 279, on (is ':') 280]),
  (279, [on (is ':') 280]),
  (280, [on xdigit 281, on (is ':') 348]),
  (281, [on xdigit 282, on (is ':') 285]),
  (282, [on xdigit 283, on (is ':') 285]),
  (283, [on xdigit 284, on (is ':') 285]),
  (284, [on (is ':') 285]),
  (285, [on xdigit 286, on (is ':') 335]),
  (286, [on xdigit 287, on (is ':') 290]),
  (287, [on xdigit 288, on (is ':') 290]),
  (288, [on xdigit 289, on (is ':') 290]),
  (289, [on (is ':') 290]),
  (290, [on (byte 2) 291, on (is '0') 318, on (is '1') 326, on (is '2') 329,
    on (upTo '3' '9') 332, on (is ':') 333, on hexAlpha 334]),
  (291, [on (upTo '0' '4') 292]),
  (292, [on digit 293]),
  (293, [on (is '.') 294]),
  (294, [on (byte 2) 295, on (is '0') 297, on (is '1') 314, on (is '2') 316,
    on (upTo '3' '9') 315]),
  (295, [on (upTo '0' '4') 296]),
  (296, [on digit 297]),
  (297, [on (is '.') 298]),
  (298, [on (byte 2) 299, on (is '0') 301, on (is '1') 310, on (is '2') 312,
    on (upTo '3' '9') 311]),
  (299, [on (upTo '0' '4') 300]),
  (300, [on digit 301]),
  (301, [on (is '.') 302]),
  (302, [on (byte 2) 303, on (is '0') 305, on (is '1') 306, on (is '2') 308,
    on (upTo '3' '9') 307]),
  (303, [on (upTo '0' '4') 304]),
  (304, [on digit 305]),
  (305, [on (is ']') 512]),
  (306, [on digit 307, on (is ']') 512]),
  (307, [on digit 305, on (is ']') 512]),
  (308, [on (upTo '0' '4' ++ upTo '6' '9') 305, on (is '5') 309, on (is ']') 512]),
  (309, [on (upTo '0' '5') 305, on (is ']') 512]),
  (310, [on (is '.') 302, on digit 311]),
  (311, [on (is '.') 302, on digit 301]),
  (312, [on (is '.') 302, on (upTo '0' '4' ++ upTo '6' '9') 301, on (is '5') 313]),
  (313, [on (is '.') 302, on (upTo '0' '5') 301]),
  (314, [on (is '.') 298, on digit 315]),
  (315, [on (is '.') 298, on digit 297]),
  (316, [on (is '.') 298, on (upTo '0' '4' ++ upTo '6' '9') 297, on (is '5') 317]),
  (317, [on (is '.') 298, on (upTo '0' '5') 297]),
  (318, [on (is '.') 294, on xdigit 319, on (is ':') 322]),
  (319, [on xdigit 320, on (is ':') 322]),
  (320, [on xdigit 321, on (is ':') 322]),
  (321, [on (is ':') 322]),
  (322, [on xdigit 323, on (is ':') 305]),
  (323, [on xdigit 324, on (is ']') 512]),
  (324, [on xdigit 325, on (is ']') 512]),
  (325, [on xdigit 305, on (is ']') 512]),
  (326, [on (is '.') 294, on digit 327, on (is ':') 322, on hexAlpha 319]),
  (327, [on (is '.') 294, on digit 328, on (is ':') 322, on hexAlpha 320]),
  (328, [on (is '.') 294, on xdigit 321, on (is ':') 322]),
  (329, [on (is '.') 294, on (upTo '0' '4' ++ upTo '6' '9') 330, on (is '5') 331, on (is ':') 322,
    on hexAlpha 319]),
  (330, [on (is '.') 294, on xdigit 320, on (is ':') 322]),
  (331, [on (is '.') 294, on (upTo '0' '5') 328, on (hexAlpha ++ upTo '6' '9') 320,
    on (is ':') 322]),
  (332, [on (is '.') 294, on digit 330, on (is ':') 322, on hexAlpha 319]),
  (333, [on xdigit 323]),
  (334, [on xdigit 319, on (is ':') 322]),
  (335, [on (byte 2) 291, on (is '0') 336, on (is '1') 340, on (is '2') 343,
    on (upTo '3' '9') 346, on hexAlpha 347]),
  (336, [on (is '.') 294, on xdigit 337, on (is ':') 333]),
  (337, [on xdigit 338, on (is ':') 333]),
  (338, [on xdigit 339, on (is ':') 333]),
  (339, [on (is ':') 333]),
  (340, [on (is '.') 294, on digit 341, on (is ':') 333, on hexAlpha 337]),
  (341, [on (is '.') 294, on digit 342, on (is ':') 333, on hexAlpha 338]),
  (342, [on (is '.') 294, on xdigit 339, on (is ':') 333]),
  (343, [on (is '.') 294, on (upTo '0' '4' ++ upTo '6' '9') 344, on (is '5') 345, on (is ':') 333,
    on hexAlpha 337]),
  (344, [on (is '.') 294, on xdigit 338, on (is ':') 333]),
  (345, [on (is '.') 294, on (upTo '0' '5') 342, on (hexAlpha ++ upTo '6' '9') 338,
    on (is ':') 333]),
  (346, [on (is '.') 294, on digit 344, on (is ':') 333, on hexAlpha 337]),
  (347, [on xdigit 337, on (is ':') 333]),
  (348, [on xdigit 349]),
  (349, [on xdigit 350, on (is ':') 335]),
  (350, [on xdigit 351, on (is ':') 335]),
  (351, [on xdigit 352, on (is ':') 335]),
  (352, [on (is ':') 335]),
  (353, [on xdigit 354]),
  (354, [on xdigit 355, on (is ':') 348]),
  (355, [on xdigit 356, on (is ':') 348]),
  (356, [on xdigit 357, on (is ':') 348]),
  (357, [on (is ':') 348]),
  (358, [on xdigit 359]),
  (359, [on xdigit 360, on (is ':') 353]),
  (360, [on xdigit 361, on (is ':') 353]),
  (361, [on xdigit 362, on (is ':') 353]),
  (362, [on (is ':') 353]),
  (363, [on xdigit 364]),
  (364, [on xdigit 365, on (is ':') 358]),
  (365, [on xdigit 366, on (is ':') 358]),
  (366, [on xdigit 367, on (is ':') 358]),
  (367, [on (is ':') 358]),
  (368, [on (is ':') 369]),
  (369, [on (byte 2) 291, on (is '0') 370, on (is '1') 439, on (is '2') 442,
    on (upTo '3' '9') 445, on hexAlpha 446, on (is ']') 512]),
  (370, [on (is '.') 294, on xdigit 371, on (is ':') 374, on (is ']') 512]),
  (371, [on xdigit 372, on (is ':') 374, on (is ']') 512]),
  (372, [on xdigit 373, on (is ':') 374, on (is ']') 512]),
  (373, [on (is ':') 374, on (is ']') 512]),
  (374, [on (byte 2) 291, on (is '0') 375, on (is '1') 431, on (is '2') 434,
    on (upTo '3' '9') 437, on hexAlpha 438]),
  (375, [on (is '.') 294, on xdigit 376, on (is ':') 379, on (is ']') 512]),
  (376, [on xdigit 377, on (is ':') 379, on (is ']') 512]),
  (377, [on xdigit 378, on (is ':') 379, on (is ']') 512]),
  (378, [on (is ':') 379, on (is ']') 512]),
  (379, [on (byte 2) 291, on (is '0') 380, on (is '1') 423, on (is '2') 426,
    on (upTo '3' '9') 429, on hexAlpha 430]),
  (380, [on (is '.') 294, on xdigit 381, on (is ':') 384, on (is ']') 512]),
  (381, [on xdigit 382, on (is ':') 384, on (is ']') 512]),
  (382, [on xdigit 383, on (is ':') 384, on (is ']') 512]),
  (383, [on (is ':') 384, on (is ']') 512]),
  (384, [on (byte 2) 291, on (is '0') 385, on (is '1') 415, on (is '2') 418,
    on (upTo '3' '9') 421, on hexAlpha 422]),
  (385, [on (is '.') 294, on xdigit 386, on (is ':') 389, on (is ']') 512]),
  (386, [on xdigit 387, on (is ':') 389, on (is ']') 512]),
  (387, [on xdigit 388, on (is ':') 389, on (is ']') 512]),
  (388, [on (is ':') 389, on (is ']') 512]),
  (389, [on (byte 2) 291, on (is '0') 390, on (is '1') 407, on (is '2') 410,
    on (upTo '3' '9') 413, on hexAlpha 414]),
  (390, [on (is '.') 294, on xdigit 391, on (is ':') 394, on (is ']') 512]),
  (391, [on xdigit 392, on (is ':') 394, on (is ']') 512]),
  (392, [on xdigit 393, on (is ':') 394, on (is ']') 512]),
  (393, [on (is ':') 394, on (is ']') 512]),
  (394, [on (byte 2) 291, on (is '0') 395, on (is '1') 399, on (is '2') 402,
    on (upTo '3' '9') 405, on hexAlpha 406]),
  (395, [on (is '.') 294, on xdigit 396, on (is ':') 333, on (is ']') 512]),
  (396, [on xdigit 397, on (is ':') 333, on (is ']') 512]),
  (397, [on xdigit 398, on (is ':') 333, on (is ']') 512]),
  (398, [on (is ':') 333, on (is ']') 512]),
  (399, [on (is '.') 294, on digit 400, on (is ':') 333, on hexAlpha 396, on (is ']') 512]),
  (400, [on (is '.') 294, on digit 401, on (is ':') 333, on hexAlpha 397, on (is ']') 512]),
  (401, [on (is '.') 294, on xdigit 398, on (is ':') 333, on (is ']') 512]),
  (402, [on (is '.') 294, on (upTo '0' '4' ++ upTo '6' '9') 403, on (is '5') 404, on (is ':') 333,
    on hexAlpha 396, on (is ']') 512]),
  (403, [on (is '.') 294, on xdigit 397, on (is ':') 333, on (is ']') 512]),
  (404, [on (is '.') 294, on (upTo '0' '5') 401, on (hexAlpha ++ upTo '6' '9') 397,
    on (is ':') 333, on (is ']') 512]),
  (405, [on (is '.') 294, on digit 403, on (is ':') 333, on hexAlpha 396, on (is ']') 512]),
  (406, [on xdigit 396, on (is ':') 333, on (is ']') 512]),
  (407, [on (is '.') 294, on digit 408, on (is ':') 394, on hexAlpha 391, on (is ']') 512]),
  (408, [on (is '.') 294, on digit 409, on (is ':') 394, on hexAlpha 392, on (is ']') 512]),
  (409, [on (is '.') 294, on xdigit 393, on (is ':') 394, on (is ']') 512]),
  (410, [on (is '.') 294, on (upTo '0' '4' ++ upTo '6' '9') 411, on (is '5') 412, on (is ':') 394,
    on hexAlpha 391, on (is ']') 512]),
  (411, [on (is '.') 294, on xdigit 392, on (is ':') 394, on (is ']') 512]),
  (412, [on (is '.') 294, on (upTo '0' '5') 409, on (hexAlpha ++ upTo '6' '9') 392,
    on (is ':') 394, on (is ']') 512]),
  (413, [on (is '.') 294, on digit 411, on (is ':') 394, on hexAlpha 391, on (is ']') 512]),
  (414, [on xdigit 391, on (is ':') 394, on (is ']') 512]),
  (415, [on (is '.') 294, on digit 416, on (is ':') 389, on hexAlpha 386, on (is ']') 512]),
  (416, [on (is '.') 294, on digit 417, on (is ':') 389, on hexAlpha 387, on (is ']') 512]),
  (417, [on (is '.') 294, on xdigit 388, on (is ':') 389, on (is ']') 512]),
  (418, [on (is '.') 294, on (upTo '0' '4' ++ upTo '6' '9') 419, on (is '5') 420, on (is ':') 389,
    on hexAlpha 386, on (is ']') 512]),
  (419, [on (is '.') 294, on xdigit 387, on (is ':') 389, on (is ']') 512]),
  (420, [on (is '.') 294, on (upTo '0' '5') 417, on (hexAlpha ++ upTo '6' '9') 387,
    on (is ':') 389, on (is ']') 512]),
  (421, [on (is '.') 294, on digit 419, on (is ':') 389, on hexAlpha 386, on (is ']') 512]),
  (422, [on xdigit 386, on (is ':') 389, on (is ']') 512]),
  (423, [on (is '.') 294, on digit 424, on (is ':') 384, on hexAlpha 381, on (is ']') 512]),
  (424, [on (is '.') 294, on digit 425, on (is ':') 384, on hexAlpha 382, on (is ']') 512]),
  (425, [on (is '.') 294, on xdigit 383, on (is ':') 384, on (is ']') 512]),
  (426, [on (is '.') 294, on (upTo '0' '4' ++ upTo '6' '9') 427, on (is '5') 428, on (is ':') 384,
    on hexAlpha 381, on (is ']') 512]),
  (427, [on (is '.') 294, on xdigit 382, on (is ':') 384, on (is ']') 512]),
  (428, [on (is '.') 294, on (upTo '0' '5') 425, on (hexAlpha ++ upTo '6' '9') 382,
    on (is ':') 384, on (is ']') 512]),
  (429, [on (is '.') 294, on digit 427, on (is ':') 384, on hexAlpha 381, on (is ']') 512]),
  (430, [on xdigit 381, on (is ':') 384, on (is ']') 512]),
  (431, [on (is '.') 294, on digit 432, on (is ':') 379, on hexAlpha 376, on (is ']') 512]),
  (432, [on (is '.') 294, on digit 433, on (is ':') 379, on hexAlpha 377, on (is ']') 512]),
  (433, [on (is '.') 294, on xdigit 378, on (is ':') 379, on (is ']') 512]),
  (434, [on (is '.') 294, on (upTo '0' '4' ++ upTo '6' '9') 435, on (is '5') 436, on (is ':') 379,
    on hexAlpha 376, on (is ']') 512]),
  (435, [on (is '.') 294, on xdigit 377, on (is ':') 379, on (is ']') 512]),
  (436, [on (is '.') 294, on (upTo '0' '5') 433, on (hexAlpha ++ upTo '6' '9') 377,
    on (is ':') 379, on (is ']') 512]),
  (437, [on (is '.') 294, on digit 435, on (is ':') 379, on hexAlpha 376, on (is ']') 512]),
  (438, [on xdigit 376, on (is ':') 379, on (is ']') 512]),
  (439, [on (is '.') 294, on digit 440, on (is ':') 374, on hexAlpha 371, on (is ']') 512]),
  (440, [on (is '.') 294, on digit 441, on (is ':') 374, on hexAlpha 372, on (is ']') 512]),
  (441, [on (is '.') 294, on xdigit 373, on (is ':') 374, on (is ']') 512]),
  (442, [on (is '.') 294, on (upTo '0' '4' ++ upTo '6' '9') 443, on (is '5') 444, on (is ':') 374,
    on hexAlpha 371, on (is ']') 512]),
  (443, [on (is '.') 294, on xdigit 372, on (is ':') 374, on (is ']') 512]),
  (444, [on (is '.') 294, on (upTo '0' '5') 441, on (hexAlpha ++ upTo '6' '9') 372,
    on (is ':') 374, on (is ']') 512]),
  (445, [on (is '.') 294, on digit 443, on (is ':') 374, on hexAlpha 371, on (is ']') 512]),
  (446, [on xdigit 371, on (is ':') 374, on (is ']') 512]),
  (447, [on xdigit 448]),
  (448, [on (is '.') 449, on xdigit 448]),
  (449, [on userinfoChar 450]),
  (450, [on userinfoChar 450, on (is ']') 512])]

/-- An authority without a scheme: slashes, user information, registered names and ports. -/
def relativeAuthorityRows : Table Action := [
  (31, [on xdigit 32]),
  (32, [on xdigit 467]),
  (33, [on userinfoChar 33, on (is '%') 34, on (is '@') 469 [.saveUserinfo]]),
  (34, [on xdigit 35]),
  (35, [on xdigit 33]),
  (36, [on xdigit 37]),
  (37, [on xdigit 470]),
  (458, [on segmentChar 455, on (is '#') 453, on (is '%') 5, on (is '/') 459, on (is '?') 456]),
  (459, [on (byte 2) 9 [.markh], on hostStart 467 [.markh], on (is '#') 453 [.markh, .saveHost],
    on (is '%') 31 [.markh], on (is '/') 455 [.markh, .saveHost], on (is '0') 490 [.markh],
    on (is '1') 504 [.markh], on (is '2') 506 [.markh], on (upTo '3' '9') 505 [.markh],
    on (is ':') 468 [.markh, .saveHost], on (is '?') 456 [.markh, .saveHost],
    on (is '@') 469 [.markh, .saveUserinfo], on (is '[') 38 [.markh]]),
  (460, [on (is '#') 453 [.saveHost], on (is '/') 455 [.saveHost], on (is ':') 461 [.saveHost],
    on (is '?') 456 [.saveHost]]),
  (461, [on (is '#') 453 [.markh, .savePort], on (is '/') 455 [.markh, .savePort],
    on digit 462 [.markh], on (is '?') 456 [.markh, .savePort]]),
  (462, [on (is '#') 453 [.savePort], on (is '/') 455 [.savePort], on digit 462,
    on (is '?') 456 [.savePort]]),
  (467, [on regChar 467, on (is '#') 453 [.saveHost], on (is '%') 31, on (is '/') 455 [.saveHost],
    on (is ':') 468 [.saveHost], on (is '?') 456 [.saveHost], on (is '@') 469 [.saveUserinfo]]),
  (468, [on (hostStart ++ is ':') 33, on (is '#') 453 [.markh, .savePort], on (is '%') 34,
    on (is '/') 455 [.markh, .savePort], on digit 489 [.markh],
    on (is '?') 456 [.markh, .savePort], on (is '@') 469 [.saveUserinfo]]),
  (469, [on (byte 2) 9 [.markh], on hostStart 470 [.markh], on (is '#') 453 [.markh, .saveHost],
    on (is '%') 36 [.markh], on (is '/') 455 [.markh, .saveHost], on (is '0') 471 [.markh],
    on (is '1') 485 [.markh], on (is '2') 487 [.markh], on (upTo '3' '9') 486 [.markh],
    on (is ':') 461 [.markh, .saveHost], on (is '?') 456 [.markh, .saveHost],
    on (is '[') 38 [.markh]]),
  (470, [on regChar 470, on (is '#') 453 [.saveHost], on (is '%') 36, on (is '/') 455 [.saveHost],
    on (is ':') 461 [.saveHost], on (is '?') 456 [.saveHost]]),
  (471, [on (hostAlpha ++ digit) 470, on (is '#') 453 [.saveHost], on (is '%') 36,
    on (is '.') 472, on (is '/') 455 [.saveHost], on (is ':') 461 [.saveHost],
    on (is '?') 456 [.saveHost]]),
  (472, [on (byte 2) 13, on hostStart 470, on (is '#') 453 [.saveHost], on (is '%') 36,
    on (is '/') 455 [.saveHost], on (is '0') 473, on (is '1') 481, on (is '2') 483,
    on (upTo '3' '9') 482, on (is ':') 461 [.saveHost], on (is '?') 456 [.saveHost]]),
  (473, [on (hostAlpha ++ digit) 470, on (is '#') 453 [.saveHost], on (is '%') 36,
    on (is '.') 474, on (is '/') 455 [.saveHost], on (is ':') 461 [.saveHost],
    on (is '?') 456 [.saveHost]]),
  (474, [on (byte 2) 17, on hostStart 470, on (is '#') 453 [.saveHost], on (is '%') 36,
    on (is '/') 455 [.saveHost], on (is '0') 475, on (is '1') 477, on (is '2') 479,
    on (upTo '3' '9') 478, on (is ':') 461 [.saveHost], on (is '?') 456 [.saveHost]]),
  (475, [on (hostAlpha ++ digit) 470, on (is '#') 453 [.saveHost], on (is '%') 36,
    on (is '.') 476, on (is '/') 455 [.saveHost], on (is ':') 461 [.saveHost],
    on (is '?') 456 [.saveHost]]),
  (476, [on (byte 2) 21, on regChar 470, on (is '#') 453 [.saveHost], on (is '%') 36,
    on (is '/') 455 [.saveHost], on (is ':') 461 [.saveHost], on (is '?') 456 [.saveHost]]),
  (477, [on hostAlpha 470, on (is '#') 453 [.saveHost], on (is '%') 36, on (is '.') 476,
    on (is '/') 455 [.saveHost], on digit 478, on (is ':') 461 [.saveHost],
    on (is '?') 456 [.saveHost]]),
  (478, [on hostAlpha 470, on (is '#') 453 [.saveHost], on (is '%') 36, on (is '.') 476,
    on (is '/') 455 [.saveHost], on digit 475, on (is ':') 461 [.saveHost],
    on (is '?') 456 [.saveHost]]),
  (479, [on hostAlpha 470, on (is '#') 453 [.saveHost], on (is '%') 36, on (is '.') 476,
    on (is '/') 455 [.saveHost], on (upTo '0' '4' ++ upTo '6' '9') 475, on (is '5') 480,
    on (is ':') 461 [.saveHost], on (is '?') 456 [.saveHost]]),
  (480, [on (hostAlpha ++ upTo '6' '9') 470, on (is '#') 453 [.saveHost], on (is '%') 36,
    on (is '.') 476, on (is '/') 455 [.saveHost], on (upTo '0' '5') 475,
    on (is ':') 461 [.saveHost], on (is '?') 456 [.saveHost]]),
  (481, [on hostAlpha 470, on (is '#') 453 [.saveHost], on (is '%') 36, on (is '.') 474,
    on (is '/') 455 [.saveHost], on digit 482, on (is ':') 461 [.saveHost],
    on (is '?') 456 [.saveHost]]),
  (482, [on hostAlpha 470, on (is '#') 453 [.saveHost], on (is '%') 36, on (is '.') 474,
    on (is '/') 455 [.saveHost], on digit 473, on (is ':') 461 [.saveHost],
    on (is '?') 456 [.saveHost]]),
  (483, [on hostAlpha 470, on (is '#') 453 [.saveHost], on (is '%') 36, on (is '.') 474,
    on (is '/') 455 [.saveHost], on (upTo '0' '4' ++ upTo '6' '9') 473, on (is '5') 484,
    on (is ':') 461 [.saveHost], on (is '?') 456 [.saveHost]]),
  (484, [on (hostAlpha ++ upTo '6' '9') 470, on (is '#') 453 [.saveHost], on (is '%') 36,
    on (is '.') 474, on (is '/') 455 [.saveHost], on (upTo '0' '5') 473,
    on (is ':') 461 [.saveHost], on (is '?') 456 [.saveHost]]),
  (485, [on hostAlpha 470, on (is '#') 453 [.saveHost], on (is '%') 36, on (is '.') 472,
    on (is '/') 455 [.saveHost], on digit 486, on (is ':') 461 [.saveHost],
    on (is '?') 456 [.saveHost]]),
  (486, [on hostAlpha 470, on (is '#') 453 [.saveHost], on (is '%') 36, on (is '.') 472,
    on (is '/') 455 [.saveHost], on digit 471, on (is ':') 461 [.saveHost],
    on (is '?') 456 [.saveHost]]),
  (487, [on hostAlpha 470, on (is '#') 453 [.saveHost], on (is '%') 36, on (is '.') 472,
    on (is '/') 455 [.saveHost], on (upTo '0' '4' ++ upTo '6' '9') 471, on (is '5') 488,
    on (is ':') 461 [.saveHost], on (is '?') 456 [.saveHost]]),
  (488, [on (hostAlpha ++ upTo '6' '9') 470, on (is '#') 453 [.saveHost], on (is '%') 36,
    on (is '.') 472, on (is '/') 455 [.saveHost], on (upTo '0' '5') 471,
    on (is ':') 461 [.saveHost], on (is '?') 456 [.saveHost]]),
  (489, [on (hostStart ++ is ':') 33, on (is '#') 453 [.savePort], on (is '%') 34,
    on (is '/') 455 [.savePort], on digit 489, on (is '?') 456 [.savePort],
    on (is '@') 469 [.saveUserinfo]]),
  (490, [on (hostAlpha ++ digit) 467, on (is '#') 453 [.saveHost], on (is '%') 31,
    on (is '.') 491, on (is '/') 455 [.saveHost], on (is ':') 468 [.saveHost],
    on (is '?') 456 [.saveHost], on (is '@') 469 [.saveUserinfo]]),
  (491, [on (byte 2) 13, on hostStart 467, on (is '#') 453 [.saveHost], on (is '%') 31,
    on (is '/') 455 [.saveHost], on (is '0') 492, on (is '1') 500, on (is '2') 502,
    on (upTo '3' '9') 501, on (is ':') 468 [.saveHost], on (is '?') 456 [.saveHost],
    on (is '@') 469 [.saveUserinfo]]),
  (492, [on (hostAlpha ++ digit) 467, on (is '#') 453 [.saveHost], on (is '%') 31,
    on (is '.') 493, on (is '/') 455 [.saveHost], on (is ':') 468 [.saveHost],
    on (is '?') 456 [.saveHost], on (is '@') 469 [.saveUserinfo]]),
  (493, [on (byte 2) 17, on hostStart 467, on (is '#') 453 [.saveHost], on (is '%') 31,
    on (is '/') 455 [.saveHost], on (is '0') 494, on (is '1') 496, on (is '2') 498,
    on (upTo '3' '9') 497, on (is ':') 468 [.saveHost], on (is '?') 456 [.saveHost],
    on (is '@') 469 [.saveUserinfo]]),
  (494, [on (hostAlpha ++ digit) 467, on (is '#') 453 [.saveHost], on (is '%') 31,
    on (is '.') 495, on (is '/') 455 [.saveHost], on (is ':') 468 [.saveHost],
    on (is '?') 456 [.saveHost], on (is '@') 469 [.saveUserinfo]]),
  (495, [on (byte 2) 21, on regChar 467, on (is '#') 453 [.saveHost], on (is '%') 31,
    on (is '/') 455 [.saveHost], on (is ':') 468 [.saveHost], on (is '?') 456 [.saveHost],
    on (is '@') 469 [.saveUserinfo]]),
  (496, [on hostAlpha 467, on (is '#') 453 [.saveHost], on (is '%') 31, on (is '.') 495,
    on (is '/') 455 [.saveHost], on digit 497, on (is ':') 468 [.saveHost],
    on (is '?') 456 [.saveHost], on (is '@') 469 [.saveUserinfo]]),
  (497, [on hostAlpha 467, on (is '#') 453 [.saveHost], on (is '%') 31, on (is '.') 495,
    on (is '/') 455 [.saveHost], on digit 494, on (is ':') 468 [.saveHost],
    on (is '?') 456 [.saveHost], on (is '@') 469 [.saveUserinfo]]),
  (498, [on hostAlpha 467, on (is '#') 453 [.saveHost], on (is '%') 31, on (is '.') 495,
    on (is '/') 455 [.saveHost], on (upTo '0' '4' ++ upTo '6' '9') 494, on (is '5') 499,
    on (is ':') 468 [.saveHost], on (is '?') 456 [.saveHost], on (is '@') 469 [.saveUserinfo]]),
  (499, [on (hostAlpha ++ upTo '6' '9') 467, on (is '#') 453 [.saveHost], on (is '%') 31,
    on (is '.') 495, on (is '/') 455 [.saveHost], on (upTo '0' '5') 494,
    on (is ':') 468 [.saveHost], on (is '?') 456 [.saveHost], on (is '@') 469 [.saveUserinfo]]),
  (500, [on hostAlpha 467, on (is '#') 453 [.saveHost], on (is '%') 31, on (is '.') 493,
    on (is '/') 455 [.saveHost], on digit 501, on (is ':') 468 [.saveHost],
    on (is '?') 456 [.saveHost], on (is '@') 469 [.saveUserinfo]]),
  (501, [on hostAlpha 467, on (is '#') 453 [.saveHost], on (is '%') 31, on (is '.') 493,
    on (is '/') 455 [.saveHost], on digit 492, on (is ':') 468 [.saveHost],
    on (is '?') 456 [.saveHost], on (is '@') 469 [.saveUserinfo]]),
  (502, [on hostAlpha 467, on (is '#') 453 [.saveHost], on (is '%') 31, on (is '.') 493,
    on (is '/') 455 [.saveHost], on (upTo '0' '4' ++ upTo '6' '9') 492, on (is '5') 503,
    on (is ':') 468 [.saveHost], on (is '?') 456 [.saveHost], on (is '@') 469 [.saveUserinfo]]),
  (503, [on (hostAlpha ++ upTo '6' '9') 467, on (is '#') 453 [.saveHost], on (is '%') 31,
    on (is '.') 493, on (is '/') 455 [.saveHost], on (upTo '0' '5') 492,
    on (is ':') 468 [.saveHost], on (is '?') 456 [.saveHost], on (is '@') 469 [.saveUserinfo]]),
  (504, [on hostAlpha 467, on (is '#') 453 [.saveHost], on (is '%') 31, on (is '.') 491,
    on (is '/') 455 [.saveHost], on digit 505, on (is ':') 468 [.saveHost],
    on (is '?') 456 [.saveHost], on (is '@') 469 [.saveUserinfo]]),
  (505, [on hostAlpha 467, on (is '#') 453 [.saveHost], on (is '%') 31, on (is '.') 491,
    on (is '/') 455 [.saveHost], on digit 490, on (is ':') 468 [.saveHost],
    on (is '?') 456 [.saveHost], on (is '@') 469 [.saveUserinfo]]),
  (506, [on hostAlpha 467, on (is '#') 453 [.saveHost], on (is '%') 31, on (is '.') 491,
    on (is '/') 455 [.saveHost], on (upTo '0' '4' ++ upTo '6' '9') 490, on (is '5') 507,
    on (is ':') 468 [.saveHost], on (is '?') 456 [.saveHost], on (is '@') 469 [.saveUserinfo]]),
  (507, [on (hostAlpha ++ upTo '6' '9') 467, on (is '#') 453 [.saveHost], on (is '%') 31,
    on (is '.') 491, on (is '/') 455 [.saveHost], on (upTo '0' '5') 490,
    on (is ':') 468 [.saveHost], on (is '?') 456 [.saveHost], on (is '@') 469 [.saveUserinfo]])]

/-- An authority without a scheme: addresses with an octet `2 [0-4] digit`, which begins with the byte 2. -/
def relativeAddressRows : Table Action := [
  (9, [on (upTo '0' '4') 10]),
  (10, [on digit 11]),
  (11, [on (is '.') 12]),
  (12, [on (byte 2) 13, on (is '0') 15, on (is '1') 27, on (is '2') 29, on (upTo '3' '9') 28]),
  (13, [on (upTo '0' '4') 14]),
  (14, [on digit 15]),
  (15, [on (is '.') 16]),
  (16, [on (byte 2) 17, on (is '0') 19, on (is '1') 23, on (is '2') 25, on (upTo '3' '9') 24]),
  (17, [on (upTo '0' '4') 18]),
  (18, [on digit 19]),
  (19, [on (is '.') 20]),
  (20, [on (byte 2) 21, on (is '0') 460, on (is '1') 463, on (is '2') 465, on (upTo '3' '9') 464]),
  (21, [on (upTo '0' '4') 22]),
  (22, [on digit 460]),
  (23, [on (is '.') 20, on digit 24]),
  (24, [on (is '.') 20, on digit 19]),
  (25, [on (is '.') 20, on (upTo '0' '4' ++ upTo '6' '9') 19, on (is '5') 26]),
  (26, [on (is '.') 20, on (upTo '0' '5') 19]),
  (27, [on (is '.') 16, on digit 28]),
  (28, [on (is '.') 16, on digit 15]),
  (29, [on (is '.') 16, on (upTo '0' '4' ++ upTo '6' '9') 15, on (is '5') 30]),
  (30, [on (is '.') 16, on (upTo '0' '5') 15]),
  (463, [on (is '#') 453 [.saveHost], on (is '/') 455 [.saveHost], on digit 464,
    on (is ':') 461 [.saveHost], on (is '?') 456 [.saveHost]]),
  (464, [on (is '#') 453 [.saveHost], on (is '/') 455 [.saveHost], on digit 460,
    on (is ':') 461 [.saveHost], on (is '?') 456 [.saveHost]]),
  (465, [on (is '#') 453 [.saveHost], on (is '/') 455 [.saveHost],
    on (upTo '0' '4' ++ upTo '6' '9') 460, on (is '5') 466, on (is ':') 461 [.saveHost],
    on (is '?') 456 [.saveHost]]),
  (466, [on (is '#') 453 [.saveHost], on (is '/') 455 [.saveHost], on (upTo '0' '5') 460,
    on (is ':') 461 [.saveHost], on (is '?') 456 [.saveHost]])]

/-- An authority without a scheme: what stands in brackets. -/
def relativeLiteralRows : Table Action := [
  (38, [on xdigit 39, on (is ':') 146, on (is 'v') 225]),
  (39, [on xdigit 40, on (is ':') 43]),
  (40, [on xdigit 41, on (is ':') 43]),
  (41, [on xdigit 42, on (is ':') 43]),
  (42, [on (is ':') 43]),
  (43, [on xdigit 44, on (is ':') 141]),
  (44, [on xdigit 45, on (is ':') 48]),
  (45, [on xdigit 46, on (is ':') 48]),
  (46, [on xdigit 47, on (is ':') 48]),
  (47, [on (is ':') 48]),
  (48, [on xdigit 49, on (is ':') 136]),
  (49, [on xdigit 50, on (is ':') 53]),
  (50, [on xdigit 51, on (is ':') 53]),
  (51, [on xdigit 52, on (is ':') 53]),
  (52, [on (is ':') 53]),
  (53, [on xdigit 54, on (is ':') 131]),
  (54, [on xdigit 55, on (is ':') 58]),
  (55, [on xdigit 56, on (is ':') 58]),
  (56, [on xdigit 57, on (is ':') 58]),
  (57, [on (is ':') 58]),
  (58, [on xdigit 59, on (is ':') 126]),
  (59, [on xdigit 60, on (is ':') 63]),
  (60, [on xdigit 61, on (is ':') 63]),
  (61, [on xdigit 62, on (is ':') 63]),
  (62, [on (is ':') 63]),
  (63, [on xdigit 64, on (is ':') 113]),
  (64, [on xdigit 65, on (is ':') 68]),
  (65, [on xdigit 66, on (is ':') 68]),
  (66, [on xdigit 67, on (is ':') 68]),
  (67, [on (is ':') 68]),
  (68, [on (byte 2) 69, on (is '0') 96, on (is '1') 104, on (is '2') 107, on (upTo '3' '9') 110,
    on (is ':') 111, on hexAlpha 112]),
  (69, [on (upTo '0' '4') 70]),
  (70, [on digit 71]),
  (71, [on (is '.') 72]),
  (72, [on (byte 2) 73, on (is '0') 75, on (is '1') 92, on (is '2') 94, on (upTo '3' '9') 93]),
  (73, [on (upTo '0' '4') 74]),
  (74, [on digit 75]),
  (75, [on (is '.') 76]),
  (76, [on (byte 2) 77, on (is '0') 79, on (is '1') 88, on (is '2') 90, on (upTo '3' '9') 89]),
  (77, [on (upTo '0' '4') 78]),
  (78, [on digit 79]),
  (79, [on (is '.') 80]),
  (80, [on (byte 2) 81, on (is '0') 83, on (is '1') 84, on (is '2') 86, on (upTo '3' '9') 85]),
  (81, [on (upTo '0' '4') 82]),
  (82, [on digit 83]),
  (83, [on (is ']') 460]),
  (84, [on digit 85, on (is ']') 460]),
  (85, [on digit 83, on (is ']') 460]),
  (86, [on (upTo '0' '4' ++ upTo '6' '9') 83, on (is '5') 87, on (is ']') 460]),
  (87, [on (upTo '0' '5') 83, on (is ']') 460]),
  (88, [on (is '.') 80, on digit 89]),
  (89, [on (is '.') 80, on digit 79]),
  (90, [on (is '.') 80, on (upTo '0' '4' ++ upTo '6' '9') 79, on (is '5') 91]),
  (91, [on (is '.') 80, on (upTo '0' '5') 79]),
  (92, [on (is '.') 76, on digit 93]),
  (93, [on (is '.') 76, on digit 75]),
  (94, [on (is '.') 76, on (upTo '0' '4' ++ upTo '6' '9') 75, on (is '5') 95]),
  (95, [on (is '.') 76, on (upTo '0' '5') 75]),
  (96, [on (is '.') 72, on xdigit 97, on (is ':') 100]),
  (97, [on xdigit 98, on (is ':') 100]),
  (98, [on xdigit 99, on (is ':') 100]),
  (99, [on (is ':') 100]),
  (100, [on xdigit 101, on (is ':') 83]),
  (101, [on xdigit 102, on (is ']') 460]),
  (102, [on xdigit 103, on (is ']') 460]),
  (103, [on xdigit 83, on (is ']') 460]),
  (104, [on (is '.') 72, on digit 105, on (is ':') 100, on hexAlpha 97]),
  (105, [on (is '.') 72, on digit 106, on (is ':') 100, on hexAlpha 98]),
  (106, [on (is '.') 72, on xdigit 99, on (is ':') 100]),
  (107, [on (is '.') 72, on (upTo '0' '4' ++ upTo '6' '9') 108, on (is '5') 109, on (is ':') 100,
    on hexAlpha 97]),
  (108, [on (is '.') 72, on xdigit 98, on (is ':') 100]),
  (109, [on (is '.') 72, on (upTo '0' '5') 106, on (hexAlpha ++ upTo '6' '9') 98, on (is ':') 100]),
  (110, [on (is '.') 72, on digit 108, on (is ':') 100, on hexAlpha 97]),
  (111, [on xdigit 101]),
  (112, [on xdigit 97, on (is ':') 100]),
  (113, [on (byte 2) 69, on (is '0') 114, on (is '1') 118, on (is '2') 121, on (upTo '3' '9') 124,
    on hexAlpha 125]),
  (114, [on (is '.') 72, on xdigit 115, on (is ':') 111]),
  (115, [on xdigit 116, on (is ':') 111]),
  (116, [on xdigit 117, on (is ':') 111]),
  (117, [on (is ':') 111]),
  (118, [on (is '.') 72, on digit 119, on (is ':') 111, on hexAlpha 115]),
  (119, [on (is '.') 72, on digit 120, on (is ':') 111, on hexAlpha 116]),
  (120, [on (is '.') 72, on xdigit 117, on (is ':') 111]),
  (121, [on (is '.') 72, on (upTo '0' '4' ++ upTo '6' '9') 122, on (is '5') 123, on (is ':') 111,
    on hexAlpha 115]),
  (122, [on (is '.') 72, on xdigit 116, on (is ':') 111]),
  (123, [on (is '.') 72, on (upTo '0' '5') 120, on (hexAlpha ++ upTo '6' '9') 116,
    on (is ':') 111]),
  (124, [on (is '.') 72, on digit 122, on (is ':') 111, on hexAlpha 115]),
  (125, [on xdigit 115, on (is ':') 111]),
  (126, [on xdigit 127]),
  (127, [on xdigit 128, on (is ':') 113]),
  (128, [on xdigit 129, on (is ':') 113]),
  (129, [on xdigit 130, on (is ':') 113]),
  (130, [on (is ':') 113]),
  (131, [on xdigit 132]),
  (132, [on xdigit 133, on (is ':') 126]),
  (133, [on xdigit 134, on (is ':') 126]),
  (134, [on xdigit 135, on (is ':') 126]),
  (135, [on (is ':') 126]),
  (136, [on xdigit 137]),
  (137, [on xdigit 138, on (is ':') 131]),
  (138, [on xdigit 139, on (is ':') 131]),
  (139, [on xdigit 140, on (is ':') 131]),
  (140, [on (is ':') 131]),
  (141, [on xdigit 142]),
  (142, [on xdigit 143, on (is ':') 136]),
  (143, [on xdigit 144, on (is ':') 136]),
  (144, [on xdigit 145, on (is ':') 136]),
  (145, [on (is ':') 136]),
  (146, [on (is ':') 147]),
  (147, [on (byte 2) 69, on (is '0') 148, on (is '1') 217, on (is '2') 220, on (upTo '3' '9') 223,
    on hexAlpha 224, on (is ']') 460]),
  (148, [on (is '.') 72, on xdigit 149, on (is ':') 152, on (is ']') 460]),
  (149, [on xdigit 150, on (is ':') 152, on (is ']') 460]),
  (150, [on xdigit 151, on (is ':') 152, on (is ']') 460]),
  (151, [on (is ':') 152, on (is ']') 460]),
  (152, [on (byte 2) 69, on (is '0') 153, on (is '1') 209, on (is '2') 212, on (upTo '3' '9') 215,
    on hexAlpha 216]),
  (153, [on (is '.') 72, on xdigit 154, on (is ':') 157, on (is ']') 460]),
  (154, [on xdigit 155, on (is ':') 157, on (is ']') 460]),
  (155, [on xdigit 156, on (is ':') 157, on (is ']') 460]),
  (156, [on (is ':') 157, on (is ']') 460]),
  (157, [on (byte 2) 69, on (is '0') 158, on (is '1') 201, on (is '2') 204, on (upTo '3' '9') 207,
    on hexAlpha 208]),
  (158, [on (is '.') 72, on xdigit 159, on (is ':') 162, on (is ']') 460]),
  (159, [on xdigit 160, on (is ':') 162, on (is ']') 460]),
  (160, [on xdigit 161, on (is ':') 162, on (is ']') 460]),
  (161, [on (is ':') 162, on (is ']') 460]),
  (162, [on (byte 2) 69, on (is '0') 163, on (is '1') 193, on (is '2') 196, on (upTo '3' '9') 199,
    on hexAlpha 200]),
  (163, [on (is '.') 72, on xdigit 164, on (is ':') 167, on (is ']') 460]),
  (164, [on xdigit 165, on (is ':') 167, on (is ']') 460]),
  (165, [on xdigit 166, on (is ':') 167, on (is ']') 460]),
  (166, [on (is ':') 167, on (is ']') 460]),
  (167, [on (byte 2) 69, on (is '0') 168, on (is '1') 185, on (is '2') 188, on (upTo '3' '9') 191,
    on hexAlpha 192]),
  (168, [on (is '.') 72, on xdigit 169, on (is ':') 172, on (is ']') 460]),
  (169, [on xdigit 170, on (is ':') 172, on (is ']') 460]),
  (170, [on xdigit 171, on (is ':') 172, on (is ']') 460]),
  (171, [on (is ':') 172, on (is ']') 460]),
  (172, [on (byte 2) 69, on (is '0') 173, on (is '1') 177, on (is '2') 180, on (upTo '3' '9') 183,
    on hexAlpha 184]),
  (173, [on (is '.') 72, on xdigit 174, on (is ':') 111, on (is ']') 460]),
  (174, [on xdigit 175, on (is ':') 111, on (is ']') 460]),
  (175, [on xdigit 176, on (is ':') 111, on (is ']') 460]),
  (176, [on (is ':') 111, on (is ']') 460]),
  (177, [on (is '.') 72, on digit 178, on (is ':') 111, on hexAlpha 174, on (is ']') 460]),
  (178, [on (is '.') 72, on digit 179, on (is ':') 111, on hexAlpha 175, on (is ']') 460]),
  (179, [on (is '.') 72, on xdigit 176, on (is ':') 111, on (is ']') 460]),
  (180, [on (is '.') 72, on (upTo '0' '4' ++ upTo '6' '9') 181, on (is '5') 182, on (is ':') 111,
    on hexAlpha 174, on (is ']') 460]),
  (181, [on (is '.') 72, on xdigit 175, on (is ':') 111, on (is ']') 460]),
  (182, [on (is '.') 72, on (upTo '0' '5') 179, on (hexAlpha ++ upTo '6' '9') 175,
    on (is ':') 111, on (is ']') 460]),
  (183, [on (is '.') 72, on digit 181, on (is ':') 111, on hexAlpha 174, on (is ']') 460]),
  (184, [on xdigit 174, on (is ':') 111, on (is ']') 460]),
  (185, [on (is '.') 72, on digit 186, on (is ':') 172, on hexAlpha 169, on (is ']') 460]),
  (186, [on (is '.') 72, on digit 187, on (is ':') 172, on hexAlpha 170, on (is ']') 460]),
  (187, [on (is '.') 72, on xdigit 171, on (is ':') 172, on (is ']') 460]),
  (188, [on (is '.') 72, on (upTo '0' '4' ++ upTo '6' '9') 189, on (is '5') 190, on (is ':') 172,
    on hexAlpha 169, on (is ']') 460]),
  (189, [on (is '.') 72, on xdigit 170, on (is ':') 172, on (is ']') 460]),
  (190, [on (is '.') 72, on (upTo '0' '5') 187, on (hexAlpha ++ upTo '6' '9') 170,
    on (is ':') 172, on (is ']') 460]),
  (191, [on (is '.') 72, on digit 189, on (is ':') 172, on hexAlpha 169, on (is ']') 460]),
  (192, [on xdigit 169, on (is ':') 172, on (is ']') 460]),
  (193, [on (is '.') 72, on digit 194, on (is ':') 167, on hexAlpha 164, on (is ']') 460]),
  (194, [on (is '.') 72, on digit 195, on (is ':') 167, on hexAlpha 165, on (is ']') 460]),
  (195, [on (is '.') 72, on xdigit 166, on (is ':') 167, on (is ']') 460]),
  (196, [on (is '.') 72, on (upTo '0' '4' ++ upTo '6' '9') 197, on (is '5') 198, on (is ':') 167,
    on hexAlpha 164, on (is ']') 460]),
  (197, [on (is '.') 72, on xdigit 165, on (is ':') 167, on (is ']') 460]),
  (198, [on (is '.') 72, on (upTo '0' '5') 195, on (hexAlpha ++ upTo '6' '9') 165,
    on (is ':') 167, on (is ']') 460]),
  (199, [on (is '.') 72, on digit 197, on (is ':') 167, on hexAlpha 164, on (is ']') 460]),
  (200, [on xdigit 164, on (is ':') 167, on (is ']') 460]),
  (201, [on (is '.') 72, on digit 202, on (is ':') 162, on hexAlpha 159, on (is ']') 460]),
  (202, [on (is '.') 72, on digit 203, on (is ':') 162, on hexAlpha 160, on (is ']') 460]),
  (203, [on (is '.') 72, on xdigit 161, on (is ':') 162, on (is ']') 460]),
  (204, [on (is '.') 72, on (upTo '0' '4' ++ upTo '6' '9') 205, on (is '5') 206, on (is ':') 162,
    on hexAlpha 159, on (is ']') 460]),
  (205, [on (is '.') 72, on xdigit 160, on (is ':') 162, on (is ']') 460]),
  (206, [on (is '.') 72, on (upTo '0' '5') 203, on (hexAlpha ++ upTo '6' '9') 160,
    on (is ':') 162, on (is ']') 460]),
  (207, [on (is '.') 72, on digit 205, on (is ':') 162, on hexAlpha 159, on (is ']') 460]),
  (208, [on xdigit 159, on (is ':') 162, on (is ']') 460]),
  (209, [on (is '.') 72, on digit 210, on (is ':') 157, on hexAlpha 154, on (is ']') 460]),
  (210, [on (is '.') 72, on digit 211, on (is ':') 157, on hexAlpha 155, on (is ']') 460]),
  (211, [on (is '.') 72, on xdigit 156, on (is ':') 157, on (is ']') 460]),
  (212, [on (is '.') 72, on (upTo '0' '4' ++ upTo '6' '9') 213, on (is '5') 214, on (is ':') 157,
    on hexAlpha 154, on (is ']') 460]),
  (213, [on (is '.') 72, on xdigit 155, on (is ':') 157, on (is ']') 460]),
  (214, [on (is '.') 72, on (upTo '0' '5') 211, on (hexAlpha ++ upTo '6' '9') 155,
    on (is ':') 157, on (is ']') 460]),
  (215, [on (is '.') 72, on digit 213, on (is ':') 157, on hexAlpha 154, on (is ']') 460]),
  (216, [on xdigit 154, on (is ':') 157, on (is ']') 460]),
  (217, [on (is '.') 72, on digit 218, on (is ':') 152, on hexAlpha 149, on (is ']') 460]),
  (218, [on (is '.') 72, on digit 219, on (is ':') 152, on hexAlpha 150, on (is ']') 460]),
  (219, [on (is '.') 72, on xdigit 151, on (is ':') 152, on (is ']') 460]),
  (220, [on (is '.') 72, on (upTo '0' '4' ++ upTo '6' '9') 221, on (is '5') 222, on (is ':') 152,
    on hexAlpha 149, on (is ']') 460]),
  (221, [on (is '.') 72, on xdigit 150, on (is ':') 152, on (is ']') 460]),
  (222, [on (is '.') 72, on (upTo '0' '5') 219, on (hexAlpha ++ upTo '6' '9') 150,
    on (is ':') 152, on (is ']') 460]),
  (223, [on (is '.') 72, on digit 221, on (is ':') 152, on hexAlpha 149, on (is ']') 460]),
  (224, [on xdigit 149, on (is ':') 152, on (is ']') 460]),
  (225, [on xdigit 226]),
  (226, [on (is '.') 227, on xdigit 226]),
  (227, [on userinfoChar 228]),
  (228, [on userinfoChar 228, on (is ']') 460])]

def table : Table Action :=
  referenceRows ++ partRows ++ schemeAuthorityRows ++ schemeAddressRows ++ schemeLiteralRows ++
    relativeAuthorityRows ++ relativeAddressRows ++ relativeLiteralRows

def uriParserStart : Nat := 451
def uriParserFirstFinal : Nat := 451
def uriParserError : Nat := 0

/-- The automaton of the parser. -/
def machine : Automaton Nat Action UInt8 := table.machine false

/-- What runs at the end of the input, by the state in which it ends. -/
def eofActions (cs : Nat) : List Action :=
  if cs = 462 ∨ cs = 489 then [.savePort]
  else if cs = 460 ∨ (463 ≤ cs ∧ cs ≤ 467) ∨ (470 ≤ cs ∧ cs ≤ 488) ∨ (490 ≤ cs ∧ cs ≤ 507) then
    [.saveHost]
  else if cs = 513 then [.savePath]
  else if cs = 457 then [.saveQuery]
  else if cs = 454 then [.saveFragment]
  else if cs = 456 then [.marku, .saveQuery]
  else if cs = 453 then [.marku, .saveFragment]
  else if cs = 461 ∨ cs = 468 then [.markh, .savePort]
  else if cs = 459 ∨ cs = 469 then [.markh, .saveHost]
  else if cs = 514 ∨ cs = 521 then [.markh, .savePort, .savePath]
  else if cs = 511 ∨ cs = 522 then [.markh, .saveHost, .savePath]
  else if cs = 515 ∨ cs = 542 then [.savePort, .markh, .savePath]
  else if cs = 512 ∨ (516 ≤ cs ∧ cs ≤ 520) ∨ (523 ≤ cs ∧ cs ≤ 541) ∨ (543 ≤ cs ∧ cs ≤ 560) then
    [.saveHost, .markh, .savePath]
  else []

end Uri

end Nemo.Net
