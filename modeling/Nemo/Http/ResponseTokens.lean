import Nemo.Http.HttpClientParser
import Nemo.Http.Seen

/-!
# The tokens of a response

As for a request, `scan` runs the machine over the whole text, with positions in place of buffer offsets,
and `execute_follows` is the refinement: one call of `httpclient_parser_execute` follows the scan.

A header name is taken from `field_start` when its value ends, with the length that it had at its colon.
The two need not belong together: behind `Content-Length:` and an empty line a digit begins both a
value and a name.
-/

namespace Nemo.Http.Client

open Infra Automaton

/-! ## The scan -/

/-- A token of a response, with the positions that its callback is about. -/
inductive Token
  | version (start fpc : Nat)
  | status (start fpc : Nat)
  | reason (start fpc : Nat)
  /-- a header line: where the name is taken from, its start and its end, and those of the value -/
  | field (pointer start colon value fpc : Nat)
  | done (fpc : Nat)
  deriving DecidableEq

/-- The callback for a token, made when the position `fpc` is reached. -/
def Token.seen (cuts : Cuts) : Token → Report Element
  | .version i fpc => element .httpVersion (cuts.buffer fpc) (i - cuts.base fpc) (fpc - cuts.base fpc)
  | .status i fpc => element .statusCode (cuts.buffer fpc) (i - cuts.base fpc) (fpc - cuts.base fpc)
  | .reason i fpc => element .reasonPhrase (cuts.buffer fpc) (i - cuts.base fpc) (fpc - cuts.base fpc)
  | .field pointer i colon value fpc =>
    .field ((cuts.buffer fpc).drop (pointer - cuts.base fpc))
      ((colon - cuts.base fpc) - (i - cuts.base fpc))
      ((cuts.buffer fpc).drop (value - cuts.base fpc))
      (len (value - cuts.base fpc) (fpc - cuts.base fpc))
  | .done fpc =>
    .element .headerDone ((cuts.buffer fpc).drop (fpc - cuts.base fpc + 1))
      ((cuts.buffer fpc).length - (fpc - cuts.base fpc) - 1)

/-- The positions at which the scan has met the marking actions of the responses. -/
structure ResponseMarks extends Marks where
  bodyStart : Nat := 0
  chunked : Bool := false
  deriving DecidableEq

abbrev Scanning := ResponseMarks × List Token

/-- The actions on positions. The length of a chunk is left out. -/
def scanAct (a : Action) (fpc : Nat) : Scanning → Scanning
  | (m, ts) =>
    match a with
    | .mark | .startValue => ({ m with mark := fpc }, ts)
    | .startField => ({ m with fieldStart := fpc }, ts)
    | .writeField => ({ m with nameStart := m.fieldStart, colon := fpc }, ts)
    | .writeValue => (m, ts ++ [.field m.fieldStart m.nameStart m.colon m.mark fpc])
    | .reasonPhrase => (m, ts ++ [.reason m.mark fpc])
    | .statusCode => (m, ts ++ [.status m.mark fpc])
    | .httpVersion => (m, ts ++ [.version m.mark fpc])
    | .chunkSize | .transChunked => ({ m with chunked := true }, ts)
    | .done => ({ m with bodyStart := fpc + 1 }, ts ++ [.done fpc])
    | .writeContentLen | .writeConnectionClose => (m, ts)

/-- The scan of `text` from the position `b`. -/
def scanFrom (q b : Nat) (text : Bytes) (m : ResponseMarks) : Exit Nat Scanning :=
  machine.exec scanAct q b text (m, [])

/-- The scan of a text from its beginning. -/
def scan (text : Bytes) : Exit Nat Scanning := scanFrom httpclientParserStart 0 text {}

/-! ## One call -/

/-- A parser that works on the buffer at position `b` and a scan have done the same. -/
structure Follows (cuts : Cuts) (b hi : Nat) (start : HttpClientParser) (x : Parsing) (y : Scanning) :
    Prop where
  offsets : x.1.toOffsets.Reads b hi y.1.toMarks
  bodyStart : x.1.bodyStart = y.1.bodyStart - b
  bodyStart_le : y.1.bodyStart ≤ hi + 1
  chunked : x.1.chunked = y.1.chunked
  cs : x.1.cs = start.cs
  nread : x.1.nread = 0
  reports : x.2 = y.2.map (Token.seen cuts)

/-- Of a text in which a chunk line or the header for chunks has been read nothing is said. -/
def FollowsUnchunked (cuts : Cuts) (b hi : Nat) (start : HttpClientParser) (x : Parsing)
    (y : Scanning) : Prop :=
  y.1.chunked = true ∨ Follows cuts b hi start x y

theorem scanAct_chunked {a : Action} {p : Nat} {y : Scanning} (h : y.1.chunked = true) :
    (scanAct a p y).1.chunked = true := by
  cases a <;> first | exact h | rfl

/-- One action, at the position `p` of the buffer. -/
theorem act_follows {cuts : Cuts} {b p : Nat} {buffer : Bytes} {start : HttpClientParser} {x : Parsing}
    {y : Scanning} (a : Action) (hbase : cuts.base (p + b) = b) (hbuf : cuts.buffer (p + b) = buffer)
    (h : FollowsUnchunked cuts b (p + b) start x y) :
    FollowsUnchunked cuts b (p + b) start (act buffer a p x) (scanAct a (p + b) y) := by
  rcases h with hchunked | h
  · exact .inl (scanAct_chunked hchunked)
  obtain ⟨parser, reports⟩ := x
  obtain ⟨m, ts⟩ := y
  obtain ⟨ho, hb, hble, hc, hcs, hnr, hr⟩ := h
  dsimp only at ho hb hble hc hcs hnr hr
  -- the tokens that end at this position are seen in this buffer
  have htok (t : Token) : reports ++ [t.seen cuts] = (ts ++ [t]).map (Token.seen cuts) := by
    rw [hr, List.map_append]
    rfl
  cases a with
  | mark | startValue => exact .inr ⟨ho.setMark, hb, hble, hc, hcs, hnr, hr⟩
  | startField => exact .inr ⟨ho.setFieldStart, hb, hble, hc, hcs, hnr, hr⟩
  | writeField => exact .inr ⟨ho.setFieldLen, hb, hble, hc, hcs, hnr, hr⟩
  | writeContentLen | writeConnectionClose => exact .inr ⟨ho, hb, hble, hc, hcs, hnr, hr⟩
  | chunkSize | transChunked => exact .inl rfl
  | writeValue =>
    refine .inr ⟨ho, hb, hble, hc, hcs, hnr, ?_⟩
    simp only [act, scanAct]
    rw [← htok]
    simp only [Token.seen, Offsets.field, hbase, hbuf, ho.mark, ho.fieldStart, ho.fieldLen,
      Nat.add_sub_cancel]
  | reasonPhrase | statusCode | httpVersion =>
    refine .inr ⟨ho, hb, hble, hc, hcs, hnr, ?_⟩
    simp only [act, scanAct]
    rw [← htok]
    simp only [Token.seen, hbase, hbuf, ho.mark, Nat.add_sub_cancel]
  | done =>
    refine .inr ⟨ho, ?_, Nat.le_refl _, hc, hcs, hnr, ?_⟩
    · show p + 1 = p + b + 1 - b
      omega
    · simp only [act, scanAct]
      rw [← htok]
      simp only [Token.seen, hbase, hbuf, Nat.add_sub_cancel]

theorem perform_follows {cuts : Cuts} {b p : Nat} {buffer : Bytes} {start : HttpClientParser}
    (hbase : cuts.base (p + b) = b) (hbuf : cuts.buffer (p + b) = buffer) (as : List Action)
    {x : Parsing} {y : Scanning} (h : FollowsUnchunked cuts b (p + b) start x y) :
    FollowsUnchunked cuts b (p + b) start (perform (act buffer) as p x)
      (perform scanAct as (p + b) y) := by
  induction as generalizing x y with
  | nil => exact h
  | cons a as ih => exact ih (act_follows a hbase hbuf h)

theorem FollowsUnchunked.weaken {cuts : Cuts} {b hi hi' : Nat} {start : HttpClientParser} {x : Parsing}
    {y : Scanning} (h : FollowsUnchunked cuts b hi start x y) (hle : hi ≤ hi') :
    FollowsUnchunked cuts b hi' start x y :=
  h.imp_right fun h => ⟨h.offsets.weaken hle, h.bodyStart,
    Nat.le_trans h.bodyStart_le (Nat.add_le_add_right hle 1), h.chunked, h.cs, h.nread, h.reports⟩

/-! ## What one call hands on to the next -/

/-- The parser between two calls, when the scan has reached `b` in the state `q`. -/
structure Resumes (b q : Nat) (parser : HttpClientParser) (m : ResponseMarks) : Prop where
  cs : parser.cs = q
  running : 0 < q ∧ q < httpclientParserFirstFinal
  marks : m.toMarks.Below (b - 1)
  bodyStart : parser.bodyStart = 0
  bodyStart_marks : m.bodyStart = 0
  chunked : parser.chunked = m.chunked

theorem resumes_init : Resumes 0 httpclientParserStart httpclientParserInit {} where
  cs := rfl
  running := by decide
  marks := by constructor <;> exact Nat.le_refl 0
  bodyStart := rfl
  bodyStart_marks := rfl
  chunked := rfl

/-- A new buffer starts at `b`. -/
theorem Resumes.follows {cuts : Cuts} {b q : Nat} {parser : HttpClientParser} {m : ResponseMarks}
    (h : Resumes b q parser m) :
    Follows cuts b (b - 1) parser.reset (parser.reset, []) (m, []) where
  offsets := Offsets.Reads.fresh h.marks
  bodyStart := by
    show parser.bodyStart = m.bodyStart - b
    rw [h.bodyStart, h.bodyStart_marks, Nat.zero_sub]
  bodyStart_le := by
    show m.bodyStart ≤ _
    rw [h.bodyStart_marks]
    exact Nat.zero_le _
  chunked := h.chunked
  cs := rfl
  nread := rfl
  reports := rfl

/-- An arc that stops leads to a final state; one that goes on leads to no such state, and is not `done`. -/
def Row.ends (r : Row Action) : Bool :=
  if r.arc.stops then decide (httpclientParserFirstFinal ≤ r.arc.target)
  else !r.arc.actions.contains .done &&
    decide (0 < r.arc.target ∧ r.arc.target < httpclientParserFirstFinal)

theorem table_ends : table.all (fun e => e.2.all Row.ends) = true := by
  decide +kernel

/-- `body_start` is written by `done` alone. -/
theorem perform_bodyStart {as : List Action} (has : as.contains .done = false) (p : Nat)
    (s : Scanning) : (perform scanAct as p s).1.bodyStart = s.1.bodyStart := by
  induction as generalizing s with
  | nil => rfl
  | cons a as ih =>
    rw [List.contains_cons, Bool.or_eq_false_iff] at has
    refine (ih has.2 (scanAct a p s)).trans ?_
    cases a with
    | done => simp at has
    | _ => rfl

/-- A scan that has not ended is in no final state, and has not written `body_start`. -/
theorem scanFrom_ends {q : Nat} (b : Nat) (text : Bytes) {m : ResponseMarks}
    (hq : 0 < q ∧ q < httpclientParserFirstFinal) (hm : m.bodyStart = 0) :
    ((scanFrom q b text m).halt = .input →
      (0 < (scanFrom q b text m).state ∧
        (scanFrom q b text m).state < httpclientParserFirstFinal) ∧
      (scanFrom q b text m).acc.1.bodyStart = 0) ∧
    ((scanFrom q b text m).halt = .stop →
      httpclientParserFirstFinal ≤ (scanFrom q b text m).state) := by
  refine exec_rule (M := machine) (f := scanAct) (p := b)
    (I := fun q _ s => (0 < q ∧ q < httpclientParserFirstFinal) ∧ s.1.bodyStart = 0)
    (J := fun q _ _ => httpclientParserFirstFinal ≤ q) ?_ ?_ (l := []) ⟨hq, hm⟩ rfl
  · rintro q xs c arc s harc hgoes ⟨-, hs⟩
    obtain ⟨r, rfl, -, hrow⟩ := Table.machine_of_all (P := fun _ => Row.ends) table_ends harc
    simp only [Row.ends, hgoes, Bool.false_eq_true, if_false, Bool.and_eq_true, Bool.not_eq_true',
      decide_eq_true_iff] at hrow
    exact ⟨hrow.2, (perform_bodyStart hrow.1 _ s).trans hs⟩
  · rintro q xs c arc s harc hstops -
    obtain ⟨r, rfl, -, hrow⟩ := Table.machine_of_all (P := fun _ => Row.ends) table_ends harc
    simpa only [Row.ends, hstops, if_true, decide_eq_true_iff] using hrow

/--
**One call of `httpclient_parser_execute` follows the scan**, unless a chunk line or the header for chunks
has been read. No check fails, the callbacks are the tokens as they are seen in the buffer, and if
the buffer is used up the next call can go on.
-/
theorem execute_follows {cuts : Cuts} {b q : Nat} {buffer : Bytes} {parser : HttpClientParser}
    {m : ResponseMarks} (hcuts : cuts.Covers b buffer) (hne : buffer ≠ [])
    (h : Resumes b q parser m) {e : Exit Nat Scanning} (he : scanFrom q b buffer m = e)
    (hchunked : e.acc.1.chunked = false) :
    ∃ parser', httpclientParserExecute parser buffer
        = some (parser', e.acc.2.map (Token.seen cuts), e.pos - b) ∧
      parser'.cs = (if e.halt = .error then httpclientParserError else e.state) ∧
      parser'.chunked = false ∧
      (e.halt = .input → Resumes (b + buffer.length) e.state parser' e.acc.1) := by
  have hlen : 0 < buffer.length := List.length_pos_iff.mpr hne
  -- the two runs of the machine, over the buffer and over the text
  have hrun := exec_rel (M := machine) (f := act buffer) (g := scanAct)
    (R := fun _ p x y => FollowsUnchunked cuts b (p + b - 1) parser.reset x y) (d := b)
    (n := buffer.length)
    (fun q p c arc x y hp _ hxy => by
      obtain ⟨hbase, hbuf⟩ := hcuts p hp
      exact (perform_follows hbase hbuf arc.actions (hxy.weaken (by omega))).weaken (by omega))
    (q := q) (p := 0) (Nat.le_of_eq (Nat.zero_add buffer.length))
    (.inr (by rw [Nat.zero_add]; exact h.follows))
  rw [Nat.zero_add] at hrun
  have hpos := exec_pos machine (act buffer) q 0 buffer (parser.reset, [])
  have hinput := (scanFrom_ends b buffer h.running h.bodyStart_marks).1
  rw [he] at hinput
  unfold scanFrom at he
  rw [he] at hrun
  unfold httpclientParserExecute
  dsimp only
  have hcs : parser.reset.cs = q := h.cs
  rw [hcs]
  generalize machine.exec (act buffer) q 0 buffer (parser.reset, []) = x at hrun hpos
  obtain ⟨hhalt, hstate, hp, hf⟩ := hrun
  have hf := hf.resolve_left (by rw [hchunked]; nofun)
  simp only [hf.nread, Nat.zero_add]
  -- the checks: no register is beyond the byte that was read last
  have hmark := hf.offsets.mark
  have hmarkLe := hf.offsets.mark_le
  have hfieldStart := hf.offsets.fieldStart
  have hfieldStartLe := hf.offsets.fieldStart_le
  have hfieldLen := hf.offsets.fieldLen
  have hcolonLe := hf.offsets.colon_le
  have hbody := hf.bodyStart
  have hbodyLe := hf.bodyStart_le
  rw [if_pos (by refine ⟨?_, ?_, ?_, ?_, ?_⟩ <;> omega)]
  have hposb : e.pos - b = x.pos := by omega
  rw [hposb, ← hf.reports, hhalt]
  refine ⟨_, rfl, by rw [hstate], hf.chunked.trans hchunked, fun hin => ?_⟩
  have hxpos := hpos.2.2 hin
  rw [hhalt] at hinput
  obtain ⟨hrunning, hm0⟩ := hinput hin
  exact {
    cs := by
      show (if x.halt = .error then httpclientParserError else x.state) = _
      rw [if_neg (by rw [hin]; decide), hstate]
    running := hrunning
    marks := by
      have hbelow := hf.offsets.below
      rwa [hxpos, Nat.zero_add, Nat.add_comm] at hbelow
    bodyStart := by
      show x.acc.1.bodyStart = 0
      rw [hbody, hm0, Nat.zero_sub]
    bodyStart_marks := hm0
    chunked := hf.chunked }

end Nemo.Http.Client
