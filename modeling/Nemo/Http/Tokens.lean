import Nemo.Http.Http11Parser

/-!
# The tokens of a request

`scan` runs the machine over the whole text, with positions in place of buffer offsets, and returns
the tokens of the text. `execute_reads` is the refinement: one call of `http_parser_execute` follows
the scan, and its callbacks are the tokens as they are seen in the buffer.
-/

namespace Nemo.Http

open Infra Automaton

/-! ## The scan -/

/-- The positions at which the scan has met the marking actions of the requests. -/
structure RequestMarks extends Marks where
  queryStart : Nat := 0
  bodyStart : Nat := 0
  sent : Bool := false
  deriving DecidableEq, Repr

abbrev Scanning := RequestMarks × List (Token Element)

/-- The actions on positions. -/
def scanAct (a : Action) (fpc : Nat) : Scanning → Scanning
  | (m, ts) =>
    match a with
    | .mark | .startValue => ({ m with mark := fpc }, ts)
    | .startField => ({ m with fieldStart := fpc }, ts)
    | .writeField => ({ m with nameStart := m.fieldStart, colon := fpc }, ts)
    | .writeValue => (m, ts ++ [.field m.nameStart m.colon m.mark fpc])
    | .requestMethod => (m, ts ++ [.element .requestMethod m.mark fpc])
    | .requestUri => (m, ts ++ [.element .requestUri m.mark fpc])
    | .fragment => (m, ts ++ [.element .fragment m.mark fpc])
    | .startQuery => ({ m with queryStart := fpc }, ts)
    | .queryString => (m, ts ++ [.kept .queryString m.queryStart fpc])
    | .httpVersion => (m, ts ++ [.element .httpVersion m.mark fpc])
    | .requestPath => (m, ts ++ [.element .requestPath m.mark fpc])
    | .done =>
      if m.sent then ({ m with bodyStart := m.mark }, ts)
      else ({ m with bodyStart := fpc + 1 }, ts ++ [.done .headerDone fpc])
    | .xml | .json => ({ m with sent := true }, ts)

/-- The scan of `text` from the position `b`. -/
def scanFrom (uriRelaxed : Bool) (q b : Nat) (text : Bytes) (m : RequestMarks) :
    Exit Nat Scanning :=
  (machine uriRelaxed).exec scanAct q b text (m, [])

/-- The scan of a text from its beginning. -/
def scan (uriRelaxed : Bool) (text : Bytes) : Exit Nat Scanning :=
  scanFrom uriRelaxed httpParserStart 0 text {}

/-! ## Which registers are set -/

/-- Whether `query_start` is set, and whether the last header name ends at the last colon. -/
structure Known where
  query : Bool
  name : Bool
  deriving DecidableEq

/-- What is known after an action. `none` if the action reads a register that is not set. -/
def Known.after (k : Known) : Action → Option Known
  | .startQuery => some { k with query := true }
  | .queryString => if k.query then some k else none
  | .startField => some { k with name := false }
  | .writeField => some { k with name := true }
  | .writeValue => if k.name then some k else none
  | _ => some k

/-- What is known in a state: the query states are 30 to 32, the value states 15 and 16. -/
def known (q : Nat) : Known := { query := decide (30 ≤ q ∧ q ≤ 32), name := q == 15 || q == 16 }

def Known.le (k k' : Known) : Bool := (!k.query || k'.query) && (!k.name || k'.name)

/-- No arc reads a register that is not set, and `done` ends the run. -/
def Row.marked (q : Nat) (r : Row Action) : Bool :=
  (match r.arc.actions.foldlM Known.after (known q) with
    | some k => (known r.arc.target).le k
    | none => false) &&
  (!r.arc.actions.contains .done || r.arc.stops) && r.arc.target != httpParserError

theorem table_marked : table.all (fun e => e.2.all fun r => r.marked e.1) = true := by
  decide +kernel

/-! ## One call -/

/--
A parser that works on the buffer at position `b` and a scan have done the same. `hi` bounds the
positions that the scan has marked.
-/
structure Follows (cuts : Cuts) (b hi : Nat) (k : Known) (start : HttpParser) (x : Parsing)
    (y : Scanning) : Prop where
  offsets : x.1.toOffsets.Reads b hi y.1.toMarks
  query : k.query = true → x.1.queryStart = y.1.queryStart - cuts.base y.1.queryStart
  name : k.name = true → y.1.nameStart = y.1.fieldStart
  sent : y.1.sent = (x.1.xmlSent || x.1.jsonSent)
  bodyStart : x.1.bodyStart = y.1.bodyStart - b
  bodyStart_le : y.1.bodyStart ≤ hi + 1
  cs : x.1.cs = start.cs
  uriRelaxed : x.1.uriRelaxed = start.uriRelaxed
  nread : x.1.nread = 0
  reports : x.2 = y.2.map (Token.seen cuts)

/-- One action, at the position `p` of the buffer. -/
theorem act_follows {cuts : Cuts} {b p : Nat} {buffer : Bytes} {k k' : Known} {start : HttpParser}
    {x : Parsing} {y : Scanning} {a : Action}
    (hbase : cuts.base (p + b) = b) (hbuf : cuts.buffer (p + b) = buffer)
    (hk : k.after a = some k') (h : Follows cuts b (p + b) k start x y) :
    Follows cuts b (p + b) k' start (act buffer a p x) (scanAct a (p + b) y) := by
  obtain ⟨parser, reports⟩ := x
  obtain ⟨m, ts⟩ := y
  obtain ⟨ho, hq, hn, hs, hb, hble, hcs, hu, hnr, hr⟩ := h
  dsimp only at ho hq hn hs hb hble hcs hu hnr hr
  -- the tokens that end at this position are seen in this buffer
  have htok : ∀ t : Token Element,
      reports ++ [t.seen cuts] = (ts ++ [t]).map (Token.seen cuts) := by
    intro t
    rw [hr, List.map_append]
    rfl
  cases a with
  | mark | startValue =>
    cases hk
    exact ⟨ho.setMark, hq, hn, hs, hb, hble, hcs, hu, hnr, hr⟩
  | startField =>
    cases hk
    exact ⟨ho.setFieldStart, hq, nofun, hs, hb, hble, hcs, hu, hnr, hr⟩
  | writeField =>
    cases hk
    exact ⟨ho.setFieldLen, hq, fun _ => rfl, hs, hb, hble, hcs, hu, hnr, hr⟩
  | writeValue =>
    simp only [Known.after] at hk
    split at hk
    · next hname =>
      cases hk
      refine ⟨ho, hq, hn, hs, hb, hble, hcs, hu, hnr, ?_⟩
      simp only [act, scanAct]
      rw [← htok, ho.field_seen hbase hbuf (hn hname)]
    · cases hk
  | requestMethod | requestUri | fragment | httpVersion | requestPath =>
    cases hk
    refine ⟨ho, hq, hn, hs, hb, hble, hcs, hu, hnr, ?_⟩
    simp only [act, scanAct]
    rw [← htok, ho.element_seen hbase hbuf]
  | startQuery =>
    cases hk
    refine ⟨ho, fun _ => ?_, hn, hs, hb, hble, hcs, hu, hnr, hr⟩
    simp only [act, scanAct, hbase, Nat.add_sub_cancel]
  | queryString =>
    simp only [Known.after] at hk
    split at hk
    · next hquery =>
      cases hk
      refine ⟨ho, hq, hn, hs, hb, hble, hcs, hu, hnr, ?_⟩
      simp only [act, scanAct]
      rw [← htok]
      simp only [Token.seen, hbase, hbuf, hq hquery, Nat.add_sub_cancel]
    · cases hk
  | done =>
    cases hk
    have hmark := ho.mark
    have hmarkLe := ho.mark_le
    simp only [act, scanAct, hs]
    split
    · exact ⟨ho, hq, hn, rfl, hmark, by dsimp only; omega, hcs, hu, hnr, hr⟩
    · refine ⟨ho, hq, hn, rfl, ?_, Nat.le_refl _, hcs, hu, hnr, ?_⟩
      · show p + 1 = p + b + 1 - b
        omega
      · rw [← htok]
        simp only [Token.seen, hbase, hbuf, Nat.add_sub_cancel]
  | xml =>
    cases hk
    exact ⟨ho, hq, hn, by simp [act, scanAct], hb, hble, hcs, hu, hnr, hr⟩
  | json =>
    cases hk
    exact ⟨ho, hq, hn, by simp [act, scanAct], hb, hble, hcs, hu, hnr, hr⟩

theorem perform_follows {cuts : Cuts} {b p : Nat} {buffer : Bytes} {start : HttpParser}
    (hbase : cuts.base (p + b) = b) (hbuf : cuts.buffer (p + b) = buffer) {as : List Action}
    {k k' : Known} {x : Parsing} {y : Scanning} (hk : as.foldlM Known.after k = some k')
    (h : Follows cuts b (p + b) k start x y) :
    Follows cuts b (p + b) k' start (perform (act buffer) as p x)
      (perform scanAct as (p + b) y) := by
  induction as generalizing k x y with
  | nil =>
    cases hk
    exact h
  | cons a as ih =>
    rw [List.foldlM_cons, Option.bind_eq_bind, Option.bind_eq_some_iff] at hk
    obtain ⟨k₁, ha, has⟩ := hk
    exact ih has (act_follows hbase hbuf ha h)

/-- What is known may be forgotten, and what bounds the marks may grow. -/
theorem Follows.weaken {cuts : Cuts} {b hi hi' : Nat} {k k' : Known} {start : HttpParser}
    {x : Parsing} {y : Scanning} (h : Follows cuts b hi k start x y) (hhi : hi ≤ hi')
    (hk : k'.le k = true) : Follows cuts b hi' k' start x y := by
  simp only [Known.le, Bool.and_eq_true, Bool.or_eq_true, Bool.not_eq_true'] at hk
  exact ⟨h.offsets.weaken hhi, fun hq => h.query (hk.1.resolve_left (by simp [hq])),
    fun hn => h.name (hk.2.resolve_left (by simp [hn])), h.sent, h.bodyStart,
    Nat.le_trans h.bodyStart_le (Nat.add_le_add_right hhi 1), h.cs, h.uriRelaxed, h.nread,
    h.reports⟩

/-- The invariant of the refinement in a state of the machine, at the position `p` of the buffer. -/
def FollowsAt (cuts : Cuts) (b : Nat) (start : HttpParser) (q p : Nat) (x : Parsing)
    (y : Scanning) : Prop :=
  Follows cuts b (p + b - 1) (known q) start x y

theorem arc_follows {uriRelaxed : Bool} {cuts : Cuts} {b : Nat} {buffer : Bytes}
    {start : HttpParser} (hcuts : cuts.Covers b buffer) {q p : Nat} {c : UInt8}
    {arc : Arc Nat Action} {x : Parsing} {y : Scanning} (hp : p < buffer.length)
    (harc : machine uriRelaxed q c = some arc) (h : FollowsAt cuts b start q p x y) :
    FollowsAt cuts b start arc.target (p + 1) (perform (act buffer) arc.actions p x)
      (perform scanAct arc.actions (p + b) y) := by
  obtain ⟨r, rfl, -, hmarked⟩ := machine_of_table table_marked harc
  simp only [Row.marked, Bool.and_eq_true] at hmarked
  have hk := hmarked.1.1
  obtain ⟨hb, hbuf⟩ := hcuts p hp
  split at hk
  · next k' hfold =>
    have h' : Follows cuts b (p + b) (known q) start x y := h.weaken (by omega) (by simp [Known.le])
    exact (perform_follows hb hbuf hfold h').weaken (by omega) hk
  · cases hk

/-! ## What one call hands on to the next -/

/-- The parser between two calls, when the scan has reached `b` in the state `q`. -/
structure Resumes (cuts : Cuts) (b q : Nat) (parser : HttpParser) (m : RequestMarks) : Prop where
  cs : parser.cs = q
  cs_ne : q ≠ httpParserError
  marks : m.toMarks.Below (b - 1)
  query : (known q).query = true → parser.queryStart = m.queryStart - cuts.base m.queryStart
  name : (known q).name = true → m.nameStart = m.fieldStart
  sent : m.sent = (parser.xmlSent || parser.jsonSent)
  bodyStart : parser.bodyStart = 0
  bodyStart_marks : m.bodyStart = 0

theorem resumes_init (cuts : Cuts) (uriRelaxed : Bool) (queryStart : Nat) :
    Resumes cuts 0 httpParserStart (httpParserInit uriRelaxed queryStart) {} where
  cs := rfl
  cs_ne := by decide
  marks := by constructor <;> exact Nat.le_refl 0
  query := nofun
  name := nofun
  sent := rfl
  bodyStart := rfl
  bodyStart_marks := rfl

/-- A new buffer starts at `b`. -/
theorem Resumes.followsAt {cuts : Cuts} {b q : Nat} {parser : HttpParser} {m : RequestMarks}
    (h : Resumes cuts b q parser m) :
    FollowsAt cuts b parser.reset q 0 (parser.reset, []) (m, []) where
  offsets := by
    rw [Nat.zero_add]
    exact Offsets.Reads.fresh h.marks
  query := h.query
  name := h.name
  sent := h.sent
  bodyStart := by
    show parser.bodyStart = m.bodyStart - b
    rw [h.bodyStart, h.bodyStart_marks, Nat.zero_sub]
  bodyStart_le := by
    show m.bodyStart ≤ _
    rw [h.bodyStart_marks]
    exact Nat.zero_le _
  cs := rfl
  uriRelaxed := rfl
  nread := rfl
  reports := rfl

/-- `body_start` is written by `done` alone. -/
theorem perform_bodyStart {as : List Action} (has : as.contains .done = false) (p : Nat)
    (s : Scanning) : (perform scanAct as p s).1.bodyStart = s.1.bodyStart := by
  induction as generalizing s with
  | nil => rfl
  | cons a as ih =>
    rw [List.contains_cons, Bool.or_eq_false_iff] at has
    refine (ih has.2 (scanAct a p s)).trans ?_
    cases a with
    | done => simp at has
    | _ => rfl

/-- A scan that has not ended is in a proper state, and has not written `body_start`. -/
theorem scanFrom_of_input (uriRelaxed : Bool) {q : Nat} (b : Nat) (text : Bytes) {m : RequestMarks}
    (hq : q ≠ httpParserError) (hm : m.bodyStart = 0)
    (hhalt : (scanFrom uriRelaxed q b text m).halt = .input) :
    (scanFrom uriRelaxed q b text m).state ≠ httpParserError ∧
      (scanFrom uriRelaxed q b text m).acc.1.bodyStart = 0 := by
  refine (exec_rule (M := machine uriRelaxed) (f := scanAct) (p := b)
    (I := fun q _ s => q ≠ httpParserError ∧ s.1.bodyStart = 0) (J := fun _ _ _ => True)
    ?_ (fun _ _ _ _ _ _ _ _ => trivial) (l := []) ⟨hq, hm⟩ rfl).1 hhalt
  rintro q xs c arc s harc hgoes ⟨-, hs⟩
  obtain ⟨r, rfl, -, hmarked⟩ := machine_of_table table_marked harc
  simp only [Row.marked, Bool.and_eq_true, bne_iff_ne, ne_eq] at hmarked
  obtain ⟨⟨-, hdone⟩, htarget⟩ := hmarked
  rw [hgoes, Bool.or_false, Bool.not_eq_true'] at hdone
  exact ⟨htarget, (perform_bodyStart hdone _ s).trans hs⟩

/--
**One call of `http_parser_execute` follows the scan.** No assertion fails, the callbacks are the
tokens as they are seen in the buffer, and if the buffer is used up the next call can go on.
-/
theorem execute_follows {cuts : Cuts} {b q : Nat} {buffer : Bytes} {parser : HttpParser}
    {m : RequestMarks} (hcuts : cuts.Covers b buffer) (hne : buffer ≠ [])
    (h : Resumes cuts b q parser m) {e : Exit Nat Scanning}
    (he : scanFrom parser.uriRelaxed q b buffer m = e) :
    ∃ parser', httpParserExecute parser buffer
        = some (parser', e.acc.2.map (Token.seen cuts), e.pos - b) ∧
      parser'.cs = (if e.halt = .error then httpParserError else e.state) ∧
      parser'.uriRelaxed = parser.uriRelaxed ∧
      parser'.bodyStart = e.acc.1.bodyStart - b ∧
      e.acc.1.sent = (parser'.xmlSent || parser'.jsonSent) ∧
      (e.halt = .input → Resumes cuts (b + buffer.length) e.state parser' e.acc.1) := by
  have hlen : 0 < buffer.length := List.length_pos_iff.mpr hne
  -- the two runs of the machine, over the buffer and over the text
  have hrun := exec_rel (M := machine parser.uriRelaxed) (f := act buffer) (g := scanAct)
    (R := FollowsAt cuts b parser.reset) (d := b) (n := buffer.length)
    (fun q p c arc x y hp harc hxy => arc_follows hcuts hp harc hxy)
    (p := 0) (Nat.le_of_eq (Nat.zero_add buffer.length)) h.followsAt
  rw [Nat.zero_add] at hrun
  have hpos := exec_pos (machine parser.uriRelaxed) (act buffer) q 0 buffer (parser.reset, [])
  have hinput := scanFrom_of_input parser.uriRelaxed b buffer h.cs_ne h.bodyStart_marks
  rw [he] at hinput
  unfold scanFrom at he
  rw [he] at hrun
  unfold httpParserExecute
  rw [if_neg (by omega)]
  dsimp only
  have hcs : parser.reset.cs = q := h.cs
  have hu : parser.reset.uriRelaxed = parser.uriRelaxed := rfl
  rw [hcs, hu]
  generalize (machine parser.uriRelaxed).exec (act buffer) q 0 buffer (parser.reset, []) = x
    at hrun hpos
  obtain ⟨hhalt, hstate, hp, hf⟩ := hrun
  have herr : x.acc.1.hasError = false := by
    simp only [HttpParser.hasError, hf.cs, hcs, beq_eq_false_iff_ne]
    exact h.cs_ne
  simp only [herr, Bool.false_eq_true, if_false, hf.nread, Nat.zero_add]
  -- the assertions: no register is beyond the byte that was read last
  have hmark := hf.offsets.mark
  have hmarkLe := hf.offsets.mark_le
  have hfieldStart := hf.offsets.fieldStart
  have hfieldStartLe := hf.offsets.fieldStart_le
  have hfieldLen := hf.offsets.fieldLen
  have hcolonLe := hf.offsets.colon_le
  have hbody := hf.bodyStart
  have hbodyLe := hf.bodyStart_le
  rw [if_pos (by refine ⟨?_, ?_, ?_, ?_, ?_⟩ <;> omega)]
  have hposb : e.pos - b = x.pos := by omega
  rw [hposb, ← hf.reports, hhalt]
  refine ⟨_, rfl, by rw [hstate], hf.uriRelaxed, hbody, hf.sent, fun hin => ?_⟩
  have hxpos := hpos.2.2 hin
  rw [hhalt] at hinput
  obtain ⟨hne0, hm0⟩ := hinput hin
  exact {
    cs := by
      show (if x.halt = .error then httpParserError else x.state) = _
      rw [if_neg (by rw [hin]; decide), hstate]
    cs_ne := hne0
    marks := by
      have hbelow := hf.offsets.below
      rwa [hxpos, Nat.zero_add, Nat.add_comm] at hbelow
    query := by
      rw [hstate]
      exact hf.query
    name := by
      rw [hstate]
      exact hf.name
    sent := hf.sent
    bodyStart := by
      show x.acc.1.bodyStart = 0
      rw [hbody, hm0, Nat.zero_sub]
    bodyStart_marks := hm0 }

end Nemo.Http
