import Mathlib.Data.List.TakeWhile
import Nemo.Http.ResponseLines

/-!
# The round trip of a response

A response that is printed by `toString` and read by `recvResponse` has the same version, status, reason,
headers and body, exactly when an `int` can count what the first read leaves of the body.
-/

namespace Nemo.Http.Client

open Infra Automaton Net

variable {env : Env} {r : HttpResponse}

/-! ## The head -/

/-- The line for the length of the body. -/
def lengthLine (r : HttpResponse) : Bytes :=
  if r.body.isEmpty then [] else headerLine (ascii "content-length") (toDecimal r.body.length)

/-- A printed response up to its body. -/
def headText (r : HttpResponse) : Bytes :=
  printedVersion r.version ++ 32 :: (toDecimal (HttpStatus.value r.status) ++ 32 :: (r.printedReason ++
    13 :: 10 :: (printedLines r.headers.entries ++ (headerLine (ascii "connection") r.connection ++
      (lengthLine r ++ [13, 10])))))

theorem headText_append (r : HttpResponse) (body : Bytes) :
    headText r ++ body = printedVersion r.version ++
      32 :: (toDecimal (HttpStatus.value r.status) ++ 32 :: (r.printedReason ++
        13 :: 10 :: (printedLines r.headers.entries ++ (headerLine (ascii "connection") r.connection ++
          (lengthLine r ++ 13 :: 10 :: body))))) := by
  simp [headText]

theorem cString_of_token {name : Bytes} (h : ∀ b ∈ name, tokenChar.contains false b = true) :
    cString name = name := by
  refine List.takeWhile_eq_self_iff.mpr fun b hb => ?_
  have hnul : (byte 0).contains false b = false :=
    Class.not_contains_of_apart (c := tokenChar) (by decide) (h b hb)
  rw [bne_iff_ne]
  rintro rfl
  cases hnul

/-- A text that stands in a status line. -/
def isReason (text : Bytes) : Bool :=
  !text.isEmpty && text.all fun b => decide (HttpResponse.NotLineEnd b)

theorem isReason_iff {text : Bytes} :
    isReason text = true ↔ text ≠ [] ∧ ∀ b ∈ text, HttpResponse.NotLineEnd b := by
  simp [isReason, List.all_eq_true]

theorem httpStatusMap_texts : httpStatusMap.all (fun x => isReason x.2) = true := by
  decide +kernel

section

variable (h : r.Printable)
include h

open HttpResponse (reservedNames)

theorem isLine_of_printable {line : Bytes × Bytes} (hline : line ∈ r.headers.entries) : IsLine line := by
  obtain ⟨hne, hname⟩ := h.name line hline
  obtain ⟨hvalue, hstart⟩ := h.value line hline
  refine ⟨hne, hname, fun hmem => ?_, hvalue, hstart⟩
  have hword : ∀ w ∈ reservedNames, cString w = w ∧ w.map tolower = w := by decide
  obtain ⟨hstring, hlower⟩ := hword _ hmem
  refine h.reserved line hline _ hmem ?_
  rw [strcasecmp, compareBytes_eq_iff, hstring, hlower, cString_of_token hname]

/-- The reason that is printed is not empty, and has no line ends. -/
theorem printedReason_ne : r.printedReason ≠ [] ∧ ∀ b ∈ r.printedReason, HttpResponse.NotLineEnd b := by
  unfold HttpResponse.printedReason
  split
  · unfold httpStatus2String
    split
    · next msg hmsg =>
      obtain ⟨l₁, l₂, hl, -⟩ := List.lookup_eq_some_iff.mp hmsg
      exact isReason_iff.mp
        (List.all_eq_true.mp httpStatusMap_texts (r.status, msg) (by rw [hl]; simp))
    · exact isReason_iff.mp (by decide)
  · next hreason => exact ⟨by simpa using hreason, h.reason⟩

theorem toString_eq : r.toString = headText r ++ r.body := by
  have hversion : ascii "HTTP/" ++ toDecimal (r.version.value >>> 4) ++ ascii "." ++
      toDecimal (r.version.value &&& 0x0F) = printedVersion r.version := by
    cases r.version <;> decide +kernel
  have hlines : (r.headers.entries.flatMap fun header =>
      if strcasecmp header.1 (ascii "connection") == .eq then [] else headerLine header.1 header.2) =
      printedLines r.headers.entries := by
    refine List.flatMap_congr fun header hheader => if_neg ?_
    rw [beq_iff_eq]
    exact h.reserved header hheader _ List.mem_cons_self
  have hbody : (if r.body.isEmpty then ascii "\r\n"
      else headerLine (ascii "content-length") (toDecimal r.body.length) ++ ascii "\r\n" ++ r.body) =
      lengthLine r ++ 13 :: 10 :: r.body := by
    have hend : ascii "\r\n" = [13, 10] := rfl
    unfold lengthLine
    cases r.body <;> simp [hend]
  have hblank : ascii " " = [32] := rfl
  have hend : ascii "\r\n" = [13, 10] := rfl
  rw [headText_append, HttpResponse.toString, HttpResponse.dump, hversion, h.webSocket, h.cookies,
    hbody, hblank, hend]
  simp only [Bool.not_false, Bool.true_and, hlines]
  simp

end

/-- What the parser makes of a printed response. -/
def headOf (r : HttpResponse) : HttpResponse where
  status := r.status
  version := r.version
  reason := r.printedReason
  headers := HeaderMap.setHeaders .empty (r.headers.entries ++ r.ownFields)

/-- The line for the length of the body sets its header, if there is one. -/
theorem run_lengthLine {text : Bytes} {p q : Nat} {m : HttpClientParser} {f : HttpResponse}
    {e : HttpParserError} (hq : q ∈ lineStarts) {ys : Bytes} (hdrop : text.drop p = lengthLine r ++ ys) :
    ∃ m', m'.chunked = m.chunked ∧ ∃ q' ∈ lineStarts,
      run text q p (lengthLine r ++ ys) (some (m, f, e)) =
        run text q' (p + (lengthLine r).length) ys (some (m', { f with
          headers := f.headers.setHeaders
            (if r.body.isEmpty then [] else [(ascii "content-length", toDecimal r.body.length)]) }, e)) := by
  unfold lengthLine at *
  cases hbody : r.body.isEmpty with
  | true => exact ⟨m, rfl, q, hq, rfl⟩
  | false =>
    rw [hbody] at hdrop
    obtain ⟨m', hchunked, hread⟩ := run_length (r := f) (e := e) (m := m) hq _ hdrop
    exact ⟨m', hchunked, 20, List.mem_cons_self, hread⟩

/--
The lines behind the status line: the printed headers, `connection`, the length of the body and the
empty line.
-/
theorem run_headLines (h : r.Printable) {text body : Bytes} {n : Nat} {m : HttpClientParser}
    {f : HttpResponse} {e : HttpParserError}
    (hdrop : text.drop n = printedLines r.headers.entries ++
      (headerLine (ascii "connection") r.connection ++ (lengthLine r ++ 13 :: 10 :: body))) :
    ∃ m', m'.chunked = m.chunked ∧
      run text 20 n (text.drop n) (some (m, f, e)) =
        ⟨.stop, 120, n + (printedLines r.headers.entries).length +
            (headerLine (ascii "connection") r.connection).length + (lengthLine r).length + 2,
          some (m', { f with
            headers := f.headers.setHeaders (r.headers.entries ++ r.ownFields) }, e)⟩ := by
  obtain ⟨m₁, hchunked₁, hread₁⟩ := run_lines (m := m) (r := f) (e := e)
    (fun line hline => isLine_of_printable h hline) hdrop
  have hdrop₁ := drop_piece hdrop
  obtain ⟨m₂, hchunked₂, q₂, hq₂, hread₂⟩ := run_connection (a := r) (m := m₁) (e := e)
    (r := { f with headers := f.headers.setHeaders r.headers.entries }) hdrop₁
  obtain ⟨m₃, hchunked₃, q₃, hq₃, hread₃⟩ := run_lengthLine (r := r) (m := m₂) (e := e)
    (f := { f with
      headers := (f.headers.setHeaders r.headers.entries).setHeader (ascii "connection") r.connection })
    hq₂ (drop_piece hdrop₁)
  obtain ⟨m₄, hchunked₄, hread₄⟩ := @run_end text (n + (printedLines r.headers.entries).length +
    (headerLine (ascii "connection") r.connection).length + (lengthLine r).length) q₃ m₃
    { f with headers := f.headers.setHeaders (r.headers.entries ++ r.ownFields) } e hq₃ body
  refine ⟨m₄, hchunked₄.trans (hchunked₃.trans (hchunked₂.trans hchunked₁)), ?_⟩
  -- the headers of the response, then the two that `dump` adds
  have hheaders : f.headers.setHeaders (r.headers.entries ++ r.ownFields) =
      ((f.headers.setHeaders r.headers.entries).setHeader (ascii "connection")
        r.connection).setHeaders
        (if r.body.isEmpty then [] else [(ascii "content-length", toDecimal r.body.length)]) := by
    unfold HeaderMap.setHeaders HttpResponse.ownFields
    rw [List.foldl_append, List.foldl_cons]
  rw [hdrop]
  rw [hheaders] at hread₄ ⊢
  exact hread₁.trans (hread₂.trans (hread₃.trans hread₄))

/-- **The machine reads the head of a printed response**, and makes its members of it. -/
theorem run_headText (h : r.Printable) {text body : Bytes} (htext : text = headText r ++ body) :
    ∃ m, m.chunked = false ∧
      run text 1 0 text (some (httpclientParserInit, {}, .ok)) =
        ⟨.stop, 120, (headText r).length, some (m, headOf r, .ok)⟩ := by
  obtain ⟨ys, hys⟩ : ∃ ys, ys = printedLines r.headers.entries ++
    (headerLine (ascii "connection") r.connection ++ (lengthLine r ++ 13 :: 10 :: body)) := ⟨_, rfl⟩
  obtain ⟨n, hn⟩ : ∃ n, n =
    9 + ((toDecimal (HttpStatus.value r.status)).length + 1) + (r.printedReason.length + 2) := ⟨_, rfl⟩
  have hsplit : text = printedVersion r.version ++ 32 :: (toDecimal (HttpStatus.value r.status) ++
      32 :: (r.printedReason ++ 13 :: 10 :: ys)) := by
    rw [htext, headText_append, hys]
  have hversion : (printedVersion r.version).length = 8 := by cases r.version <;> rfl
  -- where the lines begin
  have hdrop : text.drop n = ys := by
    have hsplit' : text = (printedVersion r.version ++ 32 :: (toDecimal (HttpStatus.value r.status) ++
        32 :: (r.printedReason ++ [13, 10]))) ++ ys := by
      rw [hsplit]
      simp
    rw [hsplit']
    refine List.drop_left' ?_
    simp only [List.length_append, List.length_cons, List.length_nil, hversion, hn]
    omega
  obtain ⟨mark, hread₁⟩ := run_statusLine (m := httpclientParserInit) (r := {}) (e := .ok) r.version
    r.status (printedReason_ne h).1 (printedReason_ne h).2 hsplit
  rw [← hn, ← hdrop] at hread₁
  rw [hys] at hdrop
  obtain ⟨m, hchunked, hread₂⟩ := run_headLines h (m := { httpclientParserInit with mark := mark })
    (f := { version := r.version, status := r.status, reason := r.printedReason }) (e := .ok) hdrop
  have hlength : (headText r).length = n + (printedLines r.headers.entries).length +
      (headerLine (ascii "connection") r.connection).length + (lengthLine r).length + 2 := by
    simp only [headText, List.length_append, List.length_cons, List.length_nil, hversion, hn]
    omega
  refine ⟨m, hchunked, ?_⟩
  rw [hlength]
  exact hread₁.trans hread₂

/-! ## One call -/

/-- The registers of a run that has come to the position `p` of a buffer of length `n`. -/
structure Bounded (n p : Nat) (m : HttpClientParser) : Prop where
  nread : m.nread = 0
  bodyStart : m.bodyStart ≤ n
  mark : m.mark ≤ p ∧ m.mark < n
  fieldStart : m.fieldStart ≤ p ∧ m.fieldStart < n
  fieldLen : m.fieldLen ≤ n

theorem Bounded.act {text : Bytes} {n p : Nat} {y : Parsing} (h : Bounded n p y.1) (hp : p < n)
    (a : Action) : Bounded n p (act text a p y).1 := by
  obtain ⟨m, reports⟩ := y
  obtain ⟨hnread, hbody, hmark, hstart, hlen⟩ := h
  have hname : len m.fieldStart p ≤ n := by
    rw [len_of_le hstart.1]
    omega
  cases a with
  | mark | startValue => exact ⟨hnread, hbody, ⟨Nat.le_refl p, hp⟩, hstart, hlen⟩
  | startField => exact ⟨hnread, hbody, hmark, ⟨Nat.le_refl p, hp⟩, hlen⟩
  | writeField => exact ⟨hnread, hbody, hmark, hstart, hname⟩
  | done => exact ⟨hnread, hp, hmark, hstart, hlen⟩
  | _ => exact ⟨hnread, hbody, hmark, hstart, hlen⟩

/-- No assertion and no check of a call fails. -/
theorem Bounded.exec {text : Bytes} {q : Nat} {m : HttpClientParser} (h : Bounded text.length 0 m) :
    ∃ p, Bounded text.length p (machine.exec (Client.act text) q 0 text (m, [])).acc.1 := by
  have hperform : ∀ p < text.length, ∀ (as : List Action) (y : Parsing), Bounded text.length p y.1 →
      Bounded text.length p (perform (Client.act text) as p y).1 := by
    intro p hp as
    induction as with
    | nil => exact fun _ hy => hy
    | cons a as ih => exact fun y hy => ih _ (hy.act hp a)
  have hrel := @exec_rel _ _ _ _ _ machine (Client.act text) (fun _ _ (u : Unit) => u)
    (fun _ p y _ => Bounded text.length p y.1) 0 text.length
    (fun _ p _ arc y _ hp _ hy => by
      obtain ⟨h1, h2, h3, h4, h5⟩ := hperform p hp arc.actions y hy
      exact ⟨h1, h2, ⟨Nat.le_succ_of_le h3.1, h3.2⟩, ⟨Nat.le_succ_of_le h4.1, h4.2⟩, h5⟩)
    q 0 text (m, []) () (Nat.le_of_eq (Nat.zero_add _)) h
  exact ⟨_, hrel.2.2.2⟩

/-- A call of `execute` on a new parser, for a run that stops. -/
theorem execute_of_run {data : Bytes} {q n : Nat} {m : HttpClientParser} {f : Filling}
    (h : run data 1 0 data (some (httpclientParserInit, {}, .ok)) = ⟨.stop, q, n, some (m, f)⟩) :
    ∃ p : HttpResponseParser, HttpResponseParser.execute {} data false = some (p, data.drop n, n) ∧
      p.parser.chunked = m.chunked ∧ p.parser.cs = q ∧ p.response = f.1 ∧ p.error = f.2 ∧ 0 < n := by
  obtain ⟨hhalt, hstate, hpos, hacc⟩ := run_of_exec data 1 httpclientParserInit ({}, .ok)
  rw [h] at hhalt hstate hpos hacc
  dsimp only at hhalt hstate hpos hacc
  have hlt := lt_pos_of_stop hhalt.symm
  have hle := (exec_pos machine (act data) 1 0 data (httpclientParserInit, [])).2.1
  have hbounded : Bounded data.length 0 httpclientParserInit :=
    ⟨rfl, Nat.zero_le _, ⟨Nat.le_refl 0, by show 0 < data.length; omega⟩,
      ⟨Nat.le_refl 0, by show 0 < data.length; omega⟩, Nat.zero_le _⟩
  obtain ⟨p, hnread, hbody, hmark, hstart, hlen⟩ := hbounded.exec (q := 1)
  unfold readingOf at hacc
  obtain ⟨f', hreports, heq⟩ := Option.map_eq_some_iff.mp hacc.symm
  cases heq
  generalize hexit : machine.exec (act data) 1 0 data (httpclientParserInit, []) = exit at *
  obtain ⟨halt, state, pos, m, reports⟩ := exit
  dsimp only at *
  subst hhalt hstate hpos
  refine ⟨⟨{ m with cs := q, nread := n }, f.1, f.2⟩, ?_, rfl, rfl, rfl, rfl, hlt⟩
  have hexecute : httpclientParserExecute httpclientParserInit data =
      some ({ m with cs := q, nread := n }, reports, n) := by
    have hn : n ≤ data.length := by omega
    have hreset : httpclientParserInit.reset = httpclientParserInit := rfl
    have hcs : httpclientParserInit.cs = 1 := rfl
    simp [httpclientParserExecute, hreset, hcs, hexit, hnread, hbody, hmark.2, hstart.2, hlen, hn]
  unfold HttpResponseParser.execute
  simp only [Bool.false_eq_true, if_false, hexecute]
  rw [Option.bind_eq_bind, Option.bind_some, hreports]
  rfl

/-- **The head** of a response that is in the first read. -/
theorem recvHead_firstRead {data : Bytes} {n : Nat} {m : HttpClientParser} {f : HttpResponse}
    (hle : data.length ≤ env.buffSize) (hchunked : m.chunked = false)
    (h : run data 1 0 data (some (httpclientParserInit, {}, .ok)) = ⟨.stop, 120, n, some (m, f, .ok)⟩)
    (rest : Stream) (fuel : Nat) :
    ∃ p : HttpResponseParser, recvHead env (fuel + 1) {} [] (data :: rest) =
        .message (p, data.drop n) rest ∧ p.parser.chunked = false ∧ p.response = f := by
  obtain ⟨p, hexecute, hchunked', hcs, hresponse, herror, hpos⟩ := execute_of_run h
  have hne : data ≠ [] := by
    rintro rfl
    cases h
  have hread : Net.read env.buffSize (data :: rest) = (data, rest) := by
    have := env.buffSize_le
    have hmin : data.length ≤ min env.buffSize intMax := by omega
    simp only [Net.read]
    rw [List.take_of_length_le hmin, if_pos hmin]
  have hok : p.hasError = false ∧ p.isFinished = 1 := by
    unfold HttpResponseParser.hasError HttpResponseParser.isFinished httpclientParserFinish
      HttpClientParser.hasError HttpClientParser.isFinished
    rw [herror, hcs]
    exact ⟨rfl, rfl⟩
  have hnotFull : data.length - n ≠ env.buffSize := by
    have := List.length_pos_iff.mpr hne
    omega
  refine ⟨p, ?_, hchunked'.trans hchunked, hresponse⟩
  rw [recvHead, List.length_nil, Nat.sub_zero, hread]
  simp only [List.isEmpty_iff, hne, if_false, List.nil_append, hexecute, hok.1, hok.2, hnotFull,
    Bool.false_eq_true]
  rfl

/-- The first read takes what the buffer can hold. -/
theorem recvResponse_firstRead (env : Env) (text : Bytes) :
    recvResponse env [text] = recvResponse env (text.take env.buffSize :: behind env text) := by
  have hle := env.buffSize_le
  have hread : Net.read env.buffSize [text] =
      Net.read env.buffSize (text.take env.buffSize :: behind env text) := by
    have hmin : min env.buffSize intMax = env.buffSize := by omega
    simp only [Net.read, behind, hmin, List.take_take, Nat.min_self, List.length_take]
    rw [if_pos (Nat.min_le_left _ _)]
  have hlength : (text.take env.buffSize :: behind env text).flatten.length = [text].flatten.length := by
    rw [List.flatten_cons, behind_flatten, List.take_append_drop, List.flatten_singleton]
  have hhead : ∀ fuel, recvHead env (fuel + 1) {} [] [text] =
      recvHead env (fuel + 1) {} [] (text.take env.buffSize :: behind env text) := by
    intro fuel
    rw [recvHead, recvHead, List.length_nil, Nat.sub_zero, hread]
  unfold recvResponse
  rw [hlength, hhead]

/-! ## The headers -/

theorem setHeaders_entries (headers : HeaderMap) : HeaderMap.setHeaders .empty headers.entries = headers := by
  refine SortedMap.ext_entry caseInsensitiveLess_order fun name => ?_
  rw [entry_setHeaders, headerOf, SortedMap.filter_same caseInsensitiveLess_order]
  cases headers.entry name <;> rfl

theorem headOf_headers (r : HttpResponse) :
    (headOf r).headers = r.headers.setHeaders r.ownFields := by
  show HeaderMap.setHeaders .empty (r.headers.entries ++ r.ownFields) = _
  conv_rhs => rw [← setHeaders_entries r.headers]
  unfold HeaderMap.setHeaders
  rw [List.foldl_append]

/-- Only `dump` gives a length. -/
theorem find_contentLength (h : r.Printable) :
    (headOf r).headers.find (ascii "content-length") =
      if r.body.isEmpty then none else some (toDecimal r.body.length) := by
  have hnone : r.headers.entry (ascii "content-length") = none := by
    cases hentry : r.headers.entry (ascii "content-length") with
    | none => rfl
    | some header =>
      have hsame : SortedMap.same caseInsensitiveLess header.1 (ascii "content-length") = true :=
        List.find?_some (p := fun e : Bytes × Bytes =>
          SortedMap.same caseInsensitiveLess e.1 (ascii "content-length")) hentry
      exact absurd (strcasecmp_of_same hsame)
        (h.reserved header (List.mem_of_find?_eq_some hentry) _ (by decide))
  have hdiffer :
      SortedMap.same caseInsensitiveLess (ascii "connection") (ascii "content-length") = false := by
    decide
  have hrefl := caseInsensitiveLess_order.same_refl (ascii "content-length")
  rw [SortedMap.find_eq_entry, headOf, entry_setHeaders, headerOf, List.filter_append,
    SortedMap.filter_same caseInsensitiveLess_order, hnone, HttpResponse.ownFields]
  cases r.body <;> simp [hdiffer, hrefl]

/-- The length of the body that the parser finds. -/
theorem bodyLen_headOf (hcasts : CastsDecimals env) (h : r.Printable) (hsize : r.body.length < 2 ^ 63) :
    toInt64 ((headOf r).headers.getAsSize env.lexicalCast (ascii "content-length")) = r.body.length := by
  have hint : toInt64 r.body.length = r.body.length := Int.bmod_eq_of_le (by omega) (by omega)
  unfold HeaderMap.getAsSize
  rw [find_contentLength h]
  cases hempty : r.body.isEmpty with
  | true =>
    rw [List.isEmpty_iff.mp hempty] at hint ⊢
    exact hint
  | false =>
    have hcast := hcasts ⟨r.body.length, by omega⟩
    dsimp only at hcast
    simp only [Bool.false_eq_true, if_false, hcast]
    exact hint

theorem setBody_headOf (r : HttpResponse) : setBody (headOf r) r.body = r.received := by
  have hheaders := headOf_headers r
  unfold setBody HttpResponse.received
  rw [← hheaders]
  cases hbody : r.body <;> simp [headOf]

/-! ## The round trip -/

/-- The first read of a printed response has its head. -/
theorem take_toString (h : r.Printable) (hfits : r.HeadFits env) :
    (headText r).length ≤ env.buffSize ∧ r.toString.take env.buffSize =
      headText r ++ r.body.take (env.buffSize - (headText r).length) := by
  unfold HttpResponse.HeadFits at hfits
  rw [toString_eq h, List.length_append, Nat.add_sub_cancel] at hfits
  exact ⟨hfits, by rw [toString_eq h, List.take_append, List.take_of_length_le hfits]⟩

/-- **What `recvResponse` returns** for a printed response. -/
theorem recvResponse_toString (hcasts : CastsDecimals env) (h : r.Printable) (hfits : r.HeadFits env)
    (hsize : r.body.length < 2 ^ 63) :
    (¬ r.Counted env → recvResponse env [r.toString] = .null) ∧
      (r.Counted env → ∃ rest, recvResponse env [r.toString] = .message r.received rest) := by
  obtain ⟨hle, htake⟩ := take_toString h hfits
  obtain ⟨m, hchunked, hrun⟩ := run_headText h htake
  obtain ⟨p, hhead, hp, hresponse⟩ := recvHead_firstRead (List.length_take_le _ _) hchunked hrun
    (behind env r.toString)
    (r.toString.take env.buffSize :: behind env r.toString).flatten.length
  have hheld : (r.toString.take env.buffSize).drop (headText r).length =
      r.body.take (env.buffSize - (headText r).length) := by
    rw [htake, List.drop_left]
  rw [hheld] at hhead
  generalize hb : r.body.take (env.buffSize - (headText r).length) = held at hhead
  have hbodyLen := bodyLen_headOf hcasts h hsize
  rw [← hresponse] at hbodyLen
  have hflat : held ++ (behind env r.toString).flatten = r.body := by
    rw [← hb, behind_flatten, toString_eq h, List.drop_append, List.drop_of_length_le hle,
      List.nil_append, List.take_append_drop]
  have hlength : r.toString.length = (headText r).length + r.body.length := by
    rw [toString_eq h, List.length_append]
  have hheldLength : held.length = min (env.buffSize - (headText r).length) r.body.length := by
    rw [← hb, List.length_take]
  -- what is left of the body is what is left of the text
  have hleft : held.length < r.body.length ↔ env.buffSize < r.toString.length := by omega
  have hrest : r.body.length - held.length = r.toString.length - env.buffSize := by omega
  have hrecv : recvResponse env [r.toString] =
      if (r.body.length : Int) > 0 then
        (recvBody r.body.length held (behind env r.toString)).elim .null fun received =>
          .message (setBody (headOf r) received.1) received.2
      else .message (headOf r) (behind env r.toString) := by
    rw [recvResponse_firstRead]
    unfold recvResponse
    rw [hhead]
    dsimp only
    rw [hp, if_neg Bool.false_ne_true, HttpResponseParser.getContentLength, hbodyLen]
    cases recvBody r.body.length held (behind env r.toString) <;> exact hresponse ▸ rfl
  rw [hrecv]
  by_cases hempty : r.body = []
  · have hshort : ¬ env.buffSize < r.toString.length := by
      rw [hempty] at hleft
      rw [← hleft]
      exact Nat.not_lt_zero _
    refine ⟨fun hno => absurd (fun hlt => absurd hlt hshort) hno, fun _ => ?_⟩
    have hnone : ¬ (r.body.length : Int) > 0 := by
      rw [hempty]
      decide
    rw [if_neg hnone, ← setBody_headOf r, hempty]
    exact ⟨_, rfl⟩
  · have hpos : (r.body.length : Int) > 0 := by
      have := List.length_pos_iff.mpr hempty
      omega
    rw [if_pos hpos]
    constructor
    · intro hno
      obtain ⟨hlt, hint⟩ := Classical.not_imp.mp hno
      rw [recvBody_uncounted (Nat.add_sub_cancel' (Nat.le_of_lt (hleft.mpr hlt)))
        (Nat.sub_pos_of_lt (hleft.mpr hlt)) (hrest ▸ hint), Option.elim_none]
    · intro hcounted
      rw [recvBody_solid (behind_solid env r.toString) (by rw [hflat])
        (fun hlt => hrest ▸ hcounted (hleft.mp hlt)), hflat, List.take_length, ← setBody_headOf r]
      exact ⟨_, rfl⟩

/--
**A printed response is read again** exactly when an `int` can count what is left of the body behind the
first read.
-/
theorem responseRoundTrips_iff (env : Env) (r : HttpResponse) (hcasts : CastsDecimals env)
    (h : r.Printable) (hfits : r.HeadFits env) (hsize : r.body.length < 2 ^ 63) :
    r.RoundTrips env ↔ r.Counted env := by
  obtain ⟨hnull, hmessage⟩ := recvResponse_toString hcasts h hfits hsize
  constructor
  · rintro ⟨rest, hrecv⟩
    by_contra hno
    rw [hnull hno] at hrecv
    cases hrecv
  · exact hmessage

/-- A response with a header and with a reason of its own. -/
def sentNotFound : HttpResponse where
  status := 404
  close := false
  reason := ascii "Nothing here"
  body := ascii "hi"
  headers := ⟨[(ascii "Content-Type", ascii "text/plain")], by simp⟩

theorem printable_sentNotFound : sentNotFound.Printable where
  webSocket := rfl
  cookies := rfl
  reason := by decide +kernel
  name := by decide +kernel
  reserved := by decide +kernel
  value := by decide +kernel

theorem roundTrips_sentNotFound : sentNotFound.RoundTrips plainEnv :=
  (responseRoundTrips_iff plainEnv sentNotFound castsDecimals_plainEnv printable_sentNotFound
    (by unfold HttpResponse.HeadFits; decide +kernel) (by decide)).mpr
    (by unfold HttpResponse.Counted; decide +kernel)

/-- What is expected: a response that is printed is read again. -/
def ResponseRoundTripsAll : Prop :=
  ∀ (env : Env) (r : HttpResponse), CastsDecimals env → r.Printable → r.HeadFits env →
    r.body.length < 2 ^ 63 → r.RoundTrips env

/-- A response with a body of a little more than two gibibytes. -/
theorem not_responseRoundTripsAll : ¬ ResponseRoundTripsAll := by
  intro hclaim
  obtain ⟨body, hbody⟩ : ∃ body : Bytes, body.length = 2147487744 :=
    ⟨List.replicate 2147487744 0, List.length_replicate⟩
  have hprintable : ({ body := body } : HttpResponse).Printable :=
    ⟨rfl, rfl, nofun, nofun, nofun, nofun⟩
  have hline : lengthLine { body := body } =
      headerLine (ascii "content-length") (toDecimal 2147487744) := by
    have hne : body.isEmpty = false := by
      cases body with
      | nil => cases hbody
      | cons => rfl
    unfold lengthLine
    simp only [hne, hbody, Bool.false_eq_true, if_false]
  have hhead : (headText { body := body }).length ≤ 4096 := by
    unfold headText
    rw [hline]
    show (printedVersion .http11 ++ 32 :: (toDecimal (HttpStatus.value 200) ++ 32 ::
      (httpStatus2String 200 ++ 13 :: 10 :: ([] ++ (headerLine (ascii "connection") (ascii "close") ++
        (headerLine (ascii "content-length") (toDecimal 2147487744) ++ [13, 10])))))).length ≤ 4096
    decide +kernel
  have hlength : ({ body := body } : HttpResponse).toString.length =
      (headText { body := body }).length + 2147487744 := by
    rw [toString_eq hprintable, List.length_append, ← hbody]
  have hfits : ({ body := body } : HttpResponse).HeadFits plainEnv := by
    show _ - body.length ≤ 4096
    omega
  have hsize : body.length < 2 ^ 63 := by omega
  -- what the first read leaves is negative as an `int`
  have hcounted : ¬ ({ body := body } : HttpResponse).Counted plainEnv := by
    intro hcounted
    have hpos := hcounted (by show 4096 < _; omega)
    rw [hlength, show plainEnv.buffSize = 4096 from rfl, toInt32, Int.bmod_def] at hpos
    omega
  obtain ⟨rest, hrecv⟩ := hclaim plainEnv _ castsDecimals_plainEnv hprintable hfits hsize
  rw [(recvResponse_toString castsDecimals_plainEnv hprintable hfits hsize).1 hcounted] at hrecv
  cases hrecv

end Nemo.Http.Client
